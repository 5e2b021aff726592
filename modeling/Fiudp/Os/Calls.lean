import Fiudp.Sender.Pipeline

/-!
# Calls of a process

The calls the crate makes to the operating system and to the AEAD and random
number crates.  `fs::write` opens the file with create and truncate and then
writes the bytes in order, so each of these is a call of its own: the process
may be killed, or the call may fail, between any two of them.
-/

namespace Fiudp.Os

open Protocol Interaction Sender

abbrev Key := ByteLayout.Bytes 32

inductive Syscall
  | read (path : PathBuf)
  | openTruncate (path : PathBuf)
  | writeByte (path : PathBuf) (offset : ℕ) (byte : UInt8)
  | readStdin
  | bindSocket
  | connectSocket (address : SocketAddrV4)
  | sendDatagram (packet : Packet)
  | encryptDetached (key : Key) (nonce : Nonce) (aad : Aad) (buffer : Slice)
  | sleep (delay : Duration)
  | genRangeTo (max : ℕ)
  | genPercent
  | shuffle (packets : List Packet)
  deriving DecidableEq

@[reducible]
def SysReply (target : Target) : Syscall → Type
  | .read _ => Except ErrorKind (ByteVec target)
  | .openTruncate _ => Except ErrorKind Unit
  | .writeByte _ _ _ => Except ErrorKind Unit
  | .readStdin => Except ErrorKind (ByteVec target)
  | .bindSocket => Except ErrorKind Unit
  | .connectSocket _ => Except ErrorKind Unit
  | .sendDatagram _ => Except ErrorKind ℕ
  | .encryptDetached _ _ _ _ => Except String Sealed
  | .sleep _ => Unit
  | .genRangeTo max => Fin (max + 1)
  | .genPercent => Fin 100
  | .shuffle packets => {out : List Packet // out.Perm packets}

abbrev SysTrace (target : Target) := Trace Syscall (SysReply target)

/-- A function of the crate, over its calls. -/
abbrev Process (target : Target) := Fallible Failure Syscall (SysReply target)

variable {target : Target}

/-- A call that returns an `io::Result`. -/
def ioCall {α : Type} (program : Program Syscall (SysReply target) (Except ErrorKind α)) :
    Fallible ErrorKind Syscall (SysReply target) α :=
  ExceptT.mk program

/-- `.map_err(|e| FiudpError::Io { context, source: e })?` -/
def withContext {α : Type} (context : IoContext)
    (program : Fallible ErrorKind Syscall (SysReply target) α) : Process target α :=
  program.mapErr fun source => .error (.io context source)

/-- `fs::read`. -/
def fsRead (path : PathBuf) : Fallible ErrorKind Syscall (SysReply target) (ByteVec target) :=
  ioCall (.perform (Syscall.read path))

/-- `Write::write_all` on a file just opened, from the given offset on. -/
def writeAll (path : PathBuf) : ℕ → List UInt8 →
    Fallible ErrorKind Syscall (SysReply target) Unit
  | _, [] => pure ()
  | offset, byte :: rest => do
      ioCall (.perform (Syscall.writeByte path offset byte))
      writeAll path (offset + 1) rest

/-- `fs::write`. -/
def fsWrite (path : PathBuf) (contents : List UInt8) :
    Fallible ErrorKind Syscall (SysReply target) Unit := do
  ioCall (.perform (Syscall.openTruncate path))
  writeAll path 0 contents

theorem returns_fsRead_iff (path : PathBuf) (trace : SysTrace target)
    (reply : Except ErrorKind (ByteVec target)) :
    Returns (fsRead path).run trace reply ↔ trace = [⟨.read path, reply⟩] :=
  returns_perform_iff _ _ _

end Fiudp.Os
