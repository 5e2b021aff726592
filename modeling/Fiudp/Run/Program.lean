import Fiudp.Core.Components
import Fiudp.Run.Settings
import Fiudp.Sender.Fec
import Fiudp.Session.Store

/-!
# A run of the program

`run` with its production components, as a program over the calls of the process.
-/

namespace Fiudp.Run

open ByteLayout Protocol Interaction Sender Session Os

variable {target : Target}

/-! ## The key -/

structure FileKeySource where
  path : PathBuf

/-- `read_key`. -/
def readKey (path : PathBuf) : Process target Key := do
  let bytes ← withContext (.readKeyFile path) (fsRead path)
  if hlength : bytes.val.length = 32 then return ⟨bytes.val, hlength⟩
  else throw (.error (.invalidKeyLength bytes.val.length))

def FileKeySource.loadKey (self : FileKeySource) : Process target Key :=
  readKey self.path

/-! ## The production components -/

/-- A method of a component trait, which fails with a `FiudpError`. -/
abbrev Method (target : Target) := Fallible FiudpError Syscall (SysReply target)

/-- `InputSource::read_all`. -/
def InputSource.readAll : InputSource → Method target (ByteVec target)
  | .file path => (fsRead path).mapErr (.io (.readInputFile path))
  | .stdin => (ioCall (.perform Syscall.readStdin)).mapErr (.io .readStdin)

structure ChaChaEncryptor where
  key : Key

/-- `ChaChaEncryptor::encrypt_in_place`. -/
def ChaChaEncryptor.encryptInPlace (self : ChaChaEncryptor) (nonce : Nonce) (aad : Aad)
    (buffer : Slice) : Method target Sealed :=
  Fallible.mapErr .encryption
    (ExceptT.mk (.perform (Syscall.encryptDetached self.key nonce aad buffer)))

/-- A bound and connected socket, known by its target. -/
structure UdpPacketSender where
  target : SocketAddrV4

/-- `UdpPacketSender::new`. -/
def UdpPacketSender.new (targetIp : Ipv4Addr) (port : UInt16) :
    Process target UdpPacketSender := do
  withContext .bindSocket (ioCall (.perform Syscall.bindSocket))
  let address : SocketAddrV4 := ⟨targetIp, port⟩
  withContext (.connectSocket address) (ioCall (.perform (Syscall.connectSocket address)))
  return ⟨address⟩

/-- `UdpPacketSender::send`. -/
def UdpPacketSender.send (self : UdpPacketSender) (packet : Packet) : Method target Unit := do
  let sent ← (ioCall (.perform (Syscall.sendDatagram packet))).mapErr
    (.io (.sendPacket self.target))
  if sent ≠ packet.toList.length then throw (.shortSend sent packet.toList.length)
  else pure ()

/-- The four components of a run, with the clock and the random number generator. -/
def components (crate : ReedSolomon) (reader : InputSource) (encryptor : ChaChaEncryptor)
    (sender : UdpPacketSender) :
    (call : Call) → Program Syscall (SysReply target) (Reply target call)
  | .readAll => reader.readAll.run
  | .encode dataShards parityShards shards =>
      .done (ReedSolomonEngine.encode crate dataShards parityShards shards)
  | .encryptInPlace nonce aad buffer => (encryptor.encryptInPlace nonce aad buffer).run
  | .sendPacket packet => (sender.send packet).run
  | .sleep delay => .perform (Syscall.sleep delay)
  | .genRangeTo max => .perform (Syscall.genRangeTo max)
  | .genPercent => .perform Syscall.genPercent
  | .shuffle packets => .perform (Syscall.shuffle packets)

/-! ## The run -/

/-- `pipeline.send(..)` on the components of a run. -/
def sendWith (crate : ReedSolomon) (config : Config) (key : Key) (sessionId : SessionId)
    (sender : UdpPacketSender) : Process target Unit :=
  let pipeline : FiudpSender :=
    ⟨config.delay, config.chaosDrop, config.chaosBurst, config.chaosShuffle⟩
  let send := pipeline.send config.parityRatio ⟨config.rendezvousSecs⟩ sessionId
  ExceptT.mk (send.run.plug (components crate config.input ⟨key⟩ sender))

/-- `run` after the session id has been taken. -/
def transmitFrame (crate : ReedSolomon) (config : Config) (key : Key) (sessionId : SessionId) :
    Process target Unit := do
  let sender ← UdpPacketSender.new config.targetIp config.targetPort
  sendWith crate config key sessionId sender

/-- `run`. -/
def run (crate : ReedSolomon) (config : Config) : Process target Unit := do
  let key ← (FileKeySource.mk config.keyPath).loadKey
  let sessionId ← (SessionIdStore.new config.keyPath).next
  transmitFrame crate config key sessionId

end Fiudp.Run
