import Fiudp.Os.Files

/-!
# The session counter

`SessionIdStore`: the counter beside the key file, and the programs that remain
of a call of `next` after each of its file steps.
-/

namespace Fiudp.Session

open ByteLayout Interaction Os

variable {target : Target}

structure SessionIdStore where
  path : PathBuf
  deriving DecidableEq

/-- `SessionIdStore::new`. -/
def SessionIdStore.new (keyPath : PathBuf) : SessionIdStore :=
  ⟨keyPath.setExtension "session_id".toList⟩

/-- `value.checked_add(1)`. -/
def checkedSucc (value : UInt16) : Option UInt16 :=
  if value.toNat + 1 ≤ 65535 then some (value + 1) else none

namespace SessionIdStore

variable (self : SessionIdStore)

/-- The value in the file, from the answer of `fs::read`. -/
def current : Except ErrorKind (ByteVec target) → Result (Option UInt16)
  | .ok bytes =>
      if bytes.val.length ≠ 2 then .error (.error .invalidSessionFile)
      else .ok (some (u16FromBeBytes bytes.val))
  | .error .notFound => .ok none
  | .error kind => .error (.error (.io (.readSessionFile self.path) kind))

/-- The value to be persisted. -/
def nextRaw : Option UInt16 → Result UInt16
  | some value =>
      match checkedSucc value with
      | some next => .ok next
      | none => .error (.error .sessionIdOverflow)
  | none => .ok 1

/-- `SessionIdStore::next` once the new value is known: persist and return it. -/
def persist (raw : UInt16) : Process target SessionId := do
  withContext (.writeSessionFile self.path) (fsWrite self.path (u16ToBeBytes raw).toList)
  return ⟨raw⟩

/-- `SessionIdStore::next`. -/
def next : Process target SessionId := do
  let reply ← Fallible.call (Syscall.read self.path)
  let current ← Fallible.ofExcept (self.current reply)
  let raw ← Fallible.ofExcept (nextRaw current)
  self.persist raw

/-! ## The file steps of a call -/

/-- What `next` decides from the answer of its read. -/
def decision (reply : Except ErrorKind (ByteVec target)) : Result UInt16 := do
  let current ← self.current reply
  nextRaw current

def highByte (raw : UInt16) : UInt8 := UInt8.ofNat (raw.toNat / 256)

def lowByte (raw : UInt16) : UInt8 := UInt8.ofNat raw.toNat

theorem toList_u16ToBeBytes (raw : UInt16) :
    (u16ToBeBytes raw).toList = [highByte raw, lowByte raw] := rfl

abbrev Remaining (target : Target) := Program Syscall (SysReply target) (Result SessionId)

def writeFailed (kind : ErrorKind) : Remaining target :=
  .done (.error (.error (.io (.writeSessionFile self.path) kind)))

/-- What remains after the first byte. -/
def writeLow (raw : UInt16) : Remaining target :=
  .ask (.writeByte self.path 1 (lowByte raw)) fun
    | .ok () => .done (.ok ⟨raw⟩)
    | .error kind => self.writeFailed kind

/-- What remains after the truncation. -/
def writeHigh (raw : UInt16) : Remaining target :=
  .ask (.writeByte self.path 0 (highByte raw)) fun
    | .ok () => self.writeLow raw
    | .error kind => self.writeFailed kind

/-- What remains after the read. -/
def truncate (raw : UInt16) : Remaining target :=
  .ask (.openTruncate self.path) fun
    | .ok () => self.writeHigh raw
    | .error kind => self.writeFailed kind

theorem persist_run (raw : UInt16) : (self.persist raw : Process target _).run =
    self.truncate raw := by
  rw [truncate]
  change Program.ask _ _ = Program.ask _ _
  congr 1
  funext reply
  cases reply with
  | error kind => rfl
  | ok =>
      rw [writeHigh]
      change Program.ask _ _ = Program.ask _ _
      congr 1
      funext reply
      cases reply with
      | error kind => rfl
      | ok =>
          rw [writeLow]
          change Program.ask _ _ = Program.ask _ _
          congr 1
          funext reply
          cases reply <;> rfl

variable {self} in
theorem decision_of_current_ok {reply : Except ErrorKind (ByteVec target)}
    {value : Option UInt16} (hcurrent : self.current reply = .ok value) :
    self.decision reply = nextRaw value := by
  rw [decision, hcurrent]
  rfl

variable {self} in
theorem decision_of_current_error {reply : Except ErrorKind (ByteVec target)}
    {failure : Failure} (hcurrent : self.current reply = .error failure) :
    self.decision reply = .error failure := by
  rw [decision, hcurrent]
  rfl

theorem decide_run (reply : Except ErrorKind (ByteVec target)) :
    (do
      let current ← Fallible.ofExcept (self.current reply)
      let raw ← Fallible.ofExcept (nextRaw current)
      self.persist raw : Process target SessionId).run =
      match self.decision reply with
      | .ok raw => self.truncate raw
      | .error failure => .done (.error failure) := by
  cases hcurrent : self.current reply with
  | error failure =>
      rw [decision_of_current_error hcurrent]
      rfl
  | ok value =>
      rw [decision_of_current_ok hcurrent, Fallible.ofExcept_ok_bind]
      cases nextRaw value with
      | error failure => rfl
      | ok raw => exact self.persist_run raw

theorem next_run : (self.next : Process target SessionId).run =
    .ask (.read self.path) fun reply =>
      match self.decision reply with
      | .ok raw => self.truncate raw
      | .error failure => .done (.error failure) := by
  change Program.ask _ _ = Program.ask _ _
  congr 1
  funext reply
  exact self.decide_run reply

/-- The calls on the file at a path. -/
def FileCall (path : PathBuf) : Syscall → Prop
  | .read other | .openTruncate other | .writeByte other _ _ => other = path
  | _ => False

/-- A call of `next` touches the session file only. -/
theorem next_callsOnly :
    (self.next : Process target SessionId).run.CallsOnly (FileCall self.path) := by
  have htruncate : ∀ raw, (self.truncate raw : Remaining target).CallsOnly
      (FileCall self.path) := by
    intro raw
    refine ⟨rfl, fun opened => ?_⟩
    cases opened with
    | error kind => trivial
    | ok =>
        refine ⟨rfl, fun high => ?_⟩
        cases high with
        | error kind => trivial
        | ok => exact ⟨rfl, fun low => by cases low <;> trivial⟩
  rw [next_run]
  refine ⟨rfl, fun reply => ?_⟩
  beta_reduce
  split
  · exact htruncate _
  · trivial

end SessionIdStore

end Fiudp.Session
