import Fiudp.Core.World
import Fiudp.Sender.Exits

/-!
# Components that succeed

What `send` does when its reader, encryptor and transport never fail, and runs
with components given as functions, like those the tests of the crate inject.
-/

namespace Fiudp.Sender

open ByteLayout Protocol Interaction

variable {target : Target}

/-- No error is answered by the reader, the encryptor or the transport. -/
def Succeeds : Event Call (Reply target) → Prop
  | ⟨.readAll, reply⟩ => ∃ frame, reply = .ok frame
  | ⟨.encryptInPlace _ _ _, reply⟩ => ∃ encrypted, reply = .ok encrypted
  | ⟨.sendPacket _, reply⟩ => reply = .ok ()
  | _ => True

/-- The call of the FEC engine for a frame, with its answer. -/
def encodeEvent (ratio : ParityRatio) (frame : List UInt8)
    (reply : Except FiudpError {out : List Slice //
      out.length = (sessionShards ratio frame).length}) : Event Call (Reply target) :=
  ⟨.encode (dataCount frame) (parityCount ratio frame) (sessionShards ratio frame), reply⟩

/-- With components that succeed, only the frame and the FEC engine decide how
`send` ends. -/
theorem Exit.of_succeeds {self : FiudpSender} {ratio : ParityRatio}
    {rendezvousSecs : RendezvousSecs} {sessionId : SessionId}
    {trace : Trace Call (Reply target)} {result : Result Unit}
    (hexit : Exit self ratio rendezvousSecs sessionId trace result)
    (hsucceeds : ∀ event ∈ trace, Succeeds event) :
    ∃ frame : ByteVec target, frameRead trace = some frame.val ∧
      ⟨.readAll, .ok frame⟩ ∈ trace ∧ ((frame.val = [] ∧ result = .error (.error .emptyInput)) ∨
        (frame.val ≠ [] ∧ 65535 < dataCount frame.val + parityCount ratio frame.val ∧
          result = .error (.error
            (.tooManyShards (dataCount frame.val + parityCount ratio frame.val)))) ∨
        (Accepted ratio frame.val ∧ 0 < parityCount ratio frame.val ∧ ∃ error,
          encodeEvent ratio frame.val (.error error) ∈ trace ∧
            result = .error (.error error)) ∨
        (Accepted ratio frame.val ∧ result = .ok () ∧
          (0 < parityCount ratio frame.val → ∃ out,
            encodeEvent ratio frame.val (.ok out) ∈ trace))) := by
  cases hexit with
  | readFailed error =>
      obtain ⟨frame, hframe⟩ := hsucceeds _ List.mem_cons_self
      cases hframe
  | emptyInput frame hempty => exact ⟨frame, rfl, by simp, .inl ⟨hempty, rfl⟩⟩
  | tooManyShards frame hframe hshards =>
      exact ⟨frame, rfl, by simp, .inr (.inl ⟨hframe, hshards, rfl⟩)⟩
  | fecFailed frame error haccepted hparity =>
      exact ⟨frame, rfl, by simp, .inr (.inr (.inl
        ⟨haccepted, hparity, error, by simp [encodeEvent], rfl⟩))⟩
  | encryptFailed frame encrypted shard error hencrypting hshard =>
      obtain ⟨item, hitem⟩ := hsucceeds _ (List.mem_append_right _ List.mem_cons_self)
      cases hitem
  | sendFailed frame sent packet error hprepared hchaos hpacket =>
      have hsent := hsucceeds _ (List.mem_append_right _ (List.mem_append_right _
        (List.mem_append_right _ List.mem_cons_self)))
      cases hsent
  | @completed frame fec draws slices encrypted final hprepared hchaos =>
      refine ⟨frame, rfl, by simp [preparation], .inr (.inr (.inr
        ⟨hprepared.accepted, rfl, fun hparity => ?_⟩))⟩
      cases hprepared.fecLeaves with
      | skipped hnone => omega
      | encoded out _ => exact ⟨out, by simp [preparation, encodeEvent]⟩

/-! ## Components as functions -/

structure Components (target : Target) where
  readAll : Except FiudpError (ByteVec target)
  encode : (dataShards parityShards : ℕ) → (shards : List Slice) →
    Except FiudpError {out : List Slice // out.length = shards.length}
  encryptInPlace : Nonce → Aad → Slice → Except FiudpError Sealed
  sendPacket : Packet → Except FiudpError Unit

namespace Components

def reply (components : Components target) : (call : Call) → Reply target call
  | .readAll => components.readAll
  | .encode dataShards parityShards shards =>
      components.encode dataShards parityShards shards
  | .encryptInPlace nonce aad buffer => components.encryptInPlace nonce aad buffer
  | .sendPacket packet => components.sendPacket packet
  | .sleep _ => ()
  | .genRangeTo max => (0 : Fin (max + 1))
  | .genPercent => (0 : Fin 100)
  | .shuffle packets => ⟨packets, .refl _⟩

/-- The whole run of `send` with these components. -/
def run (components : Components target) (self : FiudpSender) (ratio : ParityRatio)
    (rendezvousSecs : RendezvousSecs) (sessionId : SessionId) :
    Execution Call (Reply target) (Result Unit) Unit :=
  (self.send ratio rendezvousSecs sessionId).run.execute
    (fun state call => (components.reply call, state)) ()

variable (components : Components target) (self : FiudpSender) (ratio : ParityRatio)
  (rendezvousSecs : RendezvousSecs) (sessionId : SessionId)

theorem returns_run :
    Returns (self.send ratio rendezvousSecs sessionId).run
      (components.run self ratio rendezvousSecs sessionId).trace
      (components.run self ratio rendezvousSecs sessionId).value :=
  returns_execute _ _ _

/-- Every event of the run is answered by the components. -/
theorem reply_of_mem_run {event : Event Call (Reply target)}
    (hmem : event ∈ (components.run self ratio rendezvousSecs sessionId).trace) :
    event.reply = components.reply event.call := by
  have hall : ∀ event ∈ (components.run self ratio rendezvousSecs sessionId).trace,
      event.reply = components.reply event.call :=
    forall_execute _ (fun _ _ => rfl) _ _
  exact hall event hmem

/-- Components that accept everything: an FEC engine that rewrites every slice
with `engine`, and an encryptor that leaves the plaintext under a zero tag. -/
def accepting (frame : ByteVec target) (engine : Slice → Slice) : Components target where
  readAll := .ok frame
  encode _ _ shards := .ok ⟨shards.map engine, List.length_map _⟩
  encryptInPlace _ _ buffer := .ok ⟨Bytes.zeroes tagSize, buffer⟩
  sendPacket _ := .ok ()

section Accepting

variable (frame : ByteVec target) {engine : Slice → Slice}

theorem keepsLengths_accepting (hengine : ∀ shard, (engine shard).length = shard.length) :
    ∀ event ∈ ((accepting frame engine).run self ratio rendezvousSecs sessionId).trace,
      KeepsLengths event := by
  rintro ⟨call, reply⟩ hmem
  have hreply := (accepting frame engine).reply_of_mem_run self ratio rendezvousSecs sessionId
    hmem
  cases call with
  | encode dataShards parityShards shards =>
      rintro out rfl
      cases hreply
      simp [Function.comp_def, hengine]
  | encryptInPlace nonce aad buffer =>
      rintro encrypted rfl
      cases hreply
      rfl
  | readAll | sendPacket | sleep | genRangeTo | genPercent | shuffle => trivial

theorem succeeds_accepting :
    ∀ event ∈ ((accepting frame engine).run self ratio rendezvousSecs sessionId).trace,
      Succeeds event := by
  rintro ⟨call, reply⟩ hmem
  have hreply := (accepting frame engine).reply_of_mem_run self ratio rendezvousSecs sessionId
    hmem
  cases call with
  | readAll => exact ⟨frame, hreply⟩
  | encryptInPlace nonce aad buffer => exact ⟨_, hreply⟩
  | sendPacket packet => exact hreply
  | encode | sleep | genRangeTo | genPercent | shuffle => trivial

theorem exit_accepting (hengine : ∀ shard, (engine shard).length = shard.length) :
    Exit self ratio rendezvousSecs sessionId
      ((accepting frame engine).run self ratio rendezvousSecs sessionId).trace
      ((accepting frame engine).run self ratio rendezvousSecs sessionId).value :=
  send_exit (keepsLengths_accepting _ _ _ _ frame hengine) (returns_run _ _ _ _ _)

theorem value_accepting (hengine : ∀ shard, (engine shard).length = shard.length)
    (haccepted : Accepted ratio frame.val) :
    ((accepting frame engine).run self ratio rendezvousSecs sessionId).value = .ok () := by
  have hreply {event : Event Call (Reply target)}
      (hmem : event ∈ ((accepting frame engine).run self ratio rendezvousSecs sessionId).trace) :=
    (accepting frame engine).reply_of_mem_run self ratio rendezvousSecs sessionId hmem
  obtain ⟨other, -, hread, hcases⟩ :=
    (exit_accepting self ratio rendezvousSecs sessionId frame hengine).of_succeeds
      (succeeds_accepting _ _ _ _ frame)
  have hframe : other = frame := Except.ok.inj (hreply hread)
  subst hframe
  rcases hcases with ⟨hempty, -⟩ | ⟨-, hshards, -⟩ | ⟨-, -, error, hencode, -⟩ | ⟨-, hok, -⟩
  · exact absurd hempty haccepted.nonempty
  · exact absurd haccepted.fits hshards.not_ge
  · cases hreply hencode
  · exact hok

end Accepting

end Components

/-! ## A session of one data shard and one parity shard -/

def sampleFrame : ByteVec Target.release64 := ⟨[1], by decide⟩

def sampleSender : FiudpSender := ⟨⟨500⟩, 0, 0, false⟩

def sampleRatio : ParityRatio := ⟨100, by decide⟩

theorem accepted_sampleFrame : Accepted sampleRatio sampleFrame.val :=
  ⟨by decide, by decide⟩

def sampleRun (engine : Slice → Slice) :
    Execution Call (Reply Target.release64) (Result Unit) Unit :=
  (Components.accepting sampleFrame engine).run sampleSender sampleRatio ⟨60⟩ ⟨1⟩

section Sample

variable {engine : Slice → Slice}

theorem keepsLengths_sampleRun (hengine : ∀ shard, (engine shard).length = shard.length) :
    ∀ event ∈ (sampleRun engine).trace, KeepsLengths event :=
  Components.keepsLengths_accepting _ _ _ _ _ hengine

theorem value_sampleRun (hengine : ∀ shard, (engine shard).length = shard.length) :
    (sampleRun engine).value = .ok () :=
  Components.value_accepting _ _ _ _ _ hengine accepted_sampleFrame

theorem returns_sampleRun (hengine : ∀ shard, (engine shard).length = shard.length) :
    Returns (sampleSender.send sampleRatio ⟨60⟩ ⟨1⟩).run (sampleRun engine).trace (.ok ()) := by
  rw [← value_sampleRun hengine]
  exact Components.returns_run _ _ _ _ _

theorem reply_of_mem_sampleRun {event : Event Call (Reply Target.release64)}
    (hmem : event ∈ (sampleRun engine).trace) :
    event.reply = (Components.accepting sampleFrame engine).reply event.call :=
  Components.reply_of_mem_run _ _ _ _ _ hmem

end Sample

end Fiudp.Sender
