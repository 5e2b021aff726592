import Fiudp.Core.Mirroring
import Fiudp.Core.Contracts
import Fiudp.Run.Reception

/-!
# What depends on the key

A run hands its key to the AEAD and to nothing else: under another key of the right length it
makes the same calls and ends the same way, as long as the AEAD answers the same.
-/

namespace Fiudp.Run

open ByteLayout Protocol Interaction Sender Session SessionIdStore Os

variable {target : Target}

/-- The same call, with this key for the AEAD. -/
def Syscall.rekey (other : Key) : Syscall → Syscall
  | .encryptDetached _ nonce aad buffer => .encryptDetached other nonce aad buffer
  | call => call

def rekey (other : Key) : Disguise Syscall (SysReply target) where
  call := Syscall.rekey other
  reply
    | .read _, reply => reply
    | .openTruncate _, reply => reply
    | .writeByte _ _ _, reply => reply
    | .readStdin, reply => reply
    | .bindSocket, reply => reply
    | .connectSocket _, reply => reply
    | .sendDatagram _, reply => reply
    | .encryptDetached _ _ _ _, reply => reply
    | .sleep _, reply => reply
    | .genRangeTo _, reply => reply
    | .genPercent, reply => reply
    | .shuffle _, reply => reply

def Syscall.IsSealing : Syscall → Prop
  | .encryptDetached _ _ _ _ => True
  | _ => False

section Mirrors

variable {α : Type} {other : Key}

theorem fixes_of_not_isSealing {call : Syscall} (hcall : ¬ Syscall.IsSealing call) :
    (rekey other : Disguise Syscall (SysReply target)).Fixes call := by
  cases call with
  | encryptDetached => exact absurd trivial hcall
  | _ => exact ⟨rfl, fun _ => HEq.rfl⟩

theorem mirrors_next (store : SessionIdStore) :
    Mirrors (rekey other) (store.next : Process target SessionId).run store.next.run := by
  apply Mirrors.of_callsOnly
  apply Program.CallsOnly.imp store.next_callsOnly
  intro call hfile
  apply fixes_of_not_isSealing
  cases call with
  | encryptDetached => exact fun _ => hfile
  | _ => exact id

theorem mirrors_new (targetIp : Ipv4Addr) (port : UInt16) :
    Mirrors (rekey other) (UdpPacketSender.new targetIp port : Process target _).run
      (UdpPacketSender.new targetIp port).run := by
  rw [new_run]
  refine Mirrors.ask_self (fixes_of_not_isSealing id) fun bound => ?_
  cases bound with
  | error kind => exact .done _
  | ok =>
      refine Mirrors.ask_self (fixes_of_not_isSealing id) fun connected => ?_
      cases connected <;> exact .done _

variable {crate : ReedSolomon} {config : Config} {key : Key} {sender : UdpPacketSender}

/-- Only the encryptor depends on the key. -/
theorem mirrors_components (call : Call) :
    Mirrors (rekey other) (components crate config.input ⟨key⟩ sender call :
      Program Syscall (SysReply target) _) (components crate config.input ⟨other⟩ sender call) := by
  cases call with
  | readAll =>
      change Mirrors _ config.input.readAll.run config.input.readAll.run
      cases config.input with
      | file path => exact .ask (Syscall.read path) _ _ fun reply => .done _
      | stdin => exact .ask Syscall.readStdin _ _ fun reply => .done _
  | encode => exact .done _
  | encryptInPlace nonce aad buffer =>
      exact .ask (Syscall.encryptDetached key nonce aad buffer) _ _ fun reply => .done _
  | sendPacket packet =>
      change Mirrors _ (sender.send packet).run (sender.send packet).run
      rw [UdpPacketSender.send_run]
      exact Mirrors.ask_self (fixes_of_not_isSealing id) fun reply => .done _
  | sleep | genRangeTo | genPercent | shuffle =>
      exact Mirrors.ask_self (fixes_of_not_isSealing id) fun reply => .done _

theorem mirrors_transmitFrame (sessionId : SessionId) :
    Mirrors (rekey other) (transmitFrame crate config key sessionId : Process target Unit).run
      (transmitFrame crate config other sessionId).run :=
  (mirrors_new _ _).fallible_bind fun _ => .plug mirrors_components _

/-- What is left of a run once its key has been read. -/
theorem mirrors_rest (store : SessionIdStore) :
    Mirrors (rekey other) (store.next >>= transmitFrame crate config key : Process target Unit).run
      (store.next >>= transmitFrame crate config other).run :=
  (mirrors_next store).fallible_bind mirrors_transmitFrame

end Mirrors

/-! ## Two keys -/

section Keys

variable {attempt : Attempt target} {bytes : ByteVec target} {tail : SysTrace target}

theorem datagrams_rekey (other : Key) (trace : SysTrace target) :
    datagrams (trace.map (rekey other).event) = datagrams trace := by
  rw [datagrams, datagrams, List.flatMap_map]
  congr 1
  funext event
  obtain ⟨call, reply⟩ := event
  cases call <;> rfl

theorem encryptions_rekey (other : Key) (trace : SysTrace target) :
    encryptions (trace.map (rekey other).event) =
      (encryptions trace).map fun item => (other, item.2) := by
  rw [encryptions, encryptions, List.flatMap_map, List.map_flatMap]
  congr 1
  funext event
  obtain ⟨call, reply⟩ := event
  cases call <;> rfl

theorem keyDecision_of_length (path : PathBuf) (hlength : bytes.val.length = 32) :
    keyDecision path (.ok bytes) = .ok ⟨bytes.val, hlength⟩ :=
  dif_pos hlength

/-- A run that has read its key, killed anywhere: with any other key in the file, and answered
the same, it makes the same calls but for the key it hands to the AEAD, and ends the same.  A run
whose input is its key file is answered the same only by a file that changes between the reads. -/
theorem exists_rekeyed (htrace : attempt.trace = ⟨.read attempt.config.keyPath, .ok bytes⟩ :: tail)
    (hlength : bytes.val.length = 32) {other : ByteVec target} (hother : other.val.length = 32) :
    ∃ rekeyed : Attempt target, rekeyed.crate = attempt.crate ∧
      rekeyed.config = attempt.config ∧
      rekeyed.trace = ⟨.read attempt.config.keyPath, .ok other⟩ ::
        tail.map (rekey ⟨other.val, hother⟩).event ∧
      rekeyed.rest.value? = attempt.rest.value? ∧
      datagrams rekeyed.trace = datagrams attempt.trace ∧
      encryptions rekeyed.trace =
        (encryptions attempt.trace).map fun item => (⟨other.val, hother⟩, item.2) := by
  have hkeys := keyDecision_of_length attempt.config.keyPath hlength
  have hothers := keyDecision_of_length attempt.config.keyPath hother
  have hsteps := attempt.steps
  rw [htrace, run_run] at hsteps
  rcases (steps_ask_iff _ _ _ _).mp hsteps with ⟨hnil, -⟩ | ⟨reply, later, hsplit, hlater⟩
  · cases hnil
  cases hsplit
  rw [hkeys] at hlater
  obtain ⟨rest, hrest, hsame⟩ := (mirrors_rest _).steps hlater
  have hrekeyed : Steps (run attempt.crate attempt.config).run
      (⟨.read attempt.config.keyPath, .ok other⟩ :: tail.map (rekey ⟨other.val, hother⟩).event)
      rest := by
    rw [run_run]
    apply Steps.ask
    rw [hothers]
    exact hrest
  refine ⟨⟨attempt.crate, attempt.config, _, rest, hrekeyed⟩, rfl, rfl, rfl, hsame.value?_eq,
    ?_, ?_⟩
  · rw [htrace]
    exact datagrams_rekey ⟨other.val, hother⟩ tail
  · rw [htrace]
    exact encryptions_rekey ⟨other.val, hother⟩ tail

/-- A run that succeeds has read a key. -/
theorem exists_key (hok : attempt.rest = .done (.ok ())) :
    ∃ (bytes : ByteVec target) (tail : SysTrace target), bytes.val.length = 32 ∧
      attempt.trace = ⟨.read attempt.config.keyPath, .ok bytes⟩ :: tail := by
  have hreturns : Returns (run attempt.crate attempt.config).run attempt.trace (.ok ()) := by
    rw [Returns, ← hok]
    exact attempt.steps
  obtain ⟨reply, tail, htrace, hcases⟩ := returns_run hreturns
  rcases hcases with ⟨failure, -, -, hresult⟩ | ⟨key, hkey, -⟩
  · cases hresult
  · cases reply with
    | error kind => cases hkey
    | ok bytes =>
        by_cases hlength : bytes.val.length = 32
        · exact ⟨bytes, tail, hlength, htrace⟩
        · rw [keyDecision, dif_neg hlength] at hkey
          cases hkey

end Keys

def otherKey : ByteVec Target.release64 := ⟨List.replicate 32 7, by decide⟩

/-- A run that has succeeded, and the same run under another key. -/
theorem exists_rekeyed_sample :
    ∃ attempt rekeyed : Attempt Target.release64, attempt.rest = .done (.ok ()) ∧
      rekeyed.rest.value? = some (.ok ()) ∧ datagrams attempt.trace ≠ [] ∧
      datagrams rekeyed.trace = datagrams attempt.trace ∧
      encryptions rekeyed.trace =
        (encryptions attempt.trace).map fun item => (⟨otherKey.val, rfl⟩, item.2) := by
  obtain ⟨attempt, raw, -, hplain, -⟩ :=
    Ready.exists_plainRun (sampleConfig sampleKeyPath) rfl rfl ready_sampleFiles (by omega)
  obtain ⟨packet, hpacket⟩ := hplain.exists_datagram
  obtain ⟨bytes, tail, hlength, htrace⟩ := exists_key hplain.rest_eq
  obtain ⟨rekeyed, -, -, -, hrest, hdatagrams, hencryptions⟩ :=
    exists_rekeyed htrace hlength (rfl : otherKey.val.length = 32)
  rw [hplain.rest_eq] at hrest
  exact ⟨attempt, rekeyed, hplain.rest_eq, hrest, List.ne_nil_of_mem hpacket, hdatagrams,
    hencryptions⟩

end Fiudp.Run
