import Fiudp.Run.Success
import Fiudp.Sender.Failures

/-!
# Runs rejected because of their input

The key is checked before the session counter is advanced, the input after it.  So
a run that rejects its key leaves the session file alone, and a run that rejects its
input does not.
-/

namespace Fiudp.Run

open ByteLayout Protocol Interaction Sender Session SessionIdStore Os

variable {target : Target}

/-! ## Errors of the transmission -/

/-- What the socket, the FEC engine, the encryptor, the packet assembly and the
transport report. -/
def TransmissionError : FiudpError → Prop
  | .io .bindSocket _ | .io (.connectSocket _) _ | .io (.sendPacket _) _ => True
  | .fec _ | .encryption _ | .invalidShardSize _ _ | .shortSend _ _ => True
  | _ => False

theorem reports_components {crate : ReedSolomon} {reader : InputSource}
    {encryptor : ChaChaEncryptor} {sender : UdpPacketSender} (call : Call)
    (first : SysTrace target) (reply : Reply target call)
    (hreturns : Returns (components crate reader encryptor sender call) first reply) :
    Reports TransmissionError ⟨call, reply⟩ := by
  cases call with
  | encode dataShards parityShards shards =>
      rintro error rfl
      obtain ⟨-, hencode⟩ := (returns_done_iff _ _ _).mp hreturns
      obtain ⟨message, rfl⟩ := ReedSolomonEngine.encode_error hencode.symm
      trivial
  | encryptInPlace nonce aad buffer =>
      rintro error rfl
      obtain ⟨answer, -, hanswer⟩ := (Fallible.returns_mapErr_iff _ _ _ _).mp hreturns
      cases answer with
      | ok encrypted => cases hanswer
      | error message =>
          cases hanswer
          trivial
  | sendPacket packet =>
      rintro error rfl
      rw [components, UdpPacketSender.send_run] at hreturns
      obtain ⟨answer, tail, -, hdone⟩ := (returns_ask_iff _ _ _ _).mp hreturns
      obtain ⟨-, hanswer⟩ := (returns_done_iff _ _ _).mp hdone
      cases answer with
      | error kind =>
          cases hanswer
          trivial
      | ok sent =>
          rw [UdpPacketSender.sendResult] at hanswer
          split at hanswer
          · cases hanswer
            trivial
          · cases hanswer
  | readAll | sleep | genRangeTo | genPercent | shuffle => trivial

/-! ## Errors of the session counter -/

def SessionError : FiudpError → Prop
  | .invalidSessionFile | .sessionIdOverflow => True
  | .io (.readSessionFile _) _ | .io (.writeSessionFile _) _ => True
  | _ => False

theorem sessionError_of_next {store : SessionIdStore} {trace : SysTrace target}
    {error : FiudpError} (hreturns : Returns store.next.run trace (.error (.error error))) :
    SessionError error := by
  obtain ⟨reply, tail, -, hcases⟩ := returns_next hreturns
  rcases hcases with ⟨failure, hfailure, -, hresult⟩ |
    ⟨raw, -, ⟨kind, hresult⟩ | ⟨-, hresult⟩⟩
  · cases hresult
    cases hcurrent : store.current reply with
    | error failure =>
        rw [decision_of_current_error hcurrent] at hfailure
        cases hfailure
        cases reply with
        | ok bytes =>
            rw [current] at hcurrent
            split at hcurrent
            · cases hcurrent
              trivial
            · cases hcurrent
        | error kind =>
            cases kind with
            | notFound => cases hcurrent
            | other code =>
                cases hcurrent
                trivial
    | ok value =>
        rw [decision_of_current_ok hcurrent] at hfailure
        cases value with
        | none => cases hfailure
        | some value =>
            rw [nextRaw] at hfailure
            split at hfailure
            · cases hfailure
            · cases hfailure
              trivial
  · cases hresult
    trivial
  · cases hresult

/-! ## The input -/

/-- The read of the input, with its answer. -/
def inputEvent : InputSource → Except ErrorKind (ByteVec target) →
    Event Syscall (SysReply target)
  | .file path, answer => ⟨.read path, answer⟩
  | .stdin, answer => ⟨.readStdin, answer⟩

def inputContext : InputSource → IoContext
  | .file path => .readInputFile path
  | .stdin => .readStdin

theorem returns_inputReadAll_iff (source : InputSource) (trace : SysTrace target)
    (reply : Except FiudpError (ByteVec target)) :
    Returns source.readAll.run trace reply ↔
      ∃ answer, trace = [inputEvent source answer] ∧
        reply = answer.mapError (.io (inputContext source)) := by
  cases source <;>
    exact (Fallible.returns_mapErr_iff _ _ _ _).trans
      (exists_congr fun _ => and_congr_left' (returns_perform_iff _ _ _))

/-- The error with which the answer of the input makes `send` stop before it has
anything to send. -/
def inputVerdict (config : Config) : Except ErrorKind (ByteVec target) → Option FiudpError
  | .error kind => some (.io (inputContext config.input) kind)
  | .ok frame =>
      if frame.val = [] then some .emptyInput
      else if 65535 < dataCount frame.val + parityCount config.parityRatio frame.val then
        some (.tooManyShards (dataCount frame.val + parityCount config.parityRatio frame.val))
      else none

section Send

variable {crate : ReedSolomon} {config : Config} {key : Key} {sessionId : SessionId}
  {sender : UdpPacketSender}

/-- A rejected input ends the run with its error. -/
theorem returns_sendWith_of_verdict {answer : Except ErrorKind (ByteVec target)}
    {error : FiudpError} (hverdict : inputVerdict config answer = some error) :
    Returns (sendWith crate config key sessionId sender).run [inputEvent config.input answer]
      (.error (.error error)) := by
  have hread : Realizes (components crate config.input ⟨key⟩ sender)
      [⟨.readAll, answer.mapError (.io (inputContext config.input))⟩]
      ([inputEvent config.input answer] ++ []) :=
    .cons ((returns_inputReadAll_iff _ _ _).mpr ⟨answer, rfl, rfl⟩) .nil
  refine (returns_plug_iff _ _ _).mpr ⟨_, hread, ?_⟩
  rw [send_run]
  refine .ask _ _ _ ?_
  cases answer with
  | error kind =>
      cases hverdict
      exact .refl _
  | ok frame =>
      change Returns (ite _ _ _) _ _
      rw [inputVerdict] at hverdict
      split_ifs at hverdict with hempty hshards
      · cases hverdict
        rw [if_pos hempty]
        exact .refl _
      · cases hverdict
        rw [if_neg hempty, if_pos hshards]
        exact .refl _

/-- An error of the transmission is that of a rejected input, or none of the input's. -/
theorem returns_sendWith {trace : SysTrace target} {error : FiudpError}
    (hreturns : Returns (sendWith crate config key sessionId sender).run trace
      (.error (.error error))) :
    (∃ answer, trace = [inputEvent config.input answer] ∧
        inputVerdict config answer = some error) ∨ TransmissionError error := by
  obtain ⟨calls, hrealizes, hcalls⟩ := (returns_plug_iff _ _ _).mp hreturns
  rcases returns_send hcalls with ⟨readError, rfl, hresult⟩ | ⟨frame, rest, rfl, hcases⟩
  · cases hresult
    rcases hrealizes with _ | ⟨hread, ⟨⟩⟩
    obtain ⟨answer, rfl, hanswer⟩ := (returns_inputReadAll_iff _ _ _).mp hread
    cases answer with
    | ok bytes => cases hanswer
    | error kind =>
        cases hanswer
        exact .inl ⟨.error kind, rfl, rfl⟩
  · rcases hrealizes with _ | ⟨hread, hrest⟩
    obtain ⟨answer, rfl, hanswer⟩ := (returns_inputReadAll_iff _ _ _).mp hread
    cases answer with
    | error kind => cases hanswer
    | ok bytes =>
        cases hanswer
        rcases hcases with ⟨hempty, rfl, hresult⟩ | ⟨hframe, hshards, rfl, hresult⟩ |
          ⟨-, hsend⟩
        · cases hresult
          cases hrest
          exact .inl ⟨.ok frame, rfl, if_pos hempty⟩
        · cases hresult
          cases hrest
          exact .inl ⟨.ok frame, rfl, (if_neg hframe).trans (if_pos hshards)⟩
        · have hreports : ∀ event ∈ rest, Reports TransmissionError event :=
            hrest.forall_calls
              (fun call first reply hreply (_ : ∀ event ∈ first, True) =>
                reports_components call first reply hreply)
              fun _ _ => trivial
          exact .inr (faithful_sendShards (fun _ _ => trivial) _ _ _ _ _ _ _ _ hsend hreports)

end Send

section Transmit

variable {crate : ReedSolomon} {config : Config} {key : Key} {sessionId : SessionId}

theorem returns_transmitFrame_of_verdict {answer : Except ErrorKind (ByteVec target)}
    {error : FiudpError} (hverdict : inputVerdict config answer = some error) :
    Returns (transmitFrame crate config key sessionId).run
      (socketTrace config.targetIp config.targetPort ++ [inputEvent config.input answer])
      (.error (.error error)) :=
 (returns_try_iff _ _ _ _).mpr
    (.inr ⟨_, _, _, rfl, returns_socketTrace _ _, returns_sendWith_of_verdict hverdict⟩)

theorem returns_transmitFrame {trace : SysTrace target} {error : FiudpError}
    (hreturns : Returns (transmitFrame crate config key sessionId).run trace
      (.error (.error error))) :
    (∃ answer, trace = socketTrace config.targetIp config.targetPort ++
          [inputEvent config.input answer] ∧
        inputVerdict config answer = some error) ∨ TransmissionError error := by
  rcases (returns_try_iff _ _ _ _).mp hreturns with ⟨failure, hfailure, hnew⟩ |
    ⟨first, second, sender, rfl, hnew, hsend⟩
  · cases hfailure
    rcases returns_new hnew with ⟨kind, -, hresult⟩ | ⟨kind, -, hresult⟩ | ⟨-, hresult⟩
    · cases hresult
      exact .inr trivial
    · cases hresult
      exact .inr trivial
    · cases hresult
  · rcases returns_new hnew with ⟨kind, -, hresult⟩ | ⟨kind, -, hresult⟩ | ⟨rfl, hresult⟩
    · cases hresult
    · cases hresult
    · rcases returns_sendWith hsend with ⟨answer, rfl, hverdict⟩ | htransmission
      · exact .inl ⟨answer, rfl, hverdict⟩
      · exact .inr htransmission

end Transmit

/-! ## Errors of the input -/

/-- The errors raised by the key file and by reading or checking the input frame. -/
def InputError : FiudpError → Prop
  | .io (.readKeyFile _) _ | .io (.readInputFile _) _ | .io .readStdin _ => True
  | .invalidKeyLength _ | .emptyInput | .tooManyShards _ => True
  | _ => False

theorem inputError_of_verdict {config : Config} {answer : Except ErrorKind (ByteVec target)}
    {error : FiudpError} (hverdict : inputVerdict config answer = some error) :
    InputError error := by
  cases answer with
  | error kind =>
      rw [inputVerdict] at hverdict
      cases hverdict
      cases config.input <;> trivial
  | ok frame =>
      rw [inputVerdict] at hverdict
      split_ifs at hverdict <;> (cases hverdict; trivial)

theorem InputError.not_transmission {error : FiudpError} (hinput : InputError error) :
    ¬ TransmissionError error := by
  cases error with
  | io context kind => cases context <;> first | exact hinput.elim | exact id
  | _ => first | exact hinput.elim | exact id

theorem InputError.not_session {error : FiudpError} (hinput : InputError error) :
    ¬ SessionError error := by
  cases error with
  | io context kind => cases context <;> first | exact hinput.elim | exact id
  | _ => first | exact hinput.elim | exact id

/-! ## Rejected runs -/

/-- The answers of a system that accepts the key, persists the next session id, sets
up the socket, and only then delivers an input that is rejected. -/
inductive RejectedLate (config : Config) : SysTrace target → FiudpError → Prop
  | intro {keyReply sessionReply answer : Except ErrorKind (ByteVec target)} {key : Key}
      {raw : UInt16} {error : FiudpError} :
      keyDecision config.keyPath keyReply = .ok key →
      (SessionIdStore.new config.keyPath).decision sessionReply = .ok raw →
      inputVerdict config answer = some error →
        RejectedLate config (⟨.read config.keyPath, keyReply⟩ ::
          (⟨.read (SessionIdStore.new config.keyPath).path, sessionReply⟩ ::
              persistTrace (.new config.keyPath) raw ++
            (socketTrace config.targetIp config.targetPort ++
              [inputEvent config.input answer]))) error

section Rejected

variable {crate : ReedSolomon} {config : Config} {trace : SysTrace target} {error : FiudpError}

theorem RejectedLate.inputError (hlate : RejectedLate config trace error) : InputError error := by
  cases hlate with
  | intro _ _ hverdict => exact inputError_of_verdict hverdict

/-- A system that answers so makes the run return the error of its input. -/
theorem RejectedLate.returns (hlate : RejectedLate config trace error) :
    Returns (run crate config).run trace (.error (.error error)) := by
  cases hlate with
  | @intro keyReply sessionReply answer key raw _ hkey hsession hverdict =>
      rw [run_run]
      refine .ask _ _ _ ?_
      rw [hkey]
      exact (returns_try_iff _ _ _ _).mpr (.inr ⟨_, _, _, rfl, returns_next_of_ok hsession,
        returns_transmitFrame_of_verdict hverdict⟩)

/-- It has obtained a session id by then. -/
theorem RejectedLate.sessionId {attempt : Attempt target}
    (hlate : RejectedLate attempt.config attempt.trace error) :
    ∃ id, attempt.sessionId = some id := by
  generalize htrace : attempt.trace = trace at hlate
  cases hlate with
  | @intro keyReply sessionReply answer key raw _ hkey hsession hverdict =>
      refine ⟨⟨raw⟩, Attempt.sessionId_eq_some_iff.mpr ?_⟩
      rw [Attempt.nextResult, htrace, List.tail_cons, Attempt.store,
        Steps.resume_append (returns_next_of_ok hsession), Program.resume_done]
      rfl

/-- A run that is rejected because of its input has stopped at its key, or has had
its input rejected late. -/
theorem rejected_cases (hreturns : Returns (run crate config).run trace (.error (.error error)))
    (hinput : InputError error) :
    (∃ reply, trace = [⟨.read config.keyPath, reply⟩]) ∨ RejectedLate config trace error := by
  obtain ⟨keyReply, tail, rfl, hcases⟩ := returns_run hreturns
  rcases hcases with ⟨failure, -, rfl, -⟩ | ⟨key, hkey, hcases⟩
  · exact .inl ⟨keyReply, rfl⟩
  · rcases hcases with ⟨failure, hfailure, hnext⟩ | ⟨first, second, id, rfl, hnext, hsend⟩
    · cases hfailure
      exact absurd (sessionError_of_next hnext) hinput.not_session
    · obtain ⟨sessionReply, rest, rfl, hsession⟩ := returns_next hnext
      rcases hsession with ⟨failure, -, -, hresult⟩ |
        ⟨raw, hraw, ⟨kind, hresult⟩ | ⟨rfl, hresult⟩⟩
      · cases hresult
      · cases hresult
      · rcases returns_transmitFrame hsend with ⟨answer, rfl, hverdict⟩ | htransmission
        · exact .inr (.intro hkey hraw hverdict)
        · exact absurd htransmission hinput.not_transmission

/-- Whatever the run finds, and however the system answers it: if it is rejected
because of its input, the session file is as it was before the run, unless the
system has accepted everything before the input. -/
theorem run_rejected_iff {Node : Type} [DecidableEq Node] {locate : PathBuf → Node}
    {before after : FileContents} {attempt : Attempt target} {result : Result Unit}
    (hdone : attempt.rest = .done result)
    (hfollows : Follows (NodeStep locate (locate attempt.store.path)) before attempt.trace
      after) :
    (∀ error, result = .error (.error error) → InputError error → after = before) ↔
      ¬ ∃ error, RejectedLate attempt.config attempt.trace error := by
  have hreturns : Returns (run attempt.crate attempt.config).run attempt.trace result := by
    rw [Returns, ← hdone]
    exact attempt.steps
  constructor
  · rintro hsame ⟨error, hlate⟩
    have hresult := Steps.unique hlate.returns hreturns
    obtain ⟨id, hid⟩ := hlate.sessionId
    obtain ⟨hlow, hhigh⟩ := (Attempt.rank_le hfollows).2 rfl id hid
    cases hresult
    rw [hsame error rfl hlate.inputError] at hhigh
    omega
  · rintro hnever error rfl hinput
    rcases rejected_cases hreturns hinput with ⟨reply, htrace⟩ | hlate
    · rw [htrace] at hfollows
      exact follows_of_not_writes hfollows (by simp [Writes])
    · exact absurd ⟨error, hlate⟩ hnever

end Rejected

/-! ## An empty frame -/

def emptyFrame (target : Target) : ByteVec target := ⟨[], Nat.zero_le _⟩

/-- Nobody has sent anything yet, and stdin is empty. -/
def emptyFrameTrace : SysTrace Target.release64 :=
  keyEvent sampleKeyPath sampleKey ::
    (⟨.read (SessionIdStore.new sampleKeyPath).path, .error .notFound⟩ ::
        persistTrace (.new sampleKeyPath) 1 ++
      (socketTrace (sampleConfig sampleKeyPath).targetIp (sampleConfig sampleKeyPath).targetPort ++
        [inputEvent .stdin (.ok (emptyFrame _))]))

theorem rejectedLate_emptyFrame :
    RejectedLate (sampleConfig sampleKeyPath) emptyFrameTrace .emptyInput :=
  .intro (keyDecision_key _ _) rfl rfl

def emptyFrameAttempt : Attempt Target.release64 where
  crate := copyingCrate
  config := sampleConfig sampleKeyPath
  trace := emptyFrameTrace
  rest := .done (.error (.error .emptyInput))
  steps := rejectedLate_emptyFrame.returns

theorem follows_emptyFrame :
    Follows (FileStep id) sampleFiles emptyFrameTrace (Function.update sampleFiles
      (SessionIdStore.new sampleKeyPath).path (some [0, 1])) := by
  refine ⟨_, fileStep_read ready_sampleFiles.key_eq, _, fileStep_notFound sampleFiles_session, ?_⟩
  exact (follows_append_iff _ _ _ _).mpr ⟨_, follows_persistTrace _ 1,
    follows_of_not_fileCalls (by simp [socketTrace, inputEvent, Syscall.IsFileCall])⟩

theorem run_rejected_iff_emptyFrame :
    (∀ error, (.error (.error .emptyInput) : Result Unit) = .error (.error error) →
        InputError error → some [0, 1] = (none : FileContents)) ↔
      ¬ ∃ error, RejectedLate (sampleConfig sampleKeyPath) emptyFrameTrace error := by
  have hfollows := follows_node follows_emptyFrame (SessionIdStore.new sampleKeyPath).path
  rw [Function.update_self, sampleFiles_session] at hfollows
  exact run_rejected_iff (rfl : emptyFrameAttempt.rest = _) hfollows

/-- An empty frame is reported as such, and has consumed the first session id. -/
theorem run_rejects_emptyFrame :
    emptyFrameAttempt.rest = .done (.error (.error .emptyInput)) ∧ InputError .emptyInput ∧
      ∃ after, Follows (FileStep id) sampleFiles emptyFrameAttempt.trace after ∧
        sampleFiles emptyFrameAttempt.store.path = none ∧
        after emptyFrameAttempt.store.path = some [0, 1] :=
  ⟨rfl, trivial, _, follows_emptyFrame, sampleFiles_session, Function.update_self _ _ _⟩

end Fiudp.Run
