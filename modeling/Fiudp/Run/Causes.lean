import Fiudp.Run.Delivery

/-!
# What a run ends for

A run goes on as long as its calls succeed and ends at the first one that does not, with
the error that belongs to that call.
-/

namespace Fiudp.Run

open ByteLayout Protocol Interaction Sender Session SessionIdStore Os

variable {target : Target}

/-! ## Calls -/

/-- What a run reads next: the key, then the session file, then the input. -/
inductive Reading
  | key
  | session
  | input
  deriving DecidableEq

/-- What is read next after a call. -/
def Reading.next : Reading → Event Syscall (SysReply target) → Reading
  | .key, ⟨.read _, _⟩ => .session
  | .session, ⟨.read _, _⟩ => .input
  | reading, _ => reading

def Reading.after (reading : Reading) (trace : SysTrace target) : Reading :=
  trace.foldl Reading.next reading

/-- The answer of a read with which a run goes on: a key of 32 bytes; no session file, or one
with a value that has a successor; a frame that passes the checks of `send` and its FEC engine. -/
def ReadSucceeded (crate : ReedSolomon) (config : Config) :
    Reading → Except ErrorKind (ByteVec target) → Prop
  | .key, reply => ∃ bytes, reply = .ok bytes ∧ bytes.val.length = 32
  | .session, reply => reply = .error .notFound ∨
      ∃ bytes, reply = .ok bytes ∧ bytes.val.length = 2 ∧ beValue bytes.val < 65535
  | .input, reply => ∃ frame slices, reply = .ok frame ∧
      Accepted config.parityRatio frame.val ∧ sessionSlices crate config frame.val = .ok slices

/-- The answers with which a run goes on. -/
def Succeeded (crate : ReedSolomon) (config : Config) (reading : Reading) :
    Event Syscall (SysReply target) → Prop
  | ⟨.read _, reply⟩ => ReadSucceeded crate config reading reply
  | ⟨.readStdin, reply⟩ => ReadSucceeded crate config .input reply
  | ⟨.openTruncate _, reply⟩ => reply = .ok ()
  | ⟨.writeByte _ _ _, reply⟩ => reply = .ok ()
  | ⟨.bindSocket, reply⟩ => reply = .ok ()
  | ⟨.connectSocket _, reply⟩ => reply = .ok ()
  | ⟨.encryptDetached _ _ _ _, reply⟩ => ∃ item, reply = .ok item
  | ⟨.sendDatagram packet, reply⟩ => reply = .ok packet.toList.length
  | _ => True

/-- All calls have succeeded. -/
def GoesOn (crate : ReedSolomon) (config : Config) : Reading → SysTrace target → Prop
  | _, [] => True
  | reading, event :: trace =>
      Succeeded crate config reading event ∧ GoesOn crate config (reading.next event) trace

section GoesOn

variable {crate : ReedSolomon} {config : Config} {reading : Reading}
  {first second trace : SysTrace target}

theorem Reading.after_append :
    reading.after (first ++ second) = (reading.after first).after second :=
  List.foldl_append

theorem Reading.next_input (event : Event Syscall (SysReply target)) :
    Reading.input.next event = .input := rfl

theorem Reading.after_input (trace : SysTrace target) : Reading.input.after trace = .input := by
  induction trace with
  | nil => rfl
  | cons event trace ih => exact ih

theorem goesOn_append_iff :
    GoesOn crate config reading (first ++ second) ↔
      GoesOn crate config reading first ∧ GoesOn crate config (reading.after first) second := by
  induction first generalizing reading with
  | nil => exact (and_iff_right trivial).symm
  | cons event first ih =>
      rw [List.cons_append, GoesOn, GoesOn, ih, and_assoc]
      rfl

/-- Once the session file has been read, the calls succeed one by one. -/
theorem goesOn_input_iff :
    GoesOn crate config .input trace ↔ ∀ event ∈ trace, Succeeded crate config .input event := by
  induction trace with
  | nil => simp [GoesOn]
  | cons event trace ih => rw [GoesOn, Reading.next_input, ih, List.forall_mem_cons]

theorem succeeded_inputEvent_iff {answer : Except ErrorKind (ByteVec target)} :
    Succeeded crate config .input (inputEvent config.input answer) ↔
      ReadSucceeded crate config .input answer := by
  cases config.input <;> rfl

end GoesOn

/-- The call and its answer a run ends with, and the error it returns for them. -/
inductive Causes (crate : ReedSolomon) (config : Config) :
    Reading → Event Syscall (SysReply target) → FiudpError → Prop
  | readKey (kind : ErrorKind) :
      Causes crate config .key ⟨.read config.keyPath, .error kind⟩
        (.io (.readKeyFile config.keyPath) kind)
  | keyLength (bytes : ByteVec target) : bytes.val.length ≠ 32 →
      Causes crate config .key ⟨.read config.keyPath, .ok bytes⟩
        (.invalidKeyLength bytes.val.length)
  | readSession (code : ℕ) :
      Causes crate config .session
        ⟨.read (SessionIdStore.new config.keyPath).path, .error (.other code)⟩
        (.io (.readSessionFile (SessionIdStore.new config.keyPath).path) (.other code))
  | malformed (bytes : ByteVec target) : bytes.val.length ≠ 2 →
      Causes crate config .session ⟨.read (SessionIdStore.new config.keyPath).path, .ok bytes⟩
        .invalidSessionFile
  | usedUp (bytes : ByteVec target) : bytes.val.length = 2 → beValue bytes.val = 65535 →
      Causes crate config .session ⟨.read (SessionIdStore.new config.keyPath).path, .ok bytes⟩
        .sessionIdOverflow
  | openTruncate (kind : ErrorKind) :
      Causes crate config .input
        ⟨.openTruncate (SessionIdStore.new config.keyPath).path, .error kind⟩
        (.io (.writeSessionFile (SessionIdStore.new config.keyPath).path) kind)
  | writeByte (offset : ℕ) (byte : UInt8) (kind : ErrorKind) :
      Causes crate config .input
        ⟨.writeByte (SessionIdStore.new config.keyPath).path offset byte, .error kind⟩
        (.io (.writeSessionFile (SessionIdStore.new config.keyPath).path) kind)
  | bind (kind : ErrorKind) :
      Causes crate config .input ⟨.bindSocket, .error kind⟩ (.io .bindSocket kind)
  | connect (kind : ErrorKind) :
      Causes crate config .input ⟨.connectSocket ⟨config.targetIp, config.targetPort⟩, .error kind⟩
        (.io (.connectSocket ⟨config.targetIp, config.targetPort⟩) kind)
  | input {answer : Except ErrorKind (ByteVec target)} {error : FiudpError} :
      inputVerdict config answer = some error →
        Causes crate config .input (inputEvent config.input answer) error
  | fec (frame : ByteVec target) {error : FiudpError} :
      Accepted config.parityRatio frame.val →
      sessionSlices crate config frame.val = .error error →
        Causes crate config .input (inputEvent config.input (.ok frame)) error
  | encrypt (key : Key) (nonce : Nonce) (aad : Aad) (buffer : Slice) (message : String) :
      Causes crate config .input ⟨.encryptDetached key nonce aad buffer, .error message⟩
        (.encryption message)
  | send (packet : Packet) (kind : ErrorKind) :
      Causes crate config .input ⟨.sendDatagram packet, .error kind⟩
        (.io (.sendPacket ⟨config.targetIp, config.targetPort⟩) kind)
  | shortSend (packet : Packet) (sent : ℕ) : sent ≠ packet.toList.length →
      Causes crate config .input ⟨.sendDatagram packet, .ok sent⟩
        (.shortSend sent packet.toList.length)

/-- A run ends with a call that has not succeeded. -/
theorem Causes.not_succeeded {crate : ReedSolomon} {config : Config} {reading : Reading}
    {event : Event Syscall (SysReply target)} {error : FiudpError}
    (hcauses : Causes crate config reading event error) :
    ¬ Succeeded crate config reading event := by
  intro hsucceeded
  cases hcauses with
  | readKey kind =>
      obtain ⟨bytes, ⟨⟩, -⟩ := hsucceeded
  | keyLength bytes hlength =>
      obtain ⟨other, ⟨⟩, hother⟩ := hsucceeded
      exact hlength hother
  | readSession code =>
      rcases hsucceeded with hmissing | ⟨bytes, hread, -⟩
      · cases hmissing
      · cases hread
  | malformed bytes hlength =>
      rcases hsucceeded with hmissing | ⟨other, hread, hother, -⟩
      · cases hmissing
      · cases hread
        exact hlength hother
  | usedUp bytes hlength hfull =>
      rcases hsucceeded with hmissing | ⟨other, hread, -, hroom⟩
      · cases hmissing
      · cases hread
        exact hroom.ne hfull
  | openTruncate | writeByte | bind | connect => cases hsucceeded
  | encrypt =>
      obtain ⟨item, ⟨⟩⟩ := hsucceeded
  | send => cases hsucceeded
  | shortSend packet sent hshort => exact hshort (Except.ok.inj hsucceeded)
  | @input answer _ hverdict =>
      obtain ⟨frame, slices, rfl, haccepted, -⟩ := succeeded_inputEvent_iff.mp hsucceeded
      rw [inputVerdict, if_neg haccepted.nonempty, if_neg haccepted.fits.not_gt] at hverdict
      cases hverdict
  | fec frame haccepted hslices =>
      obtain ⟨other, slices, ⟨⟩, -, hok⟩ := succeeded_inputEvent_iff.mp hsucceeded
      cases hslices.symm.trans hok

/-- The run has succeeded with all its calls, or ended at the first one that did not. -/
def Explained (crate : ReedSolomon) (config : Config) (reading : Reading)
    (trace : SysTrace target) (result : Result Unit) : Prop :=
  (result = .ok () ∧ GoesOn crate config reading trace) ∨
    ∃ before last error, trace = before ++ [last] ∧ result = .error (.error error) ∧
      Causes crate config (reading.after before) last error ∧
        GoesOn crate config reading before

section Explained

variable {crate : ReedSolomon} {config : Config} {reading : Reading}
  {first second : SysTrace target} {event : Event Syscall (SysReply target)}
  {result : Result Unit} {error : FiudpError}

theorem explained_of_causes (hcauses : Causes crate config reading event error) :
    Explained crate config reading [event] (.error (.error error)) :=
  .inr ⟨[], event, error, rfl, rfl, hcauses, trivial⟩

/-- What comes first has succeeded. -/
theorem Explained.after (hfirst : GoesOn crate config reading first)
    (hsecond : Explained crate config (reading.after first) second result) :
    Explained crate config reading (first ++ second) result := by
  rcases hsecond with ⟨hok, hall⟩ | ⟨before, last, error, rfl, hresult, hcauses, hbefore⟩
  · exact .inl ⟨hok, goesOn_append_iff.mpr ⟨hfirst, hall⟩⟩
  · refine .inr ⟨first ++ before, last, error, (List.append_assoc _ _ _).symm, hresult, ?_,
      goesOn_append_iff.mpr ⟨hfirst, hbefore⟩⟩
    rwa [Reading.after_append]

/-- The same while only the input can be read. -/
theorem Explained.later (hfirst : ∀ event ∈ first, Succeeded crate config .input event)
    (hsecond : Explained crate config .input second result) :
    Explained crate config .input (first ++ second) result :=
  Explained.after (goesOn_input_iff.mpr hfirst) (by rwa [Reading.after_input])

end Explained

/-! ## The transmission -/

section Send

variable {crate : ReedSolomon} {config : Config} {key : Key}

/-- The implementation of a component in a run. -/
abbrev runComponents (crate : ReedSolomon) (config : Config) (key : Key) (call : Call) :
    Program Syscall (SysReply target) (Reply target call) :=
  components crate config.input ⟨key⟩ ⟨⟨config.targetIp, config.targetPort⟩⟩ call

/-- A call after the read that succeeds. -/
def Passes (event : Event Call (Reply target)) : Prop :=
  event.call ≠ .readAll ∧ Succeeds event

/-- A component that succeeds has made calls that succeed. -/
theorem succeeded_of_passes {call : Call} {first : SysTrace target} {reply : Reply target call}
    (hreturns : Returns (runComponents crate config key call) first reply)
    (hpasses : Passes ⟨call, reply⟩) : ∀ event ∈ first, Succeeded crate config .input event := by
  obtain ⟨hlater, hsucceeds⟩ := hpasses
  cases call with
  | readAll => exact absurd rfl hlater
  | encode =>
      obtain ⟨rfl, -⟩ := (returns_done_iff _ _ _).mp hreturns
      simp
  | encryptInPlace nonce aad buffer =>
      obtain ⟨answer, hseal, hanswer⟩ := (Fallible.returns_mapErr_iff _ _ _ _).mp hreturns
      rw [(returns_perform_iff _ _ _).mp hseal]
      obtain ⟨item, hitem⟩ := hsucceeds
      cases answer with
      | error message => cases hanswer.symm.trans hitem
      | ok other => exact List.forall_mem_singleton.mpr ⟨other, rfl⟩
  | sendPacket packet =>
      rw [runComponents, components, UdpPacketSender.send_run] at hreturns
      obtain ⟨answer, tail, rfl, hdone⟩ := (returns_ask_iff _ _ _ _).mp hreturns
      obtain ⟨rfl, hanswer⟩ := (returns_done_iff _ _ _).mp hdone
      refine List.forall_mem_singleton.mpr ?_
      have hok := hanswer.symm.trans hsucceeds
      cases answer with
      | error kind => cases hok
      | ok sent =>
          by_cases hshort : sent ≠ packet.toList.length
          · rw [UdpPacketSender.sendResult, if_pos hshort] at hok
            cases hok
          · exact congrArg _ (not_not.mp hshort)
  | sleep | genRangeTo | genPercent | shuffle =>
      rw [(returns_perform_iff _ _ _).mp hreturns]
      exact List.forall_mem_singleton.mpr trivial

/-- An error of the encryptor or the transport is that of its only call. -/
theorem explained_of_error {call : Call} {first : SysTrace target} {reply : Reply target call}
    {error : FiudpError} (hreturns : Returns (runComponents crate config key call) first reply)
    (hfails : (∃ nonce aad buffer, (⟨call, reply⟩ : Event Call (Reply target)) =
        ⟨.encryptInPlace nonce aad buffer, .error error⟩) ∨
      ∃ packet, (⟨call, reply⟩ : Event Call (Reply target)) =
        ⟨.sendPacket packet, .error error⟩) :
    Explained crate config .input first (.error (.error error)) := by
  rcases hfails with ⟨nonce, aad, buffer, heq⟩ | ⟨packet, heq⟩
  · cases heq
    obtain ⟨answer, hseal, hanswer⟩ := (Fallible.returns_mapErr_iff _ _ _ _).mp hreturns
    rw [(returns_perform_iff _ _ _).mp hseal]
    cases answer with
    | ok item => cases hanswer
    | error message =>
        cases hanswer
        exact explained_of_causes (.encrypt _ _ _ _ _)
  · cases heq
    rw [runComponents, components, UdpPacketSender.send_run] at hreturns
    obtain ⟨answer, tail, rfl, hdone⟩ := (returns_ask_iff _ _ _ _).mp hreturns
    obtain ⟨rfl, hanswer⟩ := (returns_done_iff _ _ _).mp hdone
    cases answer with
    | error kind =>
        cases hanswer
        exact explained_of_causes (.send _ _)
    | ok sent =>
        rw [UdpPacketSender.sendResult] at hanswer
        split at hanswer
        · rename_i hshort
          cases hanswer
          exact explained_of_causes (.shortSend _ _ hshort)
        · cases hanswer

/-- Components that succeed one after the other, up to one that fails. -/
theorem explained_of_realizes {calls : Trace Call (Reply target)}
    {last : Event Call (Reply target)} {trace : SysTrace target} {error : FiudpError}
    (hrealizes : Realizes (runComponents crate config key) (calls ++ [last]) trace)
    (hpasses : ∀ event ∈ calls, Passes event)
    (hfails : (∃ nonce aad buffer, last = ⟨.encryptInPlace nonce aad buffer, .error error⟩) ∨
      ∃ packet, last = ⟨.sendPacket packet, .error error⟩) :
    Explained crate config .input trace (.error (.error error)) := by
  obtain ⟨low, high, rfl, hlow, hhigh⟩ := (realizes_append_iff _ _ _).mp hrealizes
  obtain ⟨call, reply⟩ := last
  rcases hhigh with _ | ⟨hlast, ⟨⟩⟩
  rw [List.append_nil]
  exact (explained_of_error hlast hfails).later
    (hlow.forall_events (fun _ _ _ => succeeded_of_passes) hpasses)

theorem passes_encryptEvents (builder : PacketBuilder) (sessionId : SessionId) (index : ℕ)
    (slices : List Slice) (encrypted : List Sealed) :
    ∀ event ∈ (encryptEvents builder sessionId index slices encrypted :
      Trace Call (Reply target)), Passes event := by
  induction slices generalizing index encrypted with
  | nil => simp [encryptEvents]
  | cons shard slices ih =>
      cases encrypted with
      | nil => simp [encryptEvents]
      | cons item encrypted =>
          rw [encryptEvents, List.forall_mem_cons]
          exact ⟨⟨by simp [encryptEvent], item, rfl⟩, ih _ _⟩

theorem passes_fec {ratio : ParityRatio} {frame : List UInt8} {fec : Trace Call (Reply target)}
    {slices : List Slice} (hfec : FecLeaves ratio frame fec slices) :
    ∀ event ∈ fec, Passes event := by
  cases hfec with
  | skipped => simp
  | encoded out => exact List.forall_mem_singleton.mpr ⟨by simp, trivial⟩

theorem passes_sendEvents (delay : Duration) (packetCount index : ℕ) (packets : List Packet) :
    ∀ event ∈ (sendEvents delay packetCount index packets : Trace Call (Reply target)),
      Passes event := by
  induction packets generalizing index with
  | nil => simp [sendEvents]
  | cons packet packets ih =>
      rw [sendEvents, List.cons_append, List.forall_mem_cons, List.forall_mem_append]
      refine ⟨⟨by simp, rfl⟩, ?_, ih _⟩
      by_cases hnext : index + 1 < packetCount
      · rw [if_pos hnext]
        exact List.forall_mem_singleton.mpr ⟨by simp, trivial⟩
      · rw [if_neg hnext]
        simp

theorem passes_of_isDraw {event : Event Call (Reply target)} (hdraw : event.call.IsDraw) :
    Passes event := by
  obtain ⟨call, reply⟩ := event
  cases call with
  | genRangeTo | genPercent | shuffle => exact ⟨by simp, trivial⟩
  | _ => exact hdraw.elim

/-- The first call of a transmission reads the frame. -/
theorem read_of_realizes {frame : ByteVec target} {calls : Trace Call (Reply target)}
    {trace : SysTrace target} (hrealizes : Realizes (runComponents crate config key)
      (⟨.readAll, .ok frame⟩ :: calls) trace) :
    ∃ rest, trace = inputEvent config.input (.ok frame) :: rest ∧
      Realizes (runComponents crate config key) calls rest := by
  rcases hrealizes with _ | ⟨hread, hrest⟩
  obtain ⟨answer, rfl, hanswer⟩ := (returns_inputReadAll_iff _ _ _).mp hread
  cases answer with
  | error kind => cases hanswer
  | ok bytes =>
      cases hanswer
      exact ⟨_, rfl, hrest⟩

/-- A transmission that goes on from the FEC stage. -/
theorem explained_after_read {frame : ByteVec target} {fec more : Trace Call (Reply target)}
    {slices : List Slice} {trace : SysTrace target} {result : Result Unit}
    (hrealizes : Realizes (runComponents crate config key)
      (⟨.readAll, .ok frame⟩ :: (fec ++ more)) trace)
    (haccepted : Accepted config.parityRatio frame.val)
    (hfec : FecLeaves config.parityRatio frame.val fec slices)
    (hmore : ∀ rest, Realizes (runComponents crate config key) (fec ++ more) rest →
      Explained crate config .input rest result) :
    Explained crate config .input trace result := by
  obtain ⟨rest, rfl, hrest⟩ := read_of_realizes hrealizes
  have hslices : sessionSlices crate config frame.val = .ok slices :=
    output_of_realizes hrest hfec (List.subset_append_left _ _)
  have hread : ∀ event ∈ [inputEvent config.input (.ok frame)],
      Succeeded crate config .input event :=
    List.forall_mem_singleton.mpr
      (succeeded_inputEvent_iff.mpr ⟨frame, slices, rfl, haccepted, hslices⟩)
  exact (hmore rest hrest).later hread

/-- Every ending of `send` is explained by the calls of its components. -/
theorem explained_of_exit {self : FiudpSender} {rendezvousSecs : RendezvousSecs}
    {sessionId : SessionId} {calls : Trace Call (Reply target)} {trace : SysTrace target}
    {result : Result Unit}
    (hrealizes : Realizes (runComponents crate config key) calls trace)
    (hexit : Exit self config.parityRatio rendezvousSecs sessionId calls result) :
    Explained crate config .input trace result := by
  cases hexit with
  | readFailed error =>
      rcases hrealizes with _ | ⟨hread, ⟨⟩⟩
      obtain ⟨answer, rfl, hanswer⟩ := (returns_inputReadAll_iff _ _ _).mp hread
      cases answer with
      | ok bytes => cases hanswer
      | error kind =>
          cases hanswer
          exact explained_of_causes (.input rfl)
  | emptyInput frame hempty =>
      obtain ⟨rest, rfl, ⟨⟩⟩ := read_of_realizes hrealizes
      exact explained_of_causes (.input (if_pos hempty))
  | tooManyShards frame hframe hshards =>
      obtain ⟨rest, rfl, ⟨⟩⟩ := read_of_realizes hrealizes
      exact explained_of_causes (.input ((if_neg hframe).trans (if_pos hshards)))
  | fecFailed frame error haccepted hparity =>
      obtain ⟨rest, rfl, hencode⟩ := read_of_realizes hrealizes
      rcases hencode with _ | ⟨hencode, ⟨⟩⟩
      obtain ⟨rfl, hreply⟩ := (returns_done_iff _ _ _).mp hencode
      refine explained_of_causes (.fec frame haccepted ?_)
      rw [sessionSlices, Engine.output, if_neg hparity.ne', engineOf, ← hreply]
      rfl
  | encryptFailed frame encrypted shard error hencrypting hshard =>
      rw [preparation, List.cons_append, List.append_assoc] at hrealizes
      refine explained_after_read hrealizes hencrypting.accepted hencrypting.fecLeaves ?_
      intro rest hrest
      rw [← List.append_assoc] at hrest
      refine explained_of_realizes hrest ?_ (.inl ⟨_, _, _, rfl⟩)
      exact List.forall_mem_append.mpr
        ⟨passes_fec hencrypting.fecLeaves, passes_encryptEvents _ _ _ _ _⟩
  | sendFailed frame sent packet error hprepared hchaos hpacket =>
      obtain ⟨survivors, final, -, -, -, hdraws, -⟩ :=
        returns_chaos _ _ (hprepared.length_packets_le _ _) hchaos
      rw [preparation, List.cons_append, List.append_assoc] at hrealizes
      refine explained_after_read hrealizes hprepared.accepted hprepared.fecLeaves ?_
      intro rest hrest
      simp only [← List.append_assoc] at hrest
      refine explained_of_realizes hrest ?_ (.inr ⟨_, rfl⟩)
      simp only [List.forall_mem_append]
      exact ⟨⟨⟨passes_fec hprepared.fecLeaves, passes_encryptEvents _ _ _ _ _⟩,
        fun event hmem => passes_of_isDraw (hdraws event hmem)⟩, passes_sendEvents _ _ _ _⟩
  | completed frame hprepared hchaos =>
      obtain ⟨survivors, final, -, -, -, hdraws, -⟩ :=
        returns_chaos _ _ (hprepared.length_packets_le _ _) hchaos
      rw [preparation, List.cons_append, List.append_assoc] at hrealizes
      refine explained_after_read hrealizes hprepared.accepted hprepared.fecLeaves ?_
      intro rest hrest
      refine .inl ⟨rfl, goesOn_input_iff.mpr
        (hrest.forall_events (fun _ _ _ => succeeded_of_passes) ?_)⟩
      simp only [List.forall_mem_append]
      exact ⟨passes_fec hprepared.fecLeaves, passes_encryptEvents _ _ _ _ _,
        fun event hmem => passes_of_isDraw (hdraws event hmem), passes_sendEvents _ _ _ _⟩

end Send

/-! ## The run -/

/-- The AEAD works in place: it leaves the buffer as long as it was. -/
def InPlace : Event Syscall (SysReply target) → Prop
  | ⟨.encryptDetached _ _ _ buffer, reply⟩ =>
      ∀ item, reply = .ok item → item.buffer.length = buffer.length
  | _ => True

section Run

variable {crate : ReedSolomon} {config : Config}

theorem keepsLengths_of_inPlace (hcrate : crate.Documented) {key : Key} {call : Call}
    {first : SysTrace target} {reply : Reply target call}
    (hreturns : Returns (runComponents crate config key call) first reply)
    (hinPlace : ∀ event ∈ first, InPlace event) : KeepsLengths ⟨call, reply⟩ := by
  cases call with
  | encode dataShards parityShards shards =>
      obtain ⟨-, hencode⟩ := (returns_done_iff _ _ _).mp hreturns
      rintro out rfl
      exact ReedSolomonEngine.encode_keeps_lengths hcrate hencode.symm
  | encryptInPlace nonce aad buffer =>
      obtain ⟨answer, hseal, hanswer⟩ := (Fallible.returns_mapErr_iff _ _ _ _).mp hreturns
      rw [(returns_perform_iff _ _ _).mp hseal] at hinPlace
      rintro item rfl
      cases answer with
      | error message => cases hanswer
      | ok other =>
          cases hanswer
          exact hinPlace _ List.mem_cons_self item rfl
  | readAll | sendPacket | sleep | genRangeTo | genPercent | shuffle => trivial

theorem explained_transmitFrame (hcrate : crate.Documented) {key : Key} {sessionId : SessionId}
    {trace : SysTrace target} {result : Result Unit}
    (hinPlace : ∀ event ∈ trace, InPlace event)
    (hreturns : Returns (transmitFrame crate config key sessionId).run trace result) :
    Explained crate config .input trace result := by
  rcases (returns_try_iff _ _ _ _).mp hreturns with ⟨failure, rfl, hnew⟩ |
    ⟨first, second, sender, rfl, hnew, hsend⟩
  · rcases returns_new hnew with ⟨kind, rfl, hresult⟩ | ⟨kind, rfl, hresult⟩ | ⟨-, hresult⟩
    · cases hresult
      exact explained_of_causes (.bind kind)
    · cases hresult
      have hbound : Succeeded crate config .input
          (⟨.bindSocket, .ok ()⟩ : Event Syscall (SysReply target)) := rfl
      exact (explained_of_causes (.connect kind)).later (List.forall_mem_singleton.mpr hbound)
    · cases hresult
  · rcases returns_new hnew with ⟨kind, -, hresult⟩ | ⟨kind, -, hresult⟩ | ⟨rfl, hresult⟩
    · cases hresult
    · cases hresult
    · cases hresult
      obtain ⟨calls, hrealizes, hcalls⟩ := (returns_plug_iff _ _ _).mp hsend
      have hkeeps := hrealizes.forall_calls
        (fun _ _ _ => keepsLengths_of_inPlace hcrate) (List.forall_mem_append.mp hinPlace).2
      exact (explained_of_exit hrealizes (send_exit hkeeps hcalls)).later
        (by simp [socketTrace, Succeeded])

/-- The read of the session file succeeds, or the call of `next` ends with it. -/
theorem explained_decision (crate : ReedSolomon) (config : Config)
    (reply : Except ErrorKind (ByteVec target)) :
    (∃ raw, (SessionIdStore.new config.keyPath).decision reply = .ok raw ∧
        ReadSucceeded crate config .session reply) ∨
      ∃ error, (SessionIdStore.new config.keyPath).decision reply = .error (.error error) ∧
        Causes crate config .session ⟨.read (SessionIdStore.new config.keyPath).path, reply⟩
          error := by
  cases reply with
  | error kind =>
      cases kind with
      | notFound => exact .inl ⟨1, rfl, .inl rfl⟩
      | other code => exact .inr ⟨_, rfl, .readSession code⟩
  | ok bytes =>
      by_cases hlength : bytes.val.length = 2
      · rcases decision_of_read (SessionIdStore.new config.keyPath) hlength with
          ⟨hfull, hoverflow⟩ | ⟨raw, hok, hraw⟩
        · exact .inr ⟨_, hoverflow, .usedUp bytes hlength hfull⟩
        · have hlt := raw.toNat_lt
          exact .inl ⟨raw, hok, .inr ⟨bytes, rfl, hlength, by omega⟩⟩
      · exact .inr ⟨_, decision_of_current_error (current_malformed hlength),
          .malformed bytes hlength⟩

/-- The file steps of `next` after its read. -/
theorem explained_progress {raw : UInt16} {trace : SysTrace target} {rest : Remaining target}
    {left : Option (List UInt8)}
    (hprogress : Progress (SessionIdStore.new config.keyPath) raw trace rest left)
    {result : Result SessionId} (hrest : rest = .done result) :
    (∃ id, result = .ok id ∧ ∀ event ∈ trace, Succeeded crate config .input event) ∨
      ∃ failure, result = .error failure ∧
        Explained crate config .input trace (.error failure) := by
  cases hprogress with
  | untouched | truncated | highWritten => cases hrest
  | openFailed kind =>
      cases hrest
      exact .inr ⟨_, rfl, explained_of_causes (.openTruncate kind)⟩
  | highFailed kind =>
      cases hrest
      have hfirst : ∀ event ∈ [(⟨.openTruncate (SessionIdStore.new config.keyPath).path,
          .ok ()⟩ : Event Syscall (SysReply target))], Succeeded crate config .input event := by
        simp [Succeeded]
      exact .inr ⟨_, rfl, (explained_of_causes (.writeByte _ _ kind)).later hfirst⟩
  | lowFailed kind =>
      cases hrest
      have hfirst : ∀ event ∈ [(⟨.openTruncate (SessionIdStore.new config.keyPath).path,
          .ok ()⟩ : Event Syscall (SysReply target)),
          ⟨.writeByte (SessionIdStore.new config.keyPath).path 0 (highByte raw), .ok ()⟩],
          Succeeded crate config .input event := by
        simp [Succeeded]
      exact .inr ⟨_, rfl, (explained_of_causes (.writeByte _ _ kind)).later hfirst⟩
  | persisted =>
      cases hrest
      exact .inl ⟨_, rfl, by simp [Succeeded]⟩

theorem explained_next (crate : ReedSolomon) (config : Config) {trace : SysTrace target}
    {result : Result SessionId}
    (hreturns : Returns (SessionIdStore.new config.keyPath).next.run trace result) :
    (∃ id, result = .ok id ∧ GoesOn crate config .session trace ∧
        Reading.session.after trace = .input) ∨
      ∃ failure, result = .error failure ∧
        Explained crate config .session trace (.error failure) := by
  rcases steps_next hreturns with ⟨-, hstart⟩ | ⟨reply, tail, rfl, hcases⟩
  · rw [next_run] at hstart
    cases hstart
  have hread := explained_decision crate config reply
  rcases hcases with ⟨failure, hfailure, rfl, hdone⟩ | ⟨raw, left, hdecision, hprogress⟩
  · cases hdone
    rcases hread with ⟨raw, hok, -⟩ | ⟨error, herror, hcauses⟩
    · cases hok.symm.trans hfailure
    · cases herror.symm.trans hfailure
      exact .inr ⟨_, rfl, explained_of_causes hcauses⟩
  · rcases hread with ⟨next, hok, hsucceeded⟩ | ⟨error, herror, -⟩
    · have hfirst : GoesOn crate config .session
          [⟨.read (SessionIdStore.new config.keyPath).path, reply⟩] := ⟨hsucceeded, trivial⟩
      rcases explained_progress hprogress rfl with ⟨id, rfl, hall⟩ | ⟨failure, rfl, hexplained⟩
      · exact .inl ⟨id, rfl, ⟨hsucceeded, goesOn_input_iff.mpr hall⟩, Reading.after_input tail⟩
      · exact .inr ⟨failure, rfl, hexplained.after hfirst⟩
    · cases herror.symm.trans hdecision

/-- The read of the key succeeds, or the run ends with it. -/
theorem explained_keyDecision (crate : ReedSolomon) (config : Config)
    (reply : Except ErrorKind (ByteVec target)) :
    (∃ key, keyDecision config.keyPath reply = .ok key ∧
        ReadSucceeded crate config .key reply) ∨
      ∃ error, keyDecision config.keyPath reply = .error (.error error) ∧
        Causes crate config .key ⟨.read config.keyPath, reply⟩ error := by
  cases reply with
  | error kind => exact .inr ⟨_, rfl, .readKey kind⟩
  | ok bytes =>
      by_cases hlength : bytes.val.length = 32
      · exact .inl ⟨_, dif_pos hlength, bytes, rfl, hlength⟩
      · exact .inr ⟨_, dif_neg hlength, .keyLength bytes hlength⟩

/-- A run ends when a call does not succeed, with the error of that call, and with success
when all calls have succeeded.  It never panics, and no error is about anything but its last
call. -/
theorem run_explained (hcrate : crate.Documented) {trace : SysTrace target}
    {result : Result Unit} (hinPlace : ∀ event ∈ trace, InPlace event)
    (hreturns : Returns (run crate config).run trace result) :
    Explained crate config .key trace result := by
  obtain ⟨reply, tail, rfl, hcases⟩ := returns_run hreturns
  have hread := explained_keyDecision crate config reply
  rcases hcases with ⟨failure, hfailure, rfl, rfl⟩ | ⟨key, hkey, hcases⟩
  · rcases hread with ⟨key, hok, -⟩ | ⟨error, herror, hcauses⟩
    · cases hok.symm.trans hfailure
    · cases herror.symm.trans hfailure
      exact explained_of_causes hcauses
  rcases hread with ⟨other, -, hsucceeded⟩ | ⟨error, herror, -⟩
  · have hfirst : GoesOn crate config .key [⟨.read config.keyPath, reply⟩] :=
      ⟨hsucceeded, trivial⟩
    refine Explained.after hfirst (?_ : Explained crate config .session tail result)
    rcases hcases with ⟨failure, rfl, hnext⟩ | ⟨first, second, id, rfl, hnext, hsend⟩
    · rcases explained_next crate config hnext with ⟨id, hok, -⟩ |
        ⟨other, hother, hexplained⟩
      · cases hok
      · cases hother
        exact hexplained
    · rcases explained_next crate config hnext with ⟨id, -, hall, hinput⟩ | ⟨other, hother, -⟩
      · refine Explained.after hall ?_
        rw [hinput]
        exact explained_transmitFrame hcrate (fun event hmem =>
          hinPlace event (List.mem_cons_of_mem _ (List.mem_append_right _ hmem))) hsend
      · cases hother
  · cases herror.symm.trans hkey

/-- An AEAD that leaves the slices as they are works in place. -/
theorem inPlace_of_plain {trace : SysTrace target}
    (hplain : ∀ item ∈ encryptions trace, PlainReply item.2) : ∀ event ∈ trace, InPlace event := by
  intro event hmem
  obtain ⟨call, reply⟩ := event
  cases call with
  | encryptDetached key nonce aad buffer =>
      rintro item rfl
      have hreply := hplain (key, ⟨nonce, aad, buffer, .ok item⟩)
        (List.mem_flatMap.mpr ⟨_, hmem, List.mem_singleton.mpr rfl⟩)
      exact congrArg (fun sealed : Sealed => sealed.buffer.length) (Except.ok.inj hreply)
  | _ => trivial

end Run

end Fiudp.Run
