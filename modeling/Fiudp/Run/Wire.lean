import Fiudp.Run.Rejection
import Fiudp.Sender.Launch

/-!
# What a run puts on the wire

The encryptions and the datagrams of a run that may be killed anywhere: which session id
they carry, which frame they belong to, and what the session file holds by then.
-/

namespace Fiudp.Run

open ByteLayout Protocol Interaction Sender Session SessionIdStore Os

variable {target : Target}

/-! ## Observing a run -/

def eventDatagrams : Event Syscall (SysReply target) → List Packet
  | ⟨.sendDatagram packet, _⟩ => [packet]
  | _ => []

/-- The datagrams passed to the socket, in order. -/
def datagrams (trace : SysTrace target) : List Packet := trace.flatMap eventDatagrams

def eventEncryptions : Event Syscall (SysReply target) → List (Key × Encryption)
  | ⟨.encryptDetached key nonce aad buffer, reply⟩ =>
      [(key, ⟨nonce, aad, buffer, reply.mapError .encryption⟩)]
  | _ => []

/-- The calls of the AEAD with their answers, in order. -/
def encryptions (trace : SysTrace target) : List (Key × Encryption) :=
  trace.flatMap eventEncryptions

/-- The frame, when the first call is a successful read. -/
def firstRead : SysTrace target → Option (List UInt8)
  | ⟨.read _, .ok bytes⟩ :: _ => some bytes.val
  | ⟨.readStdin, .ok bytes⟩ :: _ => some bytes.val
  | _ => none

/-- The frame of a run: it is read right after the socket has been connected. -/
def inputFrame : SysTrace target → Option (List UInt8)
  | [] => none
  | ⟨.connectSocket _, .ok ()⟩ :: rest => firstRead rest
  | _ :: rest => inputFrame rest

theorem datagrams_append (first second : SysTrace target) :
    datagrams (first ++ second) = datagrams first ++ datagrams second :=
  List.flatMap_append

theorem encryptions_append (first second : SysTrace target) :
    encryptions (first ++ second) = encryptions first ++ encryptions second :=
  List.flatMap_append

/-- The calls on files neither encrypt nor send, and they do not connect the socket. -/
theorem observe_of_fileCalls {trace : SysTrace target}
    (htrace : ∀ event ∈ trace, event.call.IsFileCall) (rest : SysTrace target) :
    encryptions trace = [] ∧ datagrams trace = [] ∧
      inputFrame (trace ++ rest) = inputFrame rest := by
  induction trace with
  | nil => exact ⟨rfl, rfl, rfl⟩
  | cons event trace ih =>
      simp only [List.forall_mem_cons] at htrace
      obtain ⟨hencryptions, hdatagrams, hframe⟩ := ih htrace.2
      obtain ⟨call, reply⟩ := event
      cases call with
      | read | openTruncate | writeByte => exact ⟨hencryptions, hdatagrams, hframe⟩
      | _ => exact htrace.1.elim

theorem isFileCall_of_fileCall {path : PathBuf} {call : Syscall} (hcall : FileCall path call) :
    call.IsFileCall := by
  cases call with
  | read | openTruncate | writeByte => trivial
  | _ => exact hcall.elim

theorem record_encryptions_eq (trace : Trace Call (Reply target)) :
    (record trace).encryptions = trace.flatMap fun event => (recordEvent event).encryptions := by
  induction trace with
  | nil => rfl
  | cons event trace ih => rw [record_cons, Sender.encryptions_append, ih, List.flatMap_cons]

theorem record_transmissions_eq (trace : Trace Call (Reply target)) :
    (record trace).transmissions =
      trace.flatMap fun event => (recordEvent event).transmissions := by
  induction trace with
  | nil => rfl
  | cons event trace ih => rw [record_cons, Sender.transmissions_append, ih, List.flatMap_cons]

section Components

variable {crate : ReedSolomon} {reader : InputSource} {encryptor : ChaChaEncryptor}
  {sender : UdpPacketSender}

/-- Only the encryptor reaches the AEAD, and only the sender reaches the socket. -/
theorem observe_components (call : Call) (first : SysTrace target) (reply : Reply target call)
    (hreturns : Returns (components crate reader encryptor sender call) first reply) :
    first.flatMap eventEncryptions =
        (recordEvent ⟨call, reply⟩).encryptions.map (fun item => (encryptor.key, item)) ∧
      first.flatMap eventDatagrams =
        (recordEvent ⟨call, reply⟩).transmissions.map Transmission.packet := by
  cases call with
  | readAll =>
      cases reader with
      | file path =>
          obtain ⟨answer, hread, -⟩ := (Fallible.returns_mapErr_iff _ _ _ _).mp hreturns
          rw [(returns_fsRead_iff _ _ _).mp hread]
          exact ⟨rfl, rfl⟩
      | stdin =>
          obtain ⟨answer, hread, -⟩ := (Fallible.returns_mapErr_iff _ _ _ _).mp hreturns
          rw [(returns_perform_iff _ _ _).mp hread]
          exact ⟨rfl, rfl⟩
  | encode =>
      obtain ⟨rfl, -⟩ := (returns_done_iff _ _ _).mp hreturns
      exact ⟨rfl, rfl⟩
  | encryptInPlace =>
      obtain ⟨answer, hseal, hanswer⟩ := (Fallible.returns_mapErr_iff _ _ _ _).mp hreturns
      rw [(returns_perform_iff _ _ _).mp hseal]
      subst hanswer
      exact ⟨rfl, rfl⟩
  | sendPacket packet =>
      rw [components, UdpPacketSender.send_run] at hreturns
      obtain ⟨answer, tail, rfl, hdone⟩ := (returns_ask_iff _ _ _ _).mp hreturns
      obtain ⟨rfl, -⟩ := (returns_done_iff _ _ _).mp hdone
      exact ⟨rfl, rfl⟩
  | sleep | genRangeTo | genPercent | shuffle =>
      rw [(returns_perform_iff _ _ _).mp hreturns]
      exact ⟨rfl, rfl⟩

/-- What the components observe is what the system observes. -/
theorem observe_realizes {calls : Trace Call (Reply target)} {trace : SysTrace target}
    (hrealizes : Realizes (components crate reader encryptor sender) calls trace) :
    encryptions trace = (record calls).encryptions.map (fun item => (encryptor.key, item)) ∧
      datagrams trace = (record calls).transmissions.map Transmission.packet := by
  constructor
  · rw [record_encryptions_eq, List.map_flatMap]
    exact hrealizes.flatMap_eq _ _ fun call first reply hreturns =>
      (observe_components call first reply hreturns).1
  · rw [record_transmissions_eq, List.map_flatMap]
    exact hrealizes.flatMap_eq _ _ fun call first reply hreturns =>
      (observe_components call first reply hreturns).2

end Components

section FirstRead

variable {crate : ReedSolomon} {reader : InputSource} {encryptor : ChaChaEncryptor}
  {sender : UdpPacketSender}

theorem firstRead_append {first : SysTrace target} (hfirst : first ≠ [])
    (second : SysTrace target) : firstRead (first ++ second) = firstRead first := by
  cases first with
  | nil => exact absurd rfl hfirst
  | cons event first =>
      obtain ⟨call, reply⟩ := event
      cases call with
      | read | readStdin => cases reply <;> rfl
      | _ => rfl

/-- The frame `send` has read is the one the system has delivered first. -/
theorem firstRead_of_realizes {calls : Trace Call (Reply target)} {trace : SysTrace target}
    {frame : List UInt8}
    (hrealizes : Realizes (components crate reader encryptor sender) calls trace)
    (hread : frameRead calls = some frame) : firstRead trace = some frame := by
  cases hrealizes with
  | nil => cases hread
  | cons hfirst hrest =>
      rename_i call reply calls first rest
      cases call with
      | readAll =>
          obtain ⟨answer, rfl, rfl⟩ := (returns_inputReadAll_iff _ _ _).mp hfirst
          cases answer with
          | error kind => cases hread
          | ok bytes => cases reader <;> exact hread
      | _ => cases hread

end FirstRead

/-! ## The session a run broadcasts -/

/-- The engine of a run, as a function. -/
def engineOf (crate : ReedSolomon) : Engine := fun dataShards parityShards shards =>
  (ReedSolomonEngine.encode crate dataShards parityShards shards).map Subtype.val

/-- The slices a run sends of a frame. -/
def sessionSlices (crate : ReedSolomon) (config : Config) (frame : List UInt8) :
    Except FiudpError (List Slice) :=
  (engineOf crate).output config.parityRatio frame

/-- The slices are those of the frame, or what the engine has made of them. -/
theorem output_engineOf {crate : ReedSolomon} {ratio : ParityRatio} {frame : List UInt8}
    {slices : List Slice} (houtput : (engineOf crate).output ratio frame = .ok slices) :
    (parityCount ratio frame = 0 ∧ slices = sessionShards ratio frame) ∨
      0 < parityCount ratio frame ∧ ∃ out, slices = out.val ∧
        ReedSolomonEngine.encode crate (dataCount frame) (parityCount ratio frame)
          (sessionShards ratio frame) = .ok out := by
  rw [Engine.output] at houtput
  by_cases hparity : parityCount ratio frame = 0
  · rw [if_pos hparity] at houtput
    exact .inl ⟨hparity, (Except.ok.inj houtput).symm⟩
  · rw [if_neg hparity, engineOf] at houtput
    refine .inr ⟨Nat.pos_of_ne_zero hparity, ?_⟩
    cases hencode : ReedSolomonEngine.encode crate (dataCount frame) (parityCount ratio frame)
        (sessionShards ratio frame) with
    | error error =>
        rw [hencode] at houtput
        cases houtput
    | ok out =>
        rw [hencode] at houtput
        exact ⟨out, (Except.ok.inj houtput).symm, rfl⟩

theorem length_of_output {crate : ReedSolomon} {ratio : ParityRatio} {frame : List UInt8}
    {slices : List Slice} (houtput : (engineOf crate).output ratio frame = .ok slices) :
    slices.length = dataCount frame + parityCount ratio frame := by
  rcases output_engineOf houtput with ⟨-, rfl⟩ | ⟨-, out, rfl, -⟩
  · exact length_sessionShards ratio frame
  · rw [out.property, length_sessionShards]

theorem output_of_realizes {crate : ReedSolomon} {reader : InputSource}
    {encryptor : ChaChaEncryptor} {sender : UdpPacketSender} {ratio : ParityRatio}
    {calls fec : Trace Call (Reply target)} {trace : SysTrace target} {frame : List UInt8}
    {slices : List Slice}
    (hrealizes : Realizes (components crate reader encryptor sender) calls trace)
    (hfec : FecLeaves ratio frame fec slices) (hsubset : fec ⊆ calls) :
    (engineOf crate).output ratio frame = .ok slices := by
  cases hfec with
  | skipped hparity => exact if_pos hparity
  | encoded out hparity =>
      have hanswers : ∀ event ∈ calls, ∀ dataShards parityShards shards reply,
          event = ⟨.encode dataShards parityShards shards, reply⟩ →
            reply = ReedSolomonEngine.encode crate dataShards parityShards shards := by
        refine hrealizes.forall_calls (fun call first reply hreturns _ => ?_)
          (fun _ _ => (trivial : (fun _ => True) _))
        rintro dataShards parityShards shards answer ⟨⟩
        exact ((returns_done_iff _ _ _).mp hreturns).2
      have hencode := hanswers _ (hsubset List.mem_cons_self) _ _ _ _ rfl
      rw [Engine.output, if_neg hparity.ne', engineOf, ← hencode]
      rfl

namespace Attempt

/-- The pipeline of a run. -/
def pipeline (attempt : Attempt target) : FiudpSender :=
  ⟨attempt.config.delay, attempt.config.chaosDrop, attempt.config.chaosBurst,
    attempt.config.chaosShuffle⟩

/-- The calls of a run from the read of its input on, as far as it has got, and a way to
finish them. -/
structure Broadcast (attempt : Attempt target) where
  front : SysTrace target
  low : SysTrace target
  extra : SysTrace target
  key : Key
  id : SessionId
  calls : Trace Call (Reply target)
  result : Result Unit
  trace_eq : attempt.trace = front ++ low
  sessionId_eq : attempt.sessionId = some id
  quiet : encryptions front = [] ∧ datagrams front = []
  frame_eq : inputFrame attempt.trace = firstRead low
  realizes : Realizes (components attempt.crate attempt.config.input ⟨key⟩
    ⟨⟨attempt.config.targetIp, attempt.config.targetPort⟩⟩) calls (low ++ extra)
  returns : Returns (attempt.pipeline.send attempt.config.parityRatio
    ⟨attempt.config.rendezvousSecs⟩ id).run calls result
  completes : ∀ value, attempt.rest = .done value → extra = [] ∧ result = value

variable {attempt : Attempt target}

/-- A run whose socket has been connected. -/
theorem broadcast_of_steps {reply : Except ErrorKind (ByteVec target)}
    {first low : SysTrace target} {key : Key} {id : SessionId}
    (htrace : attempt.trace = ⟨.read attempt.config.keyPath, reply⟩ :: (first ++
      (socketTrace attempt.config.targetIp attempt.config.targetPort ++ low)))
    (hfirst : Returns attempt.store.next.run first (.ok id))
    (hlow : Steps (sendWith attempt.crate attempt.config key id
      ⟨⟨attempt.config.targetIp, attempt.config.targetPort⟩⟩).run low attempt.rest) :
    Nonempty (Broadcast attempt) := by
  obtain ⟨extra, result, hreturns, hcompletes⟩ : ∃ extra result,
      Returns (sendWith attempt.crate attempt.config key id
        ⟨⟨attempt.config.targetIp, attempt.config.targetPort⟩⟩).run (low ++ extra) result ∧
      ∀ value, attempt.rest = .done value → extra = [] ∧ result = value := by
    cases hrest : attempt.rest with
    | done value =>
        rw [hrest] at hlow
        refine ⟨[], value, by rwa [List.append_nil], fun other hother => ?_⟩
        cases hother
        exact ⟨rfl, rfl⟩
    | ask call next =>
        obtain ⟨extra, result, hreturns⟩ := hlow.exists_returns
        exact ⟨extra, result, hreturns, fun _ hdone => by cases hdone⟩
  obtain ⟨calls, hrealizes, hcalls⟩ := (returns_plug_iff _ _ _).mp hreturns
  have hfiles : ∀ event ∈ (⟨.read attempt.config.keyPath, reply⟩ :: first : SysTrace target),
      event.call.IsFileCall :=
    List.forall_mem_cons.mpr ⟨trivial, fun event hmem => isFileCall_of_fileCall
      ((hfirst.calls_allowed (next_callsOnly _)).1 event hmem)⟩
  have hsplit : attempt.trace = (⟨.read attempt.config.keyPath, reply⟩ :: first) ++
      (socketTrace attempt.config.targetIp attempt.config.targetPort ++ low) := htrace
  obtain ⟨hencryptions, hdatagrams, hframe⟩ := observe_of_fileCalls hfiles
    (socketTrace attempt.config.targetIp attempt.config.targetPort ++ low)
  refine ⟨{
    front := (⟨.read attempt.config.keyPath, reply⟩ :: first) ++
      socketTrace attempt.config.targetIp attempt.config.targetPort
    low := low
    extra := extra
    key := key
    id := id
    calls := calls
    result := result
    trace_eq := by rw [hsplit, List.append_assoc]
    sessionId_eq := ?_
    quiet := ?_
    frame_eq := by rw [hsplit, hframe]; rfl
    realizes := hrealizes
    returns := hcalls
    completes := hcompletes }⟩
  · rw [sessionId_eq_some_iff, nextResult, htrace, List.tail_cons,
      Steps.resume_append hfirst, Program.resume_done]
    rfl
  · rw [encryptions_append, datagrams_append, hencryptions, hdatagrams]
    exact ⟨rfl, rfl⟩

/-- A run that has encrypted or sent anything has connected its socket. -/
theorem broadcast (attempt : Attempt target) :
    (encryptions attempt.trace = [] ∧ datagrams attempt.trace = []) ∨
      Nonempty (Broadcast attempt) := by
  rcases steps_run attempt.steps with ⟨htrace, -⟩ | ⟨reply, tail, htrace, hcases⟩
  · rw [htrace]
    exact .inl ⟨rfl, rfl⟩
  rcases hcases with ⟨failure, -, rfl, -⟩ | ⟨key, -, hkey⟩
  · rw [htrace]
    exact .inl ⟨rfl, rfl⟩
  rcases hkey with ⟨middle, hmiddle, -⟩ | ⟨first, second, id, rfl, hfirst, hsecond⟩
  · have htail : ∀ event ∈ tail, event.call.IsFileCall := fun event hmem =>
      isFileCall_of_fileCall ((hmiddle.calls_allowed (next_callsOnly _)).1 event hmem)
    obtain ⟨hencryptions, hdatagrams, -⟩ := observe_of_fileCalls htail []
    rw [htrace]
    exact .inl ⟨hencryptions, hdatagrams⟩
  have hfiles : ∀ event ∈ first, event.call.IsFileCall := fun event hmem =>
    isFileCall_of_fileCall ((hfirst.calls_allowed (next_callsOnly _)).1 event hmem)
  obtain ⟨hencryptions, hdatagrams, -⟩ := observe_of_fileCalls hfiles []
  rcases (steps_try_iff _ _ _ _).mp hsecond with ⟨opening, hopening, -⟩ |
    ⟨sockets, low, sender, rfl, hnew, hlow⟩
  · obtain ⟨extra, result, hreturns⟩ := hopening.exists_returns
    have hquiet : encryptions (second ++ extra) = [] ∧ datagrams (second ++ extra) = [] := by
      rcases returns_new hreturns with ⟨kind, heq, -⟩ | ⟨kind, heq, -⟩ | ⟨heq, -⟩ <;>
        rw [heq] <;> exact ⟨rfl, rfl⟩
    rw [encryptions_append, datagrams_append, List.append_eq_nil_iff,
      List.append_eq_nil_iff] at hquiet
    refine .inl ⟨?_, ?_⟩
    · rw [htrace]
      change encryptions (first ++ second) = []
      rw [encryptions_append, hencryptions, hquiet.1.1, List.append_nil]
    · rw [htrace]
      change datagrams (first ++ second) = []
      rw [datagrams_append, hdatagrams, hquiet.2.1, List.append_nil]
  · rcases returns_new hnew with ⟨kind, -, hresult⟩ | ⟨kind, -, hresult⟩ | ⟨rfl, hresult⟩
    · cases hresult
    · cases hresult
    · cases hresult
      exact .inr (broadcast_of_steps htrace hfirst hlow)

/-! ## The session of a broadcast -/

/-- The run sends the slices of `frame` under its session id. -/
structure Sends (attempt : Attempt target) (id : SessionId) (frame : List UInt8)
    (slices : List Slice) : Prop where
  sessionId_eq : attempt.sessionId = some id
  frame_eq : inputFrame attempt.trace = some frame
  accepted : Accepted attempt.config.parityRatio frame
  slices_eq : sessionSlices attempt.crate attempt.config frame = .ok slices

/-- The packet builder of a run that sends `frame`. -/
def builder (attempt : Attempt target) (id : SessionId) (frame : List UInt8) : PacketBuilder :=
  frameBuilder attempt.config.parityRatio ⟨attempt.config.rendezvousSecs⟩ id frame

theorem Broadcast.encryptions_eq (broadcast : Broadcast attempt) :
    encryptions attempt.trace = encryptions broadcast.low := by
  rw [broadcast.trace_eq, encryptions_append, broadcast.quiet.1, List.nil_append]

theorem Broadcast.datagrams_eq (broadcast : Broadcast attempt) :
    datagrams attempt.trace = datagrams broadcast.low := by
  rw [broadcast.trace_eq, datagrams_append, broadcast.quiet.2, List.nil_append]

/-- The first call of a broadcast reads the frame. -/
theorem Broadcast.inputFrame_eq (broadcast : Broadcast attempt) {frame : List UInt8}
    (hread : frameRead broadcast.calls = some frame) (hlow : broadcast.low ≠ []) :
    inputFrame attempt.trace = some frame := by
  rw [broadcast.frame_eq, ← firstRead_append hlow broadcast.extra]
  exact firstRead_of_realizes broadcast.realizes hread

/-- What a run encrypts are the slices of its frame, each at its position and under its
session id. -/
theorem exists_of_mem_encryptions {key : Key} {encryption : Encryption}
    (hmem : (key, encryption) ∈ encryptions attempt.trace) :
    ∃ id frame slices index shard, Sends attempt id frame slices ∧
      slices[index]? = some shard ∧
      encryption = encryptionOf (attempt.builder id frame) id index shard encryption.reply := by
  rcases attempt.broadcast with ⟨hnone, -⟩ | ⟨⟨broadcast⟩⟩
  · rw [hnone] at hmem
    cases hmem
  rw [broadcast.encryptions_eq] at hmem
  have hlow : broadcast.low ≠ [] := by
    intro hnil
    rw [hnil] at hmem
    cases hmem
  have hall : (key, encryption) ∈ encryptions (broadcast.low ++ broadcast.extra) := by
    rw [encryptions_append]
    exact List.mem_append_left _ hmem
  rw [(observe_realizes broadcast.realizes).1] at hall
  obtain ⟨item, hitem, heq⟩ := List.mem_map.mp hall
  cases heq
  obtain ⟨frame, fec, slices, index, shard, hread, haccepted, hfec, hsubset, hshard, hitem⟩ :=
    encryptions_send broadcast.returns encryption hitem
  exact ⟨broadcast.id, frame.val, slices, index, shard,
    ⟨broadcast.sessionId_eq, broadcast.inputFrame_eq hread hlow, haccepted,
      output_of_realizes broadcast.realizes hfec hsubset⟩, hshard, hitem⟩

/-- The run is sending: the packets of its whole session have been put together, and what
it sends is the beginning of what the filters have left. -/
structure OnAir (attempt : Attempt target) (id : SessionId) (frame : ByteVec target)
    (slices : List Slice) (key : Key) (encrypted : List Sealed) (final : List Packet) :
    Prop where
  sends : Sends attempt id frame.val slices
  launched : ∃ fec draws, Launched attempt.pipeline attempt.config.parityRatio
    ⟨attempt.config.rendezvousSecs⟩ id frame fec draws slices encrypted final
  encrypted_mem : ∀ encryption ∈ encryptionsFrom (attempt.builder id frame.val) id 0 slices
    encrypted, (key, encryption) ∈ encryptions attempt.trace
  datagrams_leading : datagrams attempt.trace <+: final
  datagrams_of_ok : attempt.rest = .done (.ok ()) → datagrams attempt.trace = final

/-- A run that succeeds has connected its socket. -/
theorem broadcast_of_ok (hok : attempt.rest = .done (.ok ())) : Nonempty (Broadcast attempt) := by
  have hreturns : Returns (run attempt.crate attempt.config).run attempt.trace (.ok ()) := by
    rw [Returns, ← hok]
    exact attempt.steps
  obtain ⟨reply, tail, htrace, hcases⟩ := returns_run hreturns
  rcases hcases with ⟨failure, -, -, hresult⟩ | ⟨key, -, hkey⟩
  · cases hresult
  rcases hkey with ⟨failure, hresult, -⟩ | ⟨first, second, id, rfl, hfirst, hsecond⟩
  · cases hresult
  rcases (returns_try_iff _ _ _ _).mp hsecond with ⟨failure, hresult, -⟩ |
    ⟨sockets, low, sender, rfl, hnew, hlow⟩
  · cases hresult
  rcases returns_new hnew with ⟨kind, -, hresult⟩ | ⟨kind, -, hresult⟩ | ⟨rfl, hresult⟩
  · cases hresult
  · cases hresult
  · cases hresult
    have hsteps : Steps (sendWith attempt.crate attempt.config key id
        ⟨⟨attempt.config.targetIp, attempt.config.targetPort⟩⟩).run low attempt.rest := by
      rw [hok]
      exact hlow
    exact broadcast_of_steps htrace hfirst hsteps

/-- A run that has sent anything, or that has succeeded, is through with its preparation, in
which nothing is sent. -/
theorem Broadcast.exists_rest (broadcast : Broadcast attempt)
    (hsent : datagrams attempt.trace ≠ [] ∨ attempt.rest = .done (.ok ()))
    {prepared sent : SysTrace target} (hsplit : broadcast.low ++ broadcast.extra = prepared ++ sent)
    (hunsent : datagrams prepared = []) :
    ∃ rest, broadcast.low = prepared ++ rest ∧ sent = rest ++ broadcast.extra := by
  rcases List.append_eq_append_iff.mp hsplit with ⟨missing, hmissing, hextra⟩ |
    ⟨rest, hlow, hrest⟩
  · rcases hsent with hsent | hok
    · rw [hmissing, datagrams_append, List.append_eq_nil_iff] at hunsent
      rw [broadcast.datagrams_eq] at hsent
      exact absurd hunsent.1 hsent
    · obtain ⟨hnil, -⟩ := broadcast.completes _ hok
      rw [hnil] at hextra
      obtain ⟨rfl, rfl⟩ := List.append_eq_nil_iff.mp hextra.symm
      exact ⟨[], by rw [hmissing, List.append_nil, List.append_nil], hnil.symm⟩
  · exact ⟨rest, hlow, hrest⟩

/-- The preparation of a session seals its slices, of which there are some. -/
theorem ne_nil_of_encryptions {self : FiudpSender} {ratio : ParityRatio}
    {rendezvousSecs : RendezvousSecs} {id : SessionId} {frame : ByteVec target}
    {fec draws : Trace Call (Reply target)} {slices : List Slice} {encrypted : List Sealed}
    {final : List Packet} {packetBuilder : PacketBuilder} {key : Key} {prepared : SysTrace target}
    (hlaunched : Launched self ratio rendezvousSecs id frame fec draws slices encrypted final)
    (hencrypted : encryptions prepared =
      (encryptionsFrom packetBuilder id 0 slices encrypted).map fun item => (key, item)) :
    prepared ≠ [] := by
  rintro rfl
  have hlength := congrArg List.length hencrypted
  rw [List.length_map, length_encryptionsFrom, hlaunched.length_eq, min_self,
    hlaunched.fecLeaves.length_eq] at hlength
  have hpositive := dataCount_pos hlaunched.accepted.nonempty
  simp [encryptions] at hlength
  omega

/-- A run that sends anything, or that succeeds, has launched its session. -/
theorem exists_onAir (hsent : datagrams attempt.trace ≠ [] ∨ attempt.rest = .done (.ok ())) :
    ∃ id frame slices key encrypted final,
      OnAir attempt id frame slices key encrypted final := by
  obtain ⟨broadcast⟩ : Nonempty (Broadcast attempt) := by
    rcases hsent with hsent | hok
    · exact attempt.broadcast.resolve_left fun hnone => hsent hnone.2
    · exact broadcast_of_ok hok
  have hobserved := (observe_realizes broadcast.realizes).2
  have hreturns := broadcast.returns
  rcases send_launched hreturns with ⟨hnone, hresult⟩ |
    ⟨frame, fec, draws, sends, slices, encrypted, final, hlaunched, hcalls, htransmit⟩
  · rw [hnone, List.map_nil, datagrams_append, List.append_eq_nil_iff] at hobserved
    rcases hsent with hsent | hok
    · rw [broadcast.datagrams_eq] at hsent
      exact absurd hobserved.1 hsent
    · exact absurd (broadcast.completes _ hok).2 hresult
  have hread : frameRead broadcast.calls = some frame.val := by
    rw [hcalls]
    rfl
  have hslices := output_of_realizes broadcast.realizes hlaunched.fecLeaves fun event hmem => by
    rw [hcalls, preparation]
    exact List.mem_append_left _ (List.mem_cons_of_mem _ (List.mem_append_left _ hmem))
  have hrealizes := broadcast.realizes
  rw [hcalls, ← List.append_assoc] at hrealizes
  obtain ⟨prepared, sent, hsplit, hprepared, hsends⟩ := (realizes_append_iff _ _ _).mp hrealizes
  obtain ⟨hencryptions, htransmissions⟩ := hlaunched.record_eq
  obtain ⟨hencrypted, hunsent⟩ := observe_realizes hprepared
  rw [hencryptions] at hencrypted
  rw [htransmissions, List.map_nil] at hunsent
  -- The preparation is over: nothing has been sent in it.
  obtain ⟨rest, hlow, hrest⟩ := broadcast.exists_rest hsent hsplit hunsent
  obtain ⟨hleading, hall⟩ := transmissions_transmit htransmit
  rw [← (observe_realizes hsends).2, hrest, datagrams_append] at hleading hall
  have hdatagrams : datagrams attempt.trace = datagrams rest := by
    rw [broadcast.datagrams_eq, hlow, datagrams_append, hunsent, List.nil_append]
  have hnonempty : broadcast.low ≠ [] := by
    rw [hlow]
    exact List.append_ne_nil_of_left_ne_nil (ne_nil_of_encryptions hlaunched hencrypted) rest
  refine ⟨broadcast.id, frame, slices, broadcast.key, encrypted, final,
    ⟨broadcast.sessionId_eq, broadcast.inputFrame_eq hread hnonempty, hlaunched.accepted,
      hslices⟩, ⟨fec, draws, hlaunched⟩, ?_, ?_, ?_⟩
  · intro encryption hmem
    rw [broadcast.encryptions_eq, hlow, encryptions_append, hencrypted]
    exact List.mem_append_left _ (List.mem_map_of_mem hmem)
  · rw [hdatagrams]
    exact (List.prefix_append _ _).trans hleading
  · intro hok
    obtain ⟨hnil, hresult⟩ := broadcast.completes _ hok
    rw [hdatagrams, ← hall hresult, hnil]
    exact (List.append_nil _).symm

/-! ## The datagrams of a run -/

section OnAir

variable {id : SessionId} {frame : ByteVec target} {slices : List Slice} {key : Key}
  {encrypted : List Sealed} {final : List Packet}

/-- Every datagram carries the encryption of a slice, which is in the trace. -/
theorem OnAir.carries (honAir : OnAir attempt id frame slices key encrypted final)
    {packet : Packet} (hmem : packet ∈ datagrams attempt.trace) :
    ∃ index shard item, slices[index]? = some shard ∧
      index < dataCount frame.val + parityCount attempt.config.parityRatio frame.val ∧
      (key, encryptionOf (attempt.builder id frame.val) id index shard (.ok item)) ∈
        encryptions attempt.trace ∧
      CarriesShard id ⟨attempt.config.rendezvousSecs⟩ (dataCount frame.val)
        (parityCount attempt.config.parityRatio frame.val) index shard
        (encryptionOf (attempt.builder id frame.val) id index shard (.ok item)) packet := by
  obtain ⟨fec, draws, hlaunched⟩ := honAir.launched
  obtain ⟨⟨kept, hsublist, hperm⟩, -⟩ := hlaunched.survivors
  have hpacket := hsublist.subset (hperm.subset (honAir.datagrams_leading.subset hmem))
  obtain ⟨index, hindex⟩ := List.mem_iff_getElem?.mp hpacket
  obtain ⟨shard, item, hshard, hitem, hlt, hcarries⟩ := hlaunched.carries hindex
  refine ⟨index, shard, item, hshard, hlt, honAir.encrypted_mem _ ?_, hcarries⟩
  have hpair : (slices.zip encrypted)[index]? = some (shard, item) :=
    List.getElem?_zip_eq_some.mpr ⟨hshard, hitem⟩
  refine List.mem_iff_getElem?.mpr ⟨index, ?_⟩
  rw [encryptionsFrom, List.getElem?_mapIdx, hpair, Nat.zero_add]
  rfl

/-- No two datagrams of a run have one index. -/
theorem OnAir.nodup_headerIndex (honAir : OnAir attempt id frame slices key encrypted final) :
    (final.map headerIndex).Nodup ∧ ((datagrams attempt.trace).map headerIndex).Nodup := by
  obtain ⟨fec, draws, hlaunched⟩ := honAir.launched
  obtain ⟨⟨kept, hsublist, hperm⟩, -⟩ := hlaunched.survivors
  have hpackets := hlaunched.pairwise_headerIndex.sublist hsublist
  have hkept : (kept.map headerIndex).Nodup := by
    rw [List.nodup_iff_pairwise_ne, List.pairwise_map]
    exact hpackets.imp fun hlt => hlt.ne
  have hfinal : (final.map headerIndex).Nodup := (hperm.map _).nodup_iff.mpr hkept
  exact ⟨hfinal, hfinal.sublist (honAir.datagrams_leading.map _).sublist⟩

end OnAir

end Attempt

/-! ## Runs with an AEAD that leaves the slices as they are -/

section Plain

variable {crate : ReedSolomon} {config : Config} {key : Key}

/-- The tag is zero, and the buffer is as it was. -/
def PlainReply (encryption : Encryption) : Prop :=
  encryption.reply = .ok ⟨Bytes.zeroes tagSize, encryption.buffer⟩

theorem plainReply_of_mem_encryptions {self : FiudpSender} {ratio : ParityRatio}
    {rendezvousSecs : RendezvousSecs} {sessionId : SessionId} {frame : ByteVec target}
    {reader : InputSource} {sender : UdpPacketSender} {sends : SysTrace target}
    (hrealizes : Realizes (components crate reader ⟨key⟩ sender)
      ((Components.withEngine crate frame).run self ratio rendezvousSecs sessionId).trace sends) :
    ∀ item ∈ encryptions sends, PlainReply item.2 := by
  intro item hmem
  rw [(observe_realizes hrealizes).1] at hmem
  obtain ⟨encryption, hencryption, rfl⟩ := List.mem_map.mp hmem
  exact Components.reply_of_mem_run _ _ _ _ _ (mem_encryptions_record hencryption)

/-- A run that reads this frame and succeeds with the next session id. -/
theorem exists_plain {Node : Type} [DecidableEq Node] {locate : PathBuf → Node}
    {files : Node → FileContents} (hcrate : crate.Documented) (hinput : config.input = .stdin)
    {frame : ByteVec target} (hframe : frame.val ≠ [])
    (hfits : dataCount frame.val + parityCount config.parityRatio frame.val ≤ 256)
    {value : ℕ} (hready : Ready locate files config.keyPath key value) (hroom : value < 65535) :
    ∃ (attempt : Attempt target) (raw : UInt16), attempt.crate = crate ∧
      attempt.config = config ∧ raw.toNat = value + 1 ∧ attempt.sessionId = some ⟨raw⟩ ∧
      inputFrame attempt.trace = some frame.val ∧
      Completes locate files attempt (.ok ()) (Function.update files
        (locate (SessionIdStore.new config.keyPath).path) (some (u16ToBeBytes raw).toList)) ∧
      ∀ item ∈ encryptions attempt.trace, PlainReply item.2 := by
  obtain ⟨raw, session, hraw, hnext, hsession, hundisturbed⟩ :=
    exists_next target (SessionIdStore.new config.keyPath) hready.value_eq hroom
  let sender : UdpPacketSender := ⟨⟨config.targetIp, config.targetPort⟩⟩
  have hreturns := returns_withEngine hcrate
    ⟨config.delay, config.chaosDrop, config.chaosBurst, config.chaosShuffle⟩ config.parityRatio
    ⟨config.rendezvousSecs⟩ ⟨raw⟩ hframe hfits
  obtain ⟨sends, hrealizes, hquiet⟩ : ∃ sends, Realizes
      (components crate config.input ⟨key⟩ sender) _ sends ∧
        ∀ event ∈ sends, ¬ event.call.IsFileCall :=
    Realizes.exists_of_forall fun event hmem =>
      exists_component hinput (Components.reply_of_mem_run _ _ _ _ _ hmem)
  have hsend : Returns (transmitFrame crate config key ⟨raw⟩).run
      (socketTrace config.targetIp config.targetPort ++ sends) (.ok ()) :=
    (returns_try_iff _ _ _ _).mpr (.inr ⟨_, sends, sender, rfl, returns_socketTrace _ _,
      (returns_plug_iff _ _ _).mpr ⟨_, hrealizes, hreturns⟩⟩)
  have hfiles : ∀ event ∈ keyEvent config.keyPath key :: session, event.call.IsFileCall :=
    List.forall_mem_cons.mpr ⟨trivial, fun event hmem => isFileCall_of_fileCall
      ((hnext.calls_allowed (next_callsOnly _)).1 event hmem)⟩
  obtain ⟨hencryptions, -, hinputFrame⟩ :=
    observe_of_fileCalls hfiles (socketTrace config.targetIp config.targetPort ++ sends)
  have hsteps : Steps (run crate config).run (keyEvent config.keyPath key ::
      (session ++ (socketTrace config.targetIp config.targetPort ++ sends)))
      (.done (.ok ())) := by
    rw [run_run]
    refine .ask _ _ _ ?_
    rw [keyDecision_key]
    exact (returns_try_iff _ _ _ _).mpr (.inr ⟨session, _, ⟨raw⟩, rfl, hnext, hsend⟩)
  refine ⟨⟨crate, config, _, _, hsteps⟩, raw, rfl, rfl, hraw, ?_, ?_, ⟨rfl, ?_, ?_⟩, ?_⟩
  · rw [Attempt.sessionId_eq_some_iff, Attempt.nextResult, List.tail_cons, Attempt.store,
      Steps.resume_append hnext, Program.resume_done]
    rfl
  · exact hinputFrame.trans (firstRead_of_realizes hrealizes
      (Components.frameRead_withEngine _ _ _ _ _ _))
  · exact ⟨files, fileStep_read hready.key_eq, (follows_append_iff _ _ _ _).mpr ⟨_, hsession,
      follows_of_not_fileCalls
        (List.forall_mem_append.mpr ⟨by simp [socketTrace, Syscall.IsFileCall], hquiet⟩)⟩⟩
  · exact List.forall_mem_cons.mpr ⟨trivial, List.forall_mem_append.mpr ⟨hundisturbed,
      List.forall_mem_append.mpr ⟨by simp [socketTrace, Undisturbed],
        fun event hmem => undisturbed_of_not_fileCall (hquiet event hmem)⟩⟩⟩
  · change ∀ item ∈ encryptions ((keyEvent config.keyPath key :: session) ++
      (socketTrace config.targetIp config.targetPort ++ sends)), PlainReply item.2
    have hsockets : encryptions (socketTrace config.targetIp config.targetPort :
        SysTrace target) = [] := rfl
    rw [encryptions_append, hencryptions, encryptions_append, hsockets]
    exact plainReply_of_mem_encryptions hrealizes

end Plain

end Fiudp.Run
