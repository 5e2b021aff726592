import Fiudp.Core.Contracts
import Fiudp.Run.Wire

/-!
# What a run comes to

On a system on which nothing fails the result of a run and the files it leaves are a function
of the files it finds, of its configuration and of stdin.
-/

namespace Fiudp.Run

open ByteLayout Protocol Interaction Sender Session SessionIdStore Os

variable {target : Target}

/-! ## The verdict -/

/-- What is wrong with the key file. -/
def keyFlaw (keyPath : PathBuf) : FileContents → Option FiudpError
  | none => some (.io (.readKeyFile keyPath) .notFound)
  | some bytes => if bytes.length = 32 then none else some (.invalidKeyLength bytes.length)

/-- The session id after the one in the session file. -/
def upcoming : FileContents → Except FiudpError ℕ
  | none => .ok 1
  | some bytes =>
      if bytes.length ≠ 2 then .error .invalidSessionFile
      else if beValue bytes = 65535 then .error .sessionIdOverflow
      else .ok (beValue bytes + 1)

/-- What becomes of a frame. -/
def transmission (crate : ReedSolomon) (config : Config) : FileContents → Except FiudpError Unit
  | none => .error (.io (inputContext config.input) .notFound)
  | some frame =>
      if frame = [] then .error .emptyInput
      else if 65535 < dataCount frame + parityCount config.parityRatio frame then
        .error (.tooManyShards (dataCount frame + parityCount config.parityRatio frame))
      else (sessionSlices crate config frame).map fun _ => ()

section Verdict

variable {Node : Type} (locate : PathBuf → Node) (stdin : List UInt8)

/-- What there is to be read of the input. -/
def inputContents (files : Node → FileContents) : InputSource → FileContents
  | .file path => files (locate path)
  | .stdin => some stdin

variable [DecidableEq Node]

/-- The result of a run and the files it leaves, when nothing fails.  The frame is read last,
so it is looked up after the counter has been written. -/
def verdict (crate : ReedSolomon) (config : Config) (files : Node → FileContents) :
    Except FiudpError Unit × (Node → FileContents) :=
  let counter := locate (SessionIdStore.new config.keyPath).path
  match keyFlaw config.keyPath (files (locate config.keyPath)), upcoming (files counter) with
  | some error, _ => (.error error, files)
  | none, .error error => (.error error, files)
  | none, .ok id =>
      let after := Function.update files counter (some [UInt8.ofNat (id / 256), UInt8.ofNat id])
      (transmission crate config (inputContents locate stdin after config.input), after)

variable {locate stdin} in
theorem verdict_of_ok {crate : ReedSolomon} {config : Config} {files : Node → FileContents}
    {id : ℕ} (hkey : keyFlaw config.keyPath (files (locate config.keyPath)) = none)
    (hcounter : upcoming (files (locate (SessionIdStore.new config.keyPath).path)) = .ok id) :
    verdict locate stdin crate config files =
      let after := Function.update files (locate (SessionIdStore.new config.keyPath).path)
        (some [UInt8.ofNat (id / 256), UInt8.ofNat id])
      (transmission crate config (inputContents locate stdin after config.input), after) := by
  simp only [verdict, hkey, hcounter]

end Verdict

/-! ## Systems on which nothing fails -/

/-- No call fails, except that a file may be absent, and stdin holds `stdin`. -/
def Quiet (stdin : ByteVec target) : Event Syscall (SysReply target) → Prop
  | ⟨.read _, reply⟩ => ∀ kind, reply = .error kind → kind = .notFound
  | ⟨.openTruncate _, reply⟩ => reply = .ok ()
  | ⟨.writeByte _ _ _, reply⟩ => reply = .ok ()
  | ⟨.readStdin, reply⟩ => reply = .ok stdin
  | ⟨.bindSocket, reply⟩ => reply = .ok ()
  | ⟨.connectSocket _, reply⟩ => reply = .ok ()
  | ⟨.encryptDetached _ _ _ buffer, reply⟩ =>
      ∃ item, reply = .ok item ∧ item.buffer.length = buffer.length
  | ⟨.sendDatagram packet, reply⟩ => reply = .ok packet.toList.length
  | _ => True

def QuietStep {Node : Type} [DecidableEq Node] (locate : PathBuf → Node) (stdin : ByteVec target)
    (before : Node → FileContents) (event : Event Syscall (SysReply target))
    (after : Node → FileContents) : Prop :=
  FileStep locate before event after ∧ Quiet stdin event

/-- The answer of a read that can fail for want of a file only. -/
def Reads (contents : FileContents) {ε : Type} (absent : ε) :
    Except ε (ByteVec target) → Prop
  | .ok bytes => contents = some bytes.val
  | .error error => error = absent ∧ contents = none

section Quiet

variable {Node : Type} [DecidableEq Node] {locate : PathBuf → Node} {stdin : ByteVec target}
  {before after : Node → FileContents}

/-- What a call makes of the files is determined by its answer. -/
theorem fileStep_unique {event : Event Syscall (SysReply target)} {other : Node → FileContents}
    (hstep : FileStep locate before event after) (hother : FileStep locate before event other) :
    after = other := by
  funext node
  exact (hstep node).2.trans (hother node).2.symm

theorem fileStep_of_not_isWrite {event : Event Syscall (SysReply target)}
    (hstep : FileStep locate before event after) (hcall : ¬ event.call.IsWrite) :
    after = before := by
  funext node
  exact (hstep node).2.trans (nodeAfter_of_not_writes fun hwrites => hcall hwrites.isWrite)

theorem quietStep_read {path : PathBuf} {reply : Except ErrorKind (ByteVec target)}
    (hstep : QuietStep locate stdin before ⟨.read path, reply⟩ after) :
    after = before ∧ Reads (before (locate path)) ErrorKind.notFound reply := by
  refine ⟨fileStep_of_not_isWrite hstep.1 id, ?_⟩
  have hallows := (hstep.1 (locate path)).1
  cases reply with
  | ok bytes => exact hallows rfl
  | error kind =>
      obtain rfl := hstep.2 kind rfl
      exact ⟨rfl, hallows rfl⟩

/-! ## The key and the counter -/

theorem keyDecision_of_reads (keyPath : PathBuf) {contents : FileContents}
    {reply : Except ErrorKind (ByteVec target)} (hreads : Reads contents ErrorKind.notFound reply) :
    match keyFlaw keyPath contents with
    | some error => keyDecision keyPath reply = .error (.error error)
    | none => ∃ key, keyDecision keyPath reply = .ok key := by
  cases reply with
  | error kind =>
      obtain ⟨rfl, rfl⟩ := hreads
      rfl
  | ok bytes =>
      obtain rfl : contents = some bytes.val := hreads
      rw [keyFlaw]
      by_cases hlength : bytes.val.length = 32
      · rw [if_pos hlength]
        exact ⟨_, dif_pos hlength⟩
      · rw [if_neg hlength]
        exact dif_neg hlength

theorem decision_of_reads (store : SessionIdStore) {contents : FileContents}
    {reply : Except ErrorKind (ByteVec target)} (hreads : Reads contents ErrorKind.notFound reply) :
    match upcoming contents with
    | .error error => store.decision reply = .error (.error error)
    | .ok id => ∃ raw, store.decision reply = .ok raw ∧ raw.toNat = id := by
  cases reply with
  | error kind =>
      obtain ⟨rfl, rfl⟩ := hreads
      exact ⟨1, rfl, rfl⟩
  | ok bytes =>
      obtain rfl : contents = some bytes.val := hreads
      rw [upcoming]
      by_cases hlength : bytes.val.length = 2
      · rw [if_neg (not_not.mpr hlength)]
        rcases decision_of_read store hlength with ⟨hfull, hoverflow⟩ | ⟨raw, hok, hraw⟩
        · rw [if_pos hfull]
          exact hoverflow
        · have hlt := raw.toNat_lt
          rw [if_neg (by omega)]
          exact ⟨raw, hok, hraw⟩
      · rw [if_pos hlength]
        exact decision_of_current_error (current_malformed hlength)

/-- The two bytes of the counter are written into the truncated file. -/
theorem ensures_truncate (store : SessionIdStore) (raw : UInt16) :
    Ensures (QuietStep locate stdin) (store.truncate raw) before fun result after =>
      result = .ok ⟨raw⟩ ∧
        after = Function.update before (locate store.path) (some (u16ToBeBytes raw).toList) := by
  rw [truncate, ensures_ask_iff]
  rintro opened middle ⟨hopen, rfl : opened = .ok ()⟩
  obtain rfl := fileStep_unique hopen (fileStep_openTruncate store.path)
  rw [writeHigh, ensures_ask_iff]
  rintro high middle ⟨hhigh, rfl : high = .ok ()⟩
  obtain rfl := fileStep_unique hhigh (fileStep_writeByte 0 _ (Function.update_self _ _ _))
  rw [writeLow, ensures_ask_iff]
  rintro low after ⟨hlow, rfl : low = .ok ()⟩
  obtain rfl := fileStep_unique hlow (fileStep_writeByte 1 _ (Function.update_self _ _ _))
  rw [Function.update_idem, Function.update_idem]
  exact (ensures_done_iff _ _).mpr ⟨rfl, rfl⟩

theorem ensures_next (store : SessionIdStore) :
    Ensures (QuietStep locate stdin) store.next.run before fun result after =>
      match upcoming (before (locate store.path)) with
      | .error error => result = .error (.error error) ∧ after = before
      | .ok id => ∃ raw, result = .ok ⟨raw⟩ ∧ raw.toNat = id ∧
          after = Function.update before (locate store.path)
            (some (u16ToBeBytes raw).toList) := by
  rw [next_run, ensures_ask_iff]
  intro reply middle hstep
  obtain ⟨hsame, hreads⟩ := quietStep_read hstep
  rw [hsame]
  have hdecision := decision_of_reads store hreads
  cases hupcoming : upcoming (before (locate store.path)) with
  | error error =>
      rw [hupcoming] at hdecision
      rw [show store.decision reply = _ from hdecision]
      exact (ensures_done_iff _ _).mpr ⟨rfl, rfl⟩
  | ok id =>
      rw [hupcoming] at hdecision
      obtain ⟨raw, hok, hraw⟩ := hdecision
      rw [hok]
      refine Ensures.imp (ensures_truncate store raw) fun result after hpost => ?_
      exact ⟨raw, hpost.1, hraw, hpost.2⟩

/-! ## The transmission -/

/-- What the components answer to `send`, and that they leave the files as they are. -/
def ComponentStep (crate : ReedSolomon) (config : Config) (locate : PathBuf → Node)
    (stdin : ByteVec target) (before : Node → FileContents) (event : Event Call (Reply target))
    (after : Node → FileContents) : Prop :=
  after = before ∧ (event.call ≠ .readAll → AnsweredBy crate event) ∧
    ∀ reply, event = ⟨.readAll, reply⟩ →
      Reads (inputContents locate stdin.val before config.input)
        (FiudpError.io (inputContext config.input) .notFound) reply

variable {crate : ReedSolomon} {config : Config} {key : Key} {sender : UdpPacketSender}

theorem ensures_readAll (source : InputSource) :
    Ensures (QuietStep locate stdin) source.readAll.run before fun reply after =>
      after = before ∧ Reads (inputContents locate stdin.val before source)
        (FiudpError.io (inputContext source) .notFound) reply := by
  intro trace reply after hreturns hfollows
  obtain ⟨answer, rfl, rfl⟩ := (returns_inputReadAll_iff _ _ _).mp hreturns
  obtain ⟨middle, hstep, rfl⟩ := hfollows
  cases source with
  | file path =>
      obtain ⟨rfl, hreads⟩ := quietStep_read hstep
      refine ⟨rfl, ?_⟩
      cases answer with
      | ok bytes => exact hreads
      | error kind =>
          obtain ⟨rfl, hnone⟩ := hreads
          exact ⟨rfl, hnone⟩
  | stdin =>
      obtain ⟨hfile, rfl : answer = .ok stdin⟩ := hstep
      exact ⟨fileStep_of_not_isWrite hfile id, rfl⟩

omit [DecidableEq Node] in
theorem componentStep_of_answered {event : Event Call (Reply target)}
    (hcall : event.call ≠ .readAll) (hsame : after = before) (hanswered : AnsweredBy crate event) :
    ComponentStep crate config locate stdin before event after :=
  ⟨hsame, fun _ => hanswered, fun _ hevent => absurd (congrArg Event.call hevent) hcall⟩

/-- The components of a run keep their contracts on a quiet system. -/
theorem ensures_components (call : Call) :
    Ensures (QuietStep locate stdin) (components crate config.input ⟨key⟩ sender call) before
      fun reply after => ComponentStep crate config locate stdin before ⟨call, reply⟩ after := by
  cases call with
  | readAll =>
      refine (ensures_readAll config.input).imp fun reply after hpost => ?_
      refine ⟨hpost.1, fun hcall => absurd rfl hcall, ?_⟩
      rintro other ⟨⟩
      exact hpost.2
  | encode dataShards parityShards shards =>
      exact (ensures_done_iff _ _).mpr (componentStep_of_answered (by simp) rfl rfl)
  | encryptInPlace nonce aad buffer =>
      rintro trace reply after hreturns hfollows
      obtain ⟨answer, hseal, rfl⟩ := (Fallible.returns_mapErr_iff _ _ _ _).mp hreturns
      rw [(returns_perform_iff _ _ _).mp hseal] at hfollows
      obtain ⟨middle, ⟨hfile, item, rfl, hlength⟩, rfl⟩ := hfollows
      exact componentStep_of_answered (by simp) (fileStep_of_not_isWrite hfile id)
        ⟨item, rfl, hlength⟩
  | sendPacket packet =>
      rw [components, UdpPacketSender.send_run, ensures_ask_iff]
      rintro reply middle ⟨hfile, rfl : reply = .ok packet.toList.length⟩
      exact (ensures_done_iff _ _).mpr (componentStep_of_answered (by simp)
        (fileStep_of_not_isWrite hfile id) (if_neg (not_not.mpr rfl)))
  | sleep | genRangeTo | genPercent | shuffle =>
      refine (ensures_ask_iff _ _ _).mpr fun reply middle hstep => ?_
      exact (ensures_done_iff _ _).mpr
        (componentStep_of_answered (by simp) (fileStep_of_not_isWrite hstep.1 id) trivial)

omit [DecidableEq Node] in
/-- The events of a transmission on files that do not change. -/
theorem forall_componentStep {trace : Trace Call (Reply target)}
    (hfollows : Follows (ComponentStep crate config locate stdin) before trace after) :
    (∀ event ∈ trace, (event.call ≠ .readAll → AnsweredBy crate event) ∧
      ∀ reply, event = ⟨.readAll, reply⟩ →
        Reads (inputContents locate stdin.val before config.input)
          (FiudpError.io (inputContext config.input) .notFound) reply) ∧ after = before := by
  refine Follows.invariant (· = before) ?_ rfl hfollows
  rintro left event right rfl ⟨hsame, hevent⟩
  exact ⟨hevent, hsame⟩

/-- The slices of an accepted frame, from the answer of the engine. -/
theorem sessionSlices_of_answered {frame : List UInt8}
    (hparity : 0 < parityCount config.parityRatio frame) {reply : Except FiudpError _}
    (hanswered : AnsweredBy crate
      (encodeEvent config.parityRatio frame reply : Event Call (Reply target))) :
    sessionSlices crate config frame = reply.map Subtype.val := by
  rw [sessionSlices, Engine.output, if_neg hparity.ne', engineOf,
    show reply = _ from hanswered]

omit [DecidableEq Node] in
theorem ensures_send (hcrate : crate.Documented) (self : FiudpSender)
    (rendezvousSecs : RendezvousSecs) (sessionId : SessionId) :
    Ensures (ComponentStep crate config locate stdin)
      (self.send config.parityRatio rendezvousSecs sessionId).run before fun result after =>
        after = before ∧ result = (transmission crate config
          (inputContents locate stdin.val before config.input)).mapError .error := by
  intro trace result after hreturns hfollows
  obtain ⟨hevents, hsame⟩ := forall_componentStep hfollows
  refine ⟨hsame, ?_⟩
  rcases returns_send hreturns with ⟨error, rfl, rfl⟩ | ⟨bytes, rest, rfl, -⟩
  · obtain ⟨rfl, hnone⟩ := (hevents _ List.mem_cons_self).2 _ rfl
    rw [hnone]
    rfl
  · have hcontents : inputContents locate stdin.val before config.input = some bytes.val :=
      (hevents _ List.mem_cons_self).2 _ rfl
    have hanswered : ∀ event ∈ ⟨.readAll, .ok bytes⟩ :: rest, AnsweredBy crate event := by
      intro event hmem
      by_cases hcall : event.call = .readAll
      · obtain ⟨call, reply⟩ := event
        obtain rfl : call = .readAll := hcall
        have hreads := (hevents _ hmem).2 reply rfl
        cases reply with
        | ok frame => exact ⟨frame, rfl⟩
        | error error =>
            rw [hcontents] at hreads
            cases hreads.2
      · exact (hevents event hmem).1 hcall
    obtain ⟨frame, hframe, -, hcases⟩ :=
      (send_exit (fun event hmem => (hanswered event hmem).keepsLengths hcrate)
        hreturns).of_succeeds fun event hmem => (hanswered event hmem).succeeds
    obtain rfl : bytes = frame := Subtype.ext (Option.some.inj hframe)
    rw [hcontents, transmission]
    rcases hcases with ⟨hempty, rfl⟩ | ⟨hnonempty, hshards, rfl⟩ |
      ⟨haccepted, hparity, error, hencode, rfl⟩ | ⟨haccepted, rfl, hencode⟩
    · rw [if_pos hempty]
      rfl
    · rw [if_neg hnonempty, if_pos hshards]
      rfl
    · rw [if_neg haccepted.nonempty, if_neg (Nat.not_lt.mpr haccepted.fits),
        sessionSlices_of_answered hparity (hanswered _ hencode)]
      rfl
    · rw [if_neg haccepted.nonempty, if_neg (Nat.not_lt.mpr haccepted.fits)]
      rcases Nat.eq_zero_or_pos (parityCount config.parityRatio bytes.val) with hnone | hparity
      · rw [sessionSlices, Engine.output, if_pos hnone]
        rfl
      · obtain ⟨out, hout⟩ := hencode hparity
        rw [sessionSlices_of_answered hparity (hanswered _ hout)]
        rfl

theorem ensures_transmitFrame (hcrate : crate.Documented) (sessionId : SessionId) :
    Ensures (QuietStep locate stdin) (transmitFrame crate config key sessionId).run before
      fun result after => after = before ∧ result = (transmission crate config
        (inputContents locate stdin.val before config.input)).mapError .error := by
  rw [transmitFrame, ensures_try_iff, new_run, ensures_ask_iff]
  rintro bound middle ⟨hbind, rfl : bound = .ok ()⟩
  obtain rfl := fileStep_of_not_isWrite hbind id
  rw [ensures_ask_iff]
  rintro connected middle ⟨hconnect, rfl : connected = .ok ()⟩
  obtain rfl := fileStep_of_not_isWrite hconnect id
  rw [ensures_done_iff]
  exact Ensures.plug (fun call files => ensures_components call) (ensures_send hcrate _ _ _)

/-! ## The run -/

theorem ensures_run (hcrate : crate.Documented) (files : Node → FileContents) :
    Ensures (QuietStep locate stdin) (run crate config).run files fun result after =>
      result = (verdict locate stdin.val crate config files).1.mapError .error ∧
        after = (verdict locate stdin.val crate config files).2 := by
  rw [run_run, ensures_ask_iff]
  intro reply middle hstep
  obtain ⟨hsame, hreads⟩ := quietStep_read hstep
  rw [hsame, verdict]
  have hkey := keyDecision_of_reads config.keyPath hreads
  cases hflaw : keyFlaw config.keyPath (files (locate config.keyPath)) with
  | some error =>
      rw [hflaw] at hkey
      rw [show keyDecision config.keyPath reply = _ from hkey]
      exact (ensures_done_iff _ _).mpr ⟨rfl, rfl⟩
  | none =>
      rw [hflaw] at hkey
      obtain ⟨key, hkey⟩ := hkey
      rw [hkey]
      refine (ensures_try_iff _ _ _).mpr ((ensures_next _).imp fun result after hnext => ?_)
      cases hupcoming : upcoming (files (locate (SessionIdStore.new config.keyPath).path)) with
      | error error =>
          rw [hupcoming] at hnext
          obtain ⟨rfl, rfl⟩ := hnext
          exact ⟨rfl, rfl⟩
      | ok id =>
          rw [hupcoming] at hnext
          obtain ⟨raw, rfl, rfl, rfl⟩ := hnext
          refine (ensures_transmitFrame hcrate ⟨raw⟩).imp fun result after hpost => ?_
          exact ⟨hpost.2, hpost.1⟩

/-! ## A run that nothing disturbs -/

/-- The calls a quiet system can answer: no write leaves a hole in a file. -/
def Answerable : Syscall → Prop
  | .writeByte _ offset _ => offset ≤ 1
  | _ => True

theorem answerable_of_not_isWrite {call : Syscall} (hcall : ¬ call.IsWrite) :
    Answerable call := by
  cases call with
  | writeByte => exact absurd trivial hcall
  | _ => trivial

theorem next_answerable (store : SessionIdStore) :
    (store.next : Process target SessionId).run.CallsOnly Answerable := by
  rw [next_run]
  refine ⟨trivial, fun reply => ?_⟩
  beta_reduce
  split
  · refine ⟨trivial, fun opened => ?_⟩
    cases opened with
    | error kind => trivial
    | ok =>
        refine ⟨Nat.zero_le _, fun high => ?_⟩
        cases high with
        | error kind => trivial
        | ok => exact ⟨le_rfl, fun low => by cases low <;> trivial⟩
  · trivial

theorem run_answerable : (run crate config : Process target Unit).run.CallsOnly Answerable := by
  rw [run_run]
  refine ⟨trivial, fun reply => ?_⟩
  beta_reduce
  split
  · exact Fallible.callsOnly_bind (next_answerable _) fun sessionId =>
      Program.CallsOnly.imp callsOnly_transmitFrame fun _ => answerable_of_not_isWrite
  · trivial

/-- Files that fit into a vector. -/
def Loadable (target : Target) (files : Node → FileContents) : Prop :=
  ∀ node bytes, files node = some bytes → bytes.length ≤ target.isizeMax

theorem Loadable.update {files : Node → FileContents} (hloadable : Loadable target files)
    (node : Node) {bytes : List UInt8} (hbytes : bytes.length ≤ target.isizeMax) :
    Loadable target (Function.update files node (some bytes)) := by
  intro other contents hcontents
  by_cases hnode : other = node
  · rw [hnode, Function.update_self] at hcontents
    exact Option.some.inj hcontents ▸ hbytes
  · rw [Function.update_of_ne hnode] at hcontents
    exact hloadable other contents hcontents

theorem exists_quietStep (locate : PathBuf → Node) (stdin : ByteVec target)
    (files : Node → FileContents) (call : Syscall) (hloadable : Loadable target files)
    (hcall : Answerable call) :
    ∃ reply after, QuietStep locate stdin files ⟨call, reply⟩ after ∧ Loadable target after := by
  have hany : Nonempty (SysReply target call) := inferInstance
  cases call with
  | read path =>
      cases hfile : files (locate path) with
      | none =>
          exact ⟨.error .notFound, files, ⟨fileStep_notFound hfile, by rintro kind ⟨⟩; rfl⟩,
            hloadable⟩
      | some bytes =>
          exact ⟨.ok ⟨bytes, hloadable _ _ hfile⟩, files, ⟨fileStep_read hfile, nofun⟩, hloadable⟩
  | openTruncate path =>
      exact ⟨.ok (), _, ⟨fileStep_openTruncate path, rfl⟩, hloadable.update _ (Nat.zero_le _)⟩
  | writeByte path offset byte =>
      cases hfile : files (locate path) with
      | none =>
          refine ⟨.ok (), files, ⟨fun node => ⟨trivial, ?_⟩, rfl⟩, hloadable⟩
          rw [nodeAfter]
          split
          · rename_i hnode
            rw [← hnode, hfile]
            rfl
          · rfl
      | some bytes =>
          refine ⟨.ok (), _, ⟨fileStep_writeByte offset byte hfile, rfl⟩, hloadable.update _ ?_⟩
          have hlength := hloadable _ _ hfile
          have hisize := target.isizeMax_eq
          have hoffset : offset ≤ 1 := hcall
          simp only [bytesAfter, overwrite, List.length_append, List.length_take,
            List.length_drop, List.length_replicate, List.length_singleton]
          omega
  | readStdin => exact ⟨.ok stdin, files, ⟨fileStep_of_not_fileCall id, rfl⟩, hloadable⟩
  | bindSocket | connectSocket =>
      exact ⟨.ok (), files, ⟨fileStep_of_not_fileCall id, rfl⟩, hloadable⟩
  | sendDatagram packet =>
      exact ⟨.ok packet.toList.length, files, ⟨fileStep_of_not_fileCall id, rfl⟩, hloadable⟩
  | encryptDetached key nonce aad buffer =>
      exact ⟨.ok ⟨Bytes.zeroes tagSize, buffer⟩, files,
        ⟨fileStep_of_not_fileCall id, _, rfl, rfl⟩, hloadable⟩
  | sleep | genRangeTo | genPercent | shuffle =>
      obtain ⟨reply⟩ := hany
      exact ⟨reply, files, ⟨fileStep_of_not_fileCall id, trivial⟩, hloadable⟩

/-- On a system on which nothing fails, a run ends as the verdict says, whatever the random
draws, the AEAD and the clock do; and there is such a run. -/
theorem quiet_run_iff (hcrate : crate.Documented) {files : Node → FileContents}
    (hloadable : Loadable target files) (result : Result Unit) (after : Node → FileContents) :
    (∃ trace, Returns (run crate config).run trace result ∧
        Follows (QuietStep locate stdin) files trace after) ↔
      result = (verdict locate stdin.val crate config files).1.mapError .error ∧
        after = (verdict locate stdin.val crate config files).2 := by
  constructor
  · rintro ⟨trace, hreturns, hfollows⟩
    exact ensures_run hcrate files trace result after hreturns hfollows
  · obtain ⟨trace, value, final, hreturns, hfollows⟩ :=
      exists_follows (exists_quietStep locate stdin) run_answerable hloadable
    obtain ⟨rfl, rfl⟩ := ensures_run hcrate files trace value final hreturns hfollows
    rintro ⟨rfl, rfl⟩
    exact ⟨trace, hreturns, hfollows⟩

end Quiet

/-! ## A frame from stdin -/

/-- A frame that the field of the code allows is sent. -/
theorem transmission_of_fits {crate : ReedSolomon} {config : Config} (hcrate : crate.Documented)
    {frame : List UInt8} (hframe : frame ≠ [])
    (hfits : dataCount frame + parityCount config.parityRatio frame ≤ 256) :
    transmission crate config (some frame) = .ok () := by
  rw [transmission, if_neg hframe, if_neg (by omega), sessionSlices, Engine.output]
  rcases Nat.eq_zero_or_pos (parityCount config.parityRatio frame) with hnone | hparity
  · rw [if_pos hnone]
    rfl
  · obtain ⟨out, hout⟩ := ReedSolomonEngine.encode_succeeds hcrate (dataCount_pos hframe) hparity
      hfits (length_sessionShards config.parityRatio frame) fun shard =>
        length_of_mem_sessionShards
    rw [if_neg hparity.ne', engineOf, hout]
    rfl

theorem loadable_sampleFiles : Loadable Target.release64 sampleFiles :=
  Loadable.update nofun _ (by rw [Bytes.length_toList]; decide)

theorem verdict_sample :
    verdict id sampleFrame.val copyingCrate (sampleConfig sampleKeyPath) sampleFiles =
      (.ok (), Function.update sampleFiles (SessionIdStore.new sampleKeyPath).path
        (some [0, 1])) := by
  have hkey : keyFlaw sampleKeyPath (sampleFiles (id sampleKeyPath)) = none := by
    rw [ready_sampleFiles.key_eq, keyFlaw, Bytes.length_toList, if_pos rfl]
  have hcounter : upcoming (sampleFiles (id (SessionIdStore.new sampleKeyPath).path)) = .ok 1 := by
    rw [id_eq, sampleFiles_session]
    rfl
  have hsent : transmission copyingCrate (sampleConfig sampleKeyPath) (some sampleFrame.val) =
      .ok () :=
    transmission_of_fits documented_copyingCrate (by decide) (by decide)
  have hinput : ∀ files, inputContents id sampleFrame.val files (sampleConfig sampleKeyPath).input =
      some sampleFrame.val := fun files => rfl
  rw [verdict_of_ok hkey hcounter]
  dsimp only
  rw [hinput, hsent]
  rfl

theorem quiet_run_iff_sample :
    ∃ trace, Returns (run copyingCrate (sampleConfig sampleKeyPath)).run trace (.ok ()) ∧
      Follows (QuietStep id sampleFrame) sampleFiles trace (Function.update sampleFiles
        (SessionIdStore.new sampleKeyPath).path (some [0, 1])) := by
  refine (quiet_run_iff documented_copyingCrate loadable_sampleFiles _ _).mpr ?_
  rw [verdict_sample]
  exact ⟨rfl, rfl⟩

end Fiudp.Run
