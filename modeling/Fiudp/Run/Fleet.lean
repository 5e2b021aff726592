import Fiudp.Run.Precedence
import Fiudp.Session.Concurrency

/-!
# Runs side by side

Several runs under one key path, whose calls are interleaved in any way.  Seen from the
session file they are processes that call `next` once each, so what holds of these holds of
whole runs: their ids, their nonces and their datagrams.
-/

namespace Fiudp.Run

open ByteLayout Protocol Interaction Sender Session SessionIdStore Os Attempt

variable {target : Target}

/-! ## One more call of a run -/

namespace Attempt

/-- The call the run makes next. -/
def pending (attempt : Attempt target) : Option Syscall :=
  match attempt.rest with
  | .ask call _ => some call
  | .done _ => none

/-- The run after its next call has been answered. -/
def answer (attempt : Attempt target) {call : Syscall}
    {next : SysReply target call → Program Syscall (SysReply target) (Result Unit)}
    (hrest : attempt.rest = .ask call next) (reply : SysReply target call) : Attempt target where
  crate := attempt.crate
  config := attempt.config
  trace := attempt.trace ++ [⟨call, reply⟩]
  rest := next reply
  steps := attempt.steps.append (hrest ▸ .ask call next reply (.refl _))

@[simp]
theorem trace_answer (attempt : Attempt target) {call : Syscall}
    {next : SysReply target call → Program Syscall (SysReply target) (Result Unit)}
    (hrest : attempt.rest = .ask call next) (reply : SysReply target call) :
    (attempt.answer hrest reply).trace = attempt.trace ++ [⟨call, reply⟩] := rfl

/-- The run as a process that calls `next` once, from the read of its key on. -/
def nextCaller (attempt : Attempt target) : NextCaller target :=
  match attempt.trace with
  | [] => .idle 1
  | _ :: tail => ⟨[], 0, some (attempt.store.next.run.resume tail)⟩

variable {attempt : Attempt target}

/-- A run past its first call has been refused by its key, is in its call of `next` and
makes the calls of that, or is through with it and writes to no file any more. -/
theorem next_cases {event : Event Syscall (SysReply target)} {tail : SysTrace target}
    (htrace : attempt.trace = event :: tail) :
    (tail = [] ∧ ∃ failure, attempt.rest = .done (.error failure)) ∨
      (∃ call middle next, Steps attempt.store.next.run tail (.ask call middle) ∧
        attempt.rest = .ask call next) ∨
      (∃ result, ∀ extra, attempt.store.next.run.resume (tail ++ extra) = .done result) ∧
        ∀ call next, attempt.rest = .ask call next → ¬ call.IsWrite := by
  rcases steps_run attempt.steps with ⟨hnil, -⟩ | ⟨reply, rest, heq, hcases⟩
  · rw [hnil] at htrace
    cases htrace
  rw [heq] at htrace
  cases htrace
  rcases hcases with ⟨failure, -, rfl, hdone⟩ | ⟨key, -, hkey⟩
  · exact .inl ⟨rfl, failure, hdone⟩
  rcases hkey with ⟨middle, hmiddle, hmore⟩ | ⟨first, second, id, rfl, hfirst, hsecond⟩
  · rw [ExceptT.run_bind] at hmore
    cases hrun : middle.run with
    | ask call more =>
        rw [hrun] at hmore hmiddle
        exact .inr (.inl ⟨call, more, _, hmiddle, hmore⟩)
    | done result =>
        rw [hrun] at hmore hmiddle
        refine .inr (.inr ⟨⟨result, fun extra => ?_⟩, fun call next hrest => ?_⟩)
        · exact (Steps.resume_append hmiddle _).trans (Program.resume_done _ _)
        · rw [hrest] at hmore
          cases result with
          | error failure => cases hmore
          | ok id =>
              have htransmit : (transmitFrame attempt.crate attempt.config key id :
                  Process target Unit).run = .ask call next := hmore.symm
              have hcalls : (transmitFrame attempt.crate attempt.config key id :
                  Process target Unit).run.CallsOnly fun call => ¬ call.IsWrite :=
                callsOnly_transmitFrame
              rw [htransmit] at hcalls
              exact hcalls.1
  · refine .inr (.inr ⟨⟨.ok id, fun extra => ?_⟩, fun call next hrest => ?_⟩)
    · rw [List.append_assoc]
      exact (Steps.resume_append hfirst _).trans (Program.resume_done _ _)
    · have hcalls := (hsecond.calls_allowed callsOnly_transmitFrame).2
      rw [hrest] at hcalls
      exact hcalls.1

theorem nextCaller_of_nil (htrace : attempt.trace = []) : attempt.nextCaller = .idle 1 := by
  rw [nextCaller, htrace]

theorem nextCaller_of_cons {event : Event Syscall (SysReply target)} {tail : SysTrace target}
    (htrace : attempt.trace = event :: tail) :
    attempt.nextCaller = ⟨[], 0, some (attempt.store.next.run.resume tail)⟩ := by
  rw [nextCaller, htrace]

section Answer

variable {call : Syscall}
  {next : SysReply target call → Program Syscall (SysReply target) (Result Unit)}
  (hrest : attempt.rest = .ask call next) (reply : SysReply target call)

/-- The read of the key begins the call of `next`. -/
theorem nextCaller_answer_first (htrace : attempt.trace = []) :
    (attempt.answer hrest reply).nextCaller = ⟨[], 0, some attempt.store.next.run⟩ ∧
      ¬ call.IsWrite := by
  have hanswered : (attempt.answer hrest reply).trace = [⟨call, reply⟩] := by
    rw [trace_answer, htrace, List.nil_append]
  refine ⟨?_, ?_⟩
  · rw [nextCaller_of_cons hanswered, Program.resume_nil]
    rfl
  · rcases steps_run attempt.steps with ⟨-, hrun⟩ | ⟨first, tail, hcons, -⟩
    · rw [hrest, run_run] at hrun
      cases hrun
      exact id
    · rw [htrace] at hcons
      cases hcons

variable {event : Event Syscall (SysReply target)} {tail : SysTrace target}

theorem nextCaller_answer (htrace : attempt.trace = event :: tail) :
    (attempt.answer hrest reply).nextCaller =
      ⟨[], 0, some (attempt.store.next.run.resume (tail ++ [⟨call, reply⟩]))⟩ := by
  have hanswered : (attempt.answer hrest reply).trace =
      event :: (tail ++ [⟨call, reply⟩]) := by
    rw [trace_answer, htrace, List.cons_append]
  exact nextCaller_of_cons hanswered

/-- A call that `next` makes is answered in `next`. -/
theorem nextCaller_answer_inside (htrace : attempt.trace = event :: tail)
    {middle : SysReply target call → Remaining target}
    (hsteps : Steps attempt.store.next.run tail (.ask call middle)) :
    attempt.nextCaller = ⟨[], 0, some (.ask call middle)⟩ ∧
      (attempt.answer hrest reply).nextCaller = ⟨[], 0, some (middle reply)⟩ := by
  refine ⟨?_, ?_⟩
  · rw [nextCaller_of_cons htrace, hsteps.resume]
  · rw [nextCaller_answer hrest reply htrace, Steps.resume_append hsteps _, Program.resume,
      dif_pos rfl, Program.resume_nil]

/-- After `next` no call changes what has become of it. -/
theorem nextCaller_answer_after (htrace : attempt.trace = event :: tail)
    {result : Result SessionId}
    (hover : ∀ extra, attempt.store.next.run.resume (tail ++ extra) = .done result) :
    (attempt.answer hrest reply).nextCaller = attempt.nextCaller := by
  have hresult := hover []
  rw [List.append_nil] at hresult
  rw [nextCaller_answer hrest reply htrace, nextCaller_of_cons htrace, hresult, hover]

end Answer

/-- A run whose call of `next` is about to truncate the session file is itself. -/
theorem pending_of_nextCaller {path : PathBuf}
    (hpending : attempt.nextCaller.pending = some (.openTruncate path)) :
    attempt.pending = some (.openTruncate path) := by
  cases htrace : attempt.trace with
  | nil =>
      rw [nextCaller_of_nil htrace] at hpending
      cases hpending
  | cons event tail =>
      rw [nextCaller_of_cons htrace, Caller.pending] at hpending
      rcases next_cases htrace with ⟨rfl, -⟩ | ⟨call, middle, next, hsteps, hrest⟩ |
        ⟨⟨result, hover⟩, -⟩
      · rw [Program.resume_nil, next_run] at hpending
        cases hpending
      · rw [hsteps.resume] at hpending
        rw [pending, hrest]
        exact hpending
      · have hdone := hover []
        rw [List.append_nil] at hdone
        rw [hdone] at hpending
        cases hpending

/-- A run that has ended is outside the part of `next` that changes the file. -/
theorem outside_of_done {result : Result Unit} (hdone : attempt.rest = .done result) :
    Outside attempt.store attempt.nextCaller.current := by
  cases htrace : attempt.trace with
  | nil =>
      rw [nextCaller_of_nil htrace]
      exact .idle
  | cons event tail =>
      rw [nextCaller_of_cons htrace]
      rcases next_cases htrace with ⟨rfl, -⟩ | ⟨call, middle, next, -, hrest⟩ |
        ⟨⟨result, hover⟩, -⟩
      · rw [Program.resume_nil]
        exact .starting
      · rw [hdone] at hrest
        cases hrest
      · have hresult := hover []
        rw [List.append_nil] at hresult
        rw [hresult]
        exact .done result

/-- The ids its call of `next` has persisted are the session id of the run. -/
theorem persistedIds_nextCaller (attempt : Attempt target) :
    persistedIds attempt.nextCaller =
      (attempt.sessionId.map fun id => id.raw.toNat).toList := by
  cases htrace : attempt.trace with
  | nil =>
      have hnone : attempt.sessionId = none := by
        rw [sessionId, nextResult, htrace, List.tail_nil, Program.resume_nil, next_run]
        rfl
      rw [nextCaller_of_nil htrace, hnone]
      rfl
  | cons event tail =>
      rw [nextCaller_of_cons htrace, sessionId, nextResult, htrace, List.tail_cons]
      cases attempt.store.next.run.resume tail with
      | ask call next => rfl
      | done result => cases result <;> rfl

end Attempt

/-! ## A fleet -/

/-- Runs that share a session file. -/
structure Fleet (ι : Type) (target : Target) where
  process : ι → Attempt target
  contents : FileContents

/-- One call of one of the runs: it sees the session file as it is, no operation on that file
fails, and no run reads it while another one stands between its read and its truncation. -/
inductive FleetStep {ι : Type} [DecidableEq ι] (store : SessionIdStore) :
    Fleet ι target → Fleet ι target → Prop
  | move (fleet : Fleet ι target) (i : ι) {call : Syscall}
      {next : SysReply target call → Program Syscall (SysReply target) (Result Unit)}
      (hrest : (fleet.process i).rest = .ask call next) (reply : SysReply target call)
      {after : FileContents} :
      NodeStep id store.path fleet.contents ⟨call, reply⟩ after →
      (FileCall store.path call → Undisturbed ⟨call, reply⟩) →
      (call = .read store.path → ∀ other, other ≠ i →
        (fleet.process other).pending ≠ some (.openTruncate store.path)) →
      FleetStep store fleet
        ⟨Function.update fleet.process i ((fleet.process i).answer hrest reply), after⟩

/-- The runs as processes that call `next`. -/
def Fleet.callers {ι : Type} (fleet : Fleet ι target) : NextPool ι target :=
  ⟨fun i => (fleet.process i).nextCaller, fleet.contents⟩

section Simulation

variable {ι : Type} [DecidableEq ι] {store : SessionIdStore} {before after : Fleet ι target}

theorem callers_update (fleet : Fleet ι target) (i : ι) (attempt : Attempt target)
    (contents : FileContents) :
    (⟨Function.update fleet.process i attempt, contents⟩ : Fleet ι target).callers =
      ⟨Function.update fleet.callers.caller i attempt.nextCaller, contents⟩ :=
  congrArg (fun caller => (⟨caller, contents⟩ : NextPool ι target))
    (Function.comp_update nextCaller fleet.process i attempt)

/-- A call of a run is a step of its call of `next`, or none that the session file notices. -/
theorem callers_step (hstore : ∀ i, (before.process i).store = store)
    (hstep : FleetStep store before after) :
    PoolRun store.next.run (SessionFileStep store) (NotBetween store) before.callers
      after.callers := by
  cases hstep with
  | @move i call next hrest reply contents hnode hundisturbed hexclusive =>
      have hsame := hstore i
      have hreads : ¬ call.IsWrite → contents = before.contents := fun hcall =>
        hnode.2.trans (nodeAfter_of_not_writes fun hwrites => hcall hwrites.isWrite)
      rw [callers_update]
      cases htrace : (before.process i).trace with
      | nil =>
          obtain ⟨hnext, hcall⟩ := nextCaller_answer_first hrest reply htrace
          have hstart : before.callers.caller i = ⟨[], 0 + 1, none⟩ := nextCaller_of_nil htrace
          rw [hreads hcall, hnext, hsame]
          exact PoolRun.start i hstart
      | cons event tail =>
          rcases next_cases htrace with ⟨-, failure, hdone⟩ |
            ⟨other, middle, more, hsteps, hmore⟩ | ⟨⟨result, hover⟩, hquiet⟩
          · rw [hdone] at hrest
            cases hrest
          · rw [hrest] at hmore
            cases hmore
            obtain ⟨hcurrent, hnext⟩ := nextCaller_answer_inside hrest reply htrace hsteps
            change before.callers.caller i = _ at hcurrent
            have hcall : FileCall store.path call := by
              have hallowed := (hsteps.calls_allowed (next_callsOnly _)).2.1
              rwa [hsame] at hallowed
            rw [hnext]
            refine .single (.move _ i ?_ ?_)
            · rw [hcurrent]
              exact .answer _ _ _ _ _ ⟨hnode, hundisturbed hcall⟩
            · rw [hcurrent]
              rintro _ ⟨⟩ hread other hother hpending
              exact hexclusive hread other hother (pending_of_nextCaller hpending)
          · have hunmoved : ((before.process i).answer hrest reply).nextCaller =
                before.callers.caller i := nextCaller_answer_after hrest reply htrace hover
            rw [hreads (hquiet _ _ hrest), hunmoved, Function.update_eq_self]
            exact .refl

/-- The runs keep their settings. -/
theorem keyPath_step {keyPath : PathBuf}
    (hkeyPath : ∀ i, (before.process i).config.keyPath = keyPath)
    (hstep : FleetStep store before after) :
    ∀ i, (after.process i).config.keyPath = keyPath := by
  cases hstep with
  | @move i call next hrest reply contents =>
      intro j
      by_cases hj : j = i
      · subst hj
        change (Function.update before.process j _ j).config.keyPath = keyPath
        rw [Function.update_self]
        exact hkeyPath j
      · change (Function.update before.process i _ j).config.keyPath = keyPath
        rw [Function.update_of_ne hj]
        exact hkeyPath j

end Simulation

/-! ## What holds of a fleet -/

section Runs

variable {ι : Type} [DecidableEq ι] {keyPath : PathBuf} {start fleet : Fleet ι target}

/-- However the runs are interleaved, their calls of `next` are interleaved so. -/
theorem callers_run (hkeyPath : ∀ i, (start.process i).config.keyPath = keyPath)
    (hrun : Relation.ReflTransGen (FleetStep (SessionIdStore.new keyPath)) start fleet) :
    (∀ i, (fleet.process i).config.keyPath = keyPath) ∧
      PoolRun (SessionIdStore.new keyPath).next.run (SessionFileStep (SessionIdStore.new keyPath))
        (NotBetween (SessionIdStore.new keyPath)) start.callers fleet.callers := by
  induction hrun with
  | refl => exact ⟨hkeyPath, .refl⟩
  | tail _ hstep ih =>
      refine ⟨keyPath_step ih.1 hstep, ih.2.trans (callers_step (fun i => ?_) hstep)⟩
      rw [store, ih.1 i]

variable [Fintype ι] {initial : ℕ}

theorem consistent_fleet (hkeyPath : ∀ i, (start.process i).config.keyPath = keyPath)
    (hstart : ∀ i, (start.process i).trace = [])
    (hinitial : storedValue start.contents = some initial)
    (hrun : Relation.ReflTransGen (FleetStep (SessionIdStore.new keyPath)) start fleet) :
    Consistent (SessionIdStore.new keyPath) initial fleet.callers := by
  have hidle : start.callers = startPool (fun _ => 1) start.contents :=
    congrArg (fun caller => (⟨caller, start.contents⟩ : NextPool ι target))
      (funext fun i => nextCaller_of_nil (hstart i))
  have hpool := (callers_run hkeyPath hrun).2
  rw [hidle] at hpool
  exact hpool.invariant (fun _ _ => consistent_step) (consistent_startPool _ hinitial)

/-- Runs that share nothing that must be unique. -/
structure Distinct (fleet : Fleet ι target) : Prop where
  ids : ∀ i j, i ≠ j → ∀ id, (fleet.process i).sessionId = some id →
    (fleet.process j).sessionId ≠ some id
  nonces : ∀ i, (fleet.process i).nonces.Nodup ∧
    ∀ j, i ≠ j → List.Disjoint (fleet.process i).nonces (fleet.process j).nonces
  datagrams : ∀ i, ((datagrams (fleet.process i).trace).map nonceBytes).Nodup ∧
    ∀ j, i ≠ j → List.Disjoint ((datagrams (fleet.process i).trace).map nonceBytes)
      ((datagrams (fleet.process j).trace).map nonceBytes)

omit [DecidableEq ι] [Fintype ι] in
/-- The session ids tell the runs apart, so everything that carries them does. -/
theorem distinct_of_ids (hids : ∀ i j, i ≠ j → ∀ id, (fleet.process i).sessionId = some id →
      (fleet.process j).sessionId ≠ some id) : Distinct fleet where
  ids := hids
  nonces i := by
    refine ⟨nodup_nonces _, fun j hij nonce hi hj => ?_⟩
    obtain ⟨id, shardIndex, hid, rfl⟩ := exists_of_mem_nonces hi
    obtain ⟨other, otherIndex, hother, heq⟩ := exists_of_mem_nonces hj
    obtain ⟨rfl, -⟩ := Crypto.deriveNonce_injective heq
    exact hids i j hij id hid hother
  datagrams i := by
    refine ⟨nodup_nonceBytes _, fun j hij bytes hi hj => ?_⟩
    obtain ⟨left, hleft, rfl⟩ := List.mem_map.mp hi
    obtain ⟨right, hright, heq⟩ := List.mem_map.mp hj
    refine hids i j hij _ (sessionId_of_mem_datagrams hleft) ?_
    rw [← (headerIndex_of_nonceBytes heq).1]
    exact sessionId_of_mem_datagrams hright

theorem distinct_of_run (hkeyPath : ∀ i, (start.process i).config.keyPath = keyPath)
    (hstart : ∀ i, (start.process i).trace = [])
    (hinitial : storedValue start.contents = some initial)
    (hrun : Relation.ReflTransGen (FleetStep (SessionIdStore.new keyPath)) start fleet) :
    Distinct fleet := by
  obtain ⟨value, -, hledger⟩ := consistent_fleet hkeyPath hstart hinitial hrun
  have hpersisted : ∀ i, persistedIds (fleet.callers.caller i) = _ :=
    fun i => persistedIds_nextCaller (fleet.process i)
  refine distinct_of_ids fun i j hij id hi hj => ?_
  refine hledger.disjoint i j hij id.raw.toNat ?_ ?_
  · rw [hpersisted i, hi]
    exact List.mem_singleton_self _
  · rw [hpersisted j, hj]
    exact List.mem_singleton_self _

/-- Runs under one key path, in any interleaving of their calls in which no run reads the
session file while another one stands between its read and its truncation: no session id, no
nonce and no datagram header is used twice, and once all runs have ended the file has counted
those with a session id. -/
theorem fleet_distinct (hkeyPath : ∀ i, (start.process i).config.keyPath = keyPath)
    (hstart : ∀ i, (start.process i).trace = [])
    (hinitial : storedValue start.contents = some initial)
    (hrun : Relation.ReflTransGen (FleetStep (SessionIdStore.new keyPath)) start fleet) :
    Distinct fleet ∧
      ((∀ i, ∃ result, (fleet.process i).rest = .done result) →
        storedValue fleet.contents =
          some (initial + ∑ i, (fleet.process i).sessionId.toList.length)) := by
  refine ⟨distinct_of_run hkeyPath hstart hinitial hrun, fun hdone => ?_⟩
  obtain ⟨value, hstage, hledger⟩ := consistent_fleet hkeyPath hstart hinitial hrun
  have hlengths : ∀ i, (persistedIds (fleet.callers.caller i)).length =
      (fleet.process i).sessionId.toList.length := fun i => by
    rw [show persistedIds (fleet.callers.caller i) = _ from
      persistedIds_nextCaller (fleet.process i), Option.toList_map, List.length_map]
  have hcount := hledger.count
  simp only [hlengths] at hcount
  rw [hcount]
  cases hstage with
  | quiet _ hvalue => exact hvalue
  | writing i raw program hcurrent hwriting =>
      obtain ⟨result, hrest⟩ := hdone i
      have houtside := outside_of_done hrest
      rw [store, (callers_run hkeyPath hrun).1 i] at houtside
      change (fleet.process i).nextCaller.current = some program at hcurrent
      rw [hcurrent] at houtside
      exact absurd houtside hwriting.not_outside

end Runs

/-! ## Two runs -/

/-- A run that has not begun. -/
def Attempt.start (crate : ReedSolomon) (config : Config) : Attempt target :=
  ⟨crate, config, [], (run crate config).run, .refl _⟩

theorem pending_start (crate : ReedSolomon) (config : Config) :
    (Attempt.start crate config : Attempt target).pending = some (.read config.keyPath) := by
  change (match (run crate config : Process target Unit).run with
    | .ask call _ => some call
    | .done _ => none) = _
  rw [run_run]

/-- One run has its next calls answered, while no other is about to truncate the file. -/
theorem exists_advance {ι : Type} [DecidableEq ι] {store : SessionIdStore}
    (fleet : Fleet ι target) (i : ι) {trace : SysTrace target}
    {program rest : Program Syscall (SysReply target) (Result Unit)} {after : FileContents}
    (hprogram : (fleet.process i).rest = program) (hsteps : Steps program trace rest)
    (hfollows : Follows (NodeStep id store.path) fleet.contents trace after)
    (hundisturbed : ∀ event ∈ trace, Undisturbed event)
    (halone : ∀ other, other ≠ i →
      (fleet.process other).pending ≠ some (.openTruncate store.path)) :
    ∃ attempt : Attempt target, attempt.crate = (fleet.process i).crate ∧
      attempt.config = (fleet.process i).config ∧
      attempt.trace = (fleet.process i).trace ++ trace ∧ attempt.rest = rest ∧
      Relation.ReflTransGen (FleetStep store) fleet
        ⟨Function.update fleet.process i attempt, after⟩ := by
  induction hsteps generalizing fleet with
  | refl program =>
      cases hfollows
      refine ⟨fleet.process i, rfl, rfl, (List.append_nil _).symm, hprogram, ?_⟩
      rw [Function.update_eq_self]
  | @ask call next reply trace rest htail ih =>
      obtain ⟨middle, hstep, hrest⟩ := hfollows
      simp only [List.forall_mem_cons] at hundisturbed
      let moved : Fleet ι target :=
        ⟨Function.update fleet.process i ((fleet.process i).answer hprogram reply), middle⟩
      have hfirst : FleetStep store fleet moved :=
        .move fleet i hprogram reply hstep (fun _ => hundisturbed.1) fun _ => halone
      have hmoved : moved.process i = (fleet.process i).answer hprogram reply :=
        Function.update_self _ _ _
      have hothers : ∀ other, other ≠ i →
          (moved.process other).pending ≠ some (.openTruncate store.path) := by
        intro other hother
        change (Function.update fleet.process i _ other).pending ≠ _
        rw [Function.update_of_ne hother]
        exact halone other hother
      obtain ⟨attempt, hcrate, hconfig, htrace, hdone, hrun⟩ :=
        ih moved (congrArg Attempt.rest hmoved) hrest hundisturbed.2 hothers
      rw [hmoved] at hcrate hconfig
      refine ⟨attempt, hcrate, hconfig, ?_, hdone, ?_⟩
      · rw [htrace, hmoved, trace_answer, List.append_assoc]
        rfl
      · change Relation.ReflTransGen (FleetStep store) moved
          ⟨Function.update (Function.update fleet.process i _) i attempt, _⟩ at hrun
        rw [Function.update_idem] at hrun
        exact .head hfirst hrun

/-- A run that has been advanced to the end of a known one is that run. -/
theorem Attempt.eq_of_advanced {attempt known : Attempt target}
    (hcrate : attempt.crate = known.crate) (hconfig : attempt.config = known.config)
    (htrace : attempt.trace = known.trace) (hrest : attempt.rest = known.rest) :
    attempt = known := by
  cases attempt
  cases known
  cases hcrate
  cases hconfig
  cases htrace
  cases hrest
  rfl

/-- Two runs side by side, starting from a key file alone. -/
theorem exists_plainFleet :
    ∃ start fleet : Fleet (Fin 2) Target.release64,
      (∀ i, (start.process i).config.keyPath = sampleKeyPath) ∧
      (∀ i, (start.process i).trace = []) ∧ storedValue start.contents = some 0 ∧
      Relation.ReflTransGen (FleetStep (SessionIdStore.new sampleKeyPath)) start fleet ∧
      PlainRun (fleet.process 0) (sampleConfig sampleKeyPath) 1 ∧
      PlainRun (fleet.process 1) (sampleConfig sampleKeyPath) 2 := by
  obtain ⟨first, one, hone, hfirst, hfirstRun⟩ :=
    Ready.exists_plainRun (sampleConfig sampleKeyPath) rfl rfl ready_sampleFiles (by omega)
  obtain ⟨second, two, htwo, hsecond, hsecondRun⟩ :=
    Ready.exists_plainRun (sampleConfig sampleKeyPath) rfl rfl (ready_sampleFiles.persist one)
      (by omega)
  obtain rfl : one = 1 := UInt16.toNat_inj.mp hone
  obtain rfl : two = 2 := UInt16.toNat_inj.mp htwo
  have hfirstSteps := first.steps
  have hsecondSteps := second.steps
  rw [hfirst.crate_eq, hfirst.config_eq] at hfirstSteps
  rw [hsecond.crate_eq, hsecond.config_eq] at hsecondSteps
  let start : Fleet (Fin 2) Target.release64 :=
    ⟨fun _ => .start copyingCrate (sampleConfig sampleKeyPath),
      sampleFiles (SessionIdStore.new sampleKeyPath).path⟩
  obtain ⟨left, hleftCrate, hleftConfig, hleft, hleftRest, hleftRun⟩ :=
    exists_advance start 0 rfl hfirstSteps
      (follows_node hfirstRun.follows (SessionIdStore.new sampleKeyPath).path)
      hfirstRun.undisturbed fun other _ => by
        rw [show (start.process other).pending = _ from pending_start _ _]
        exact nofun
  obtain rfl : left = first := Attempt.eq_of_advanced (hleftCrate.trans hfirst.crate_eq.symm)
    (hleftConfig.trans hfirst.config_eq.symm) (hleft.trans (List.nil_append _)) hleftRest
  have hleftPending : left.pending = none := by
    rw [Attempt.pending, hfirst.rest_eq]
  let files : PathBuf → FileContents := Function.update sampleFiles
    (SessionIdStore.new sampleKeyPath).path (some (u16ToBeBytes 1).toList)
  let halfway : Fleet (Fin 2) Target.release64 :=
    ⟨Function.update start.process 0 left, files (SessionIdStore.new sampleKeyPath).path⟩
  obtain ⟨right, hrightCrate, hrightConfig, hright, hrightRest, hrightRun⟩ :=
    exists_advance halfway 1 rfl hsecondSteps
      (follows_node hsecondRun.follows (SessionIdStore.new sampleKeyPath).path)
      hsecondRun.undisturbed fun other hother => by
        obtain rfl : other = 0 := by omega
        rw [show (halfway.process 0).pending = _ from hleftPending]
        exact nofun
  obtain rfl : right = second := Attempt.eq_of_advanced
    (hrightCrate.trans hsecond.crate_eq.symm) (hrightConfig.trans hsecond.config_eq.symm)
    (hright.trans (List.nil_append _)) hrightRest
  exact ⟨start, _, fun _ => rfl, fun _ => rfl, rfl, hleftRun.trans hrightRun, hfirst, hsecond⟩

theorem fleet_distinct_sample :
    ∃ fleet : Fleet (Fin 2) Target.release64,
      (∀ i, datagrams (fleet.process i).trace ≠ []) ∧ Distinct fleet ∧
      ((∀ i, ∃ result, (fleet.process i).rest = .done result) →
        storedValue fleet.contents =
          some (0 + ∑ i, (fleet.process i).sessionId.toList.length)) := by
  obtain ⟨start, fleet, hkeyPath, hstart, hinitial, hrun, hfirst, hsecond⟩ := exists_plainFleet
  obtain ⟨packet, hpacket⟩ := hfirst.exists_datagram
  obtain ⟨other, hother⟩ := hsecond.exists_datagram
  exact ⟨fleet, Fin.forall_fin_two.mpr ⟨List.ne_nil_of_mem hpacket, List.ne_nil_of_mem hother⟩,
    fleet_distinct hkeyPath hstart hinitial hrun⟩

end Fiudp.Run
