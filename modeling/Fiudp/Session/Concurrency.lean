import Fiudp.Core.Interleaving
import Fiudp.Core.Tickets
import Fiudp.Session.Atomicity

/-!
# Concurrent callers of `next`

The read and the write of the counter are separate file operations.  If no
process reads while another one is between its read and its truncation, then no
two calls return one id and no update is lost; without this condition two
processes get the same id.
-/

namespace Fiudp.Session

open ByteLayout Interaction Os SessionIdStore

variable {target : Target}

abbrev NextCaller (target : Target) := Caller Syscall (SysReply target) (Result SessionId)

abbrev NextPool (ι : Type) (target : Target) :=
  Pool ι Syscall (SysReply target) (Result SessionId) FileContents

section Ids

/-- The value of a successful result. -/
def successId : Result SessionId → Option ℕ
  | .ok id => some id.raw.toNat
  | .error _ => none

/-- The ids returned to a process. -/
def returnedIds (caller : NextCaller target) : List ℕ :=
  caller.returned.filterMap successId

/-- The ids a process has persisted, returned or about to be returned. -/
def persistedIds (caller : NextCaller target) : List ℕ :=
  caller.results.filterMap successId

theorem returnedIds_leading (caller : NextCaller target) :
    returnedIds caller <+: persistedIds caller := by
  rw [returnedIds, persistedIds, Caller.results, List.filterMap_append]
  exact List.prefix_append _ _

theorem persistedIds_of_finished {caller : NextCaller target} (hfinished : caller.Finished) :
    persistedIds caller = returnedIds caller := by
  rw [returnedIds, persistedIds, Caller.results, hfinished.2, List.append_nil]

end Ids

section Steps

variable (self : SessionIdStore)

/-- A file step of the session file, without failures. -/
def SessionFileStep (before : FileContents) (event : Event Syscall (SysReply target))
    (after : FileContents) : Prop :=
  NodeStep id self.path before event after ∧ Undisturbed event

/-- A read is permitted when no other process is about to truncate, that is, stands
between its read and its truncation. -/
def NotBetween {ι : Type} (pool : NextPool ι target) (i : ι) (call : Syscall) : Prop :=
  call = .read self.path →
    ∀ other, other ≠ i → (pool.caller other).pending ≠ some (.openTruncate self.path)

/-- Processes that make the given numbers of calls, on a file with the given
contents. -/
def startPool {ι : Type} (calls : ι → ℕ) (contents : FileContents) : NextPool ι target :=
  ⟨fun i => .idle (calls i), contents⟩

/-! ## The invariant -/

/-- The process is outside the part of a call that changes the file. -/
inductive Outside : Option (Remaining target) → Prop
  | idle : Outside none
  | starting : Outside (some self.next.run)
  | done (result : Result SessionId) : Outside (some (.done result))

/-- Past the read, where the process holds the value after `value`. -/
inductive Writing (value : ℕ) (raw : UInt16) : Remaining target → FileContents → Prop
  | decided {contents : FileContents} :
      storedValue contents = some value → Writing value raw (self.truncate raw) contents
  | truncated : Writing value raw (self.writeHigh raw) (some [])
  | highWritten : Writing value raw (self.writeLow raw) (some [highByte raw])

/-- Either the file holds the value, or one process is replacing it by the next
one. -/
inductive Stage {ι : Type} (value : ℕ) (pool : NextPool ι target) : Prop
  | quiet : (∀ i, Outside self (pool.caller i).current) →
      storedValue pool.state = some value → Stage value pool
  | writing (i : ι) (raw : UInt16) (program : Remaining target) :
      (pool.caller i).current = some program → Writing self value raw program pool.state →
      raw.toNat = value + 1 → (∀ other, other ≠ i → Outside self (pool.caller other).current) →
        Stage value pool

/-- The ids persisted so far are those after the initial value. -/
def Consistent {ι : Type} [Fintype ι] (initial : ℕ) (pool : NextPool ι target) : Prop :=
  ∃ value, Stage self value pool ∧
    Tickets.Ledger initial value fun i => persistedIds (pool.caller i)

variable {self}

theorem Writing.not_outside {value : ℕ} {raw : UInt16} {program : Remaining target}
    {contents : FileContents} (hwriting : Writing self value raw program contents) :
    ¬ Outside self (some program) := by
  have hread : ∀ program' : Remaining target, program' = self.next.run →
      ∃ next, program' = .ask (.read self.path) next := by
    rintro _ rfl
    exact ⟨_, next_run self⟩
  intro houtside
  generalize hprogram : some program = current at houtside
  cases houtside with
  | idle => cases hprogram
  | starting =>
      obtain ⟨next, hnext⟩ := hread _ (Option.some.inj hprogram)
      cases hwriting <;> cases hnext
  | done result => cases hwriting <;> cases hprogram

theorem Writing.not_done {value : ℕ} {raw : UInt16} {program : Remaining target}
    {contents : FileContents} (hwriting : Writing self value raw program contents)
    (id : SessionId) : program ≠ .done (.ok id) := by
  cases hwriting <;> simp [truncate, writeHigh, writeLow]

/-- Past the truncation a reader finds fewer than two bytes. -/
theorem Writing.short {value : ℕ} {raw : UInt16} {program : Remaining target}
    {contents : FileContents} (hwriting : Writing self value raw program contents)
    (hpast : ∀ next, program ≠ .ask (.openTruncate self.path) next) :
    ∃ bytes, contents = some bytes ∧ bytes.length ≠ 2 := by
  cases hwriting with
  | decided => exact absurd rfl (hpast _)
  | truncated => exact ⟨[], rfl, by simp⟩
  | highWritten => exact ⟨[highByte raw], rfl, by simp⟩

section Pool

variable {ι : Type} [DecidableEq ι] {value : ℕ} {pool : NextPool ι target} {k : ι}
  {caller : NextCaller target}

theorem outside_update (houtside : Outside self caller.current) {i : ι}
    (hothers : i ≠ k → Outside self (pool.caller i).current) :
    Outside self (Function.update pool.caller k caller i).current := by
  by_cases hi : i = k
  · subst hi
    rwa [Function.update_self]
  · rw [Function.update_of_ne hi]
    exact hothers hi

/-- A process outside the writing part moves without touching the file. -/
theorem Stage.move_outside (hstage : Stage self value pool)
    (hbefore : Outside self (pool.caller k).current) (hafter : Outside self caller.current) :
    Stage self value ⟨Function.update pool.caller k caller, pool.state⟩ := by
  cases hstage with
  | quiet hall hvalue =>
      exact .quiet (fun i => outside_update hafter fun _ => hall i) hvalue
  | writing i raw program hcurrent hwriting hraw hothers =>
      have hne : i ≠ k := by
        rintro rfl
        rw [hcurrent] at hbefore
        exact hwriting.not_outside hbefore
      have hsame : Function.update pool.caller k caller i = pool.caller i :=
        Function.update_of_ne hne _ _
      exact .writing i raw program ((congrArg Caller.current hsame).trans hcurrent) hwriting
        hraw fun other hother => outside_update hafter fun _ => hothers other hother

variable [Fintype ι] {initial : ℕ}

omit [Fintype ι] in
theorem persistedIds_update :
    (fun i => persistedIds (Function.update pool.caller k caller i)) =
      Function.update (fun i => persistedIds (pool.caller i)) k (persistedIds caller) :=
  Function.comp_update persistedIds pool.caller k caller

/-- Outside the writing part nothing is persisted. -/
theorem Consistent.move_outside (hconsistent : Consistent self initial pool)
    (hbefore : Outside self (pool.caller k).current) (hafter : Outside self caller.current)
    (hids : persistedIds caller = persistedIds (pool.caller k)) :
    Consistent self initial ⟨Function.update pool.caller k caller, pool.state⟩ := by
  obtain ⟨value, hstage, hledger⟩ := hconsistent
  refine ⟨value, hstage.move_outside hbefore hafter, ?_⟩
  rw [persistedIds_update, hids, Function.update_eq_self]
  exact hledger

/-! ## One step of one process -/

theorem Outside.eq_next {call : Syscall} {next : SysReply target call → Remaining target}
    (houtside : Outside self (some (.ask call next))) : .ask call next = self.next.run := by
  cases houtside
  rfl

omit [DecidableEq ι] [Fintype ι] in
theorem persistedIds_unfinished (returned : List (Result SessionId)) (callsLeft : ℕ)
    {program : Remaining target} (hdone : ∀ id, program ≠ .done (.ok id)) :
    persistedIds ⟨returned, callsLeft, some program⟩ = returned.filterMap successId := by
  rw [persistedIds, Caller.results, List.filterMap_append]
  cases program with
  | ask call next => exact List.append_nil _
  | done result =>
      cases result with
      | ok id => exact absurd rfl (hdone id)
      | error failure => exact List.append_nil _

variable {returned : List (Result SessionId)} {callsLeft : ℕ} {raw : UInt16}

omit [DecidableEq ι] [Fintype ι] in
theorem persistedIds_failed (failure : Failure) :
    persistedIds (⟨returned, callsLeft, some (.done (.error failure))⟩ : NextCaller target) =
      returned.filterMap successId :=
  persistedIds_unfinished _ _ nofun

omit [DecidableEq ι] [Fintype ι] in
theorem persistedIds_of_ask {call : Syscall} {next : SysReply target call → Remaining target}
    (hcaller : pool.caller k = ⟨returned, callsLeft, some (.ask call next)⟩) :
    persistedIds (pool.caller k) = returned.filterMap successId := by
  rw [hcaller]
  exact persistedIds_unfinished _ _ nofun

/-- The process goes on writing. -/
theorem consistent_of_writing {program : Remaining target} {contents : FileContents}
    (hwriting : Writing self value raw program contents) (hraw : raw.toNat = value + 1)
    (hothers : ∀ other, other ≠ k → Outside self (pool.caller other).current)
    (hledger : Tickets.Ledger initial value fun i => persistedIds (pool.caller i))
    (hids : persistedIds (pool.caller k) = returned.filterMap successId) :
    Consistent self initial
      ⟨Function.update pool.caller k ⟨returned, callsLeft, some program⟩, contents⟩ := by
  refine ⟨value, .writing k raw program ?_ hwriting hraw ?_, ?_⟩
  · change (Function.update pool.caller k _ k).current = _
    rw [Function.update_self]
  · intro other hother
    change Outside self (Function.update pool.caller k _ other).current
    rw [Function.update_of_ne hother]
    exact hothers other hother
  · have hsame : persistedIds (⟨returned, callsLeft, some program⟩ : NextCaller target) =
        persistedIds (pool.caller k) :=
      (persistedIds_unfinished _ _ hwriting.not_done).trans hids.symm
    change Tickets.Ledger initial value fun i => persistedIds (Function.update pool.caller k _ i)
    rw [persistedIds_update, hsame, Function.update_eq_self]
    exact hledger

/-- A read of a file that holds a number. -/
theorem consistent_of_read {reply : Except ErrorKind (ByteVec target)}
    (hall : ∀ i, Outside self (pool.caller i).current)
    (hvalue : storedValue pool.state = some value)
    (hledger : Tickets.Ledger initial value fun i => persistedIds (pool.caller i))
    (hids : persistedIds (pool.caller k) = returned.filterMap successId)
    (hallows : NodeAllows id self.path pool.state ⟨.read self.path, reply⟩)
    (hundisturbed : Undisturbed (⟨.read self.path, reply⟩ : Event Syscall (SysReply target))) :
    Consistent self initial ⟨Function.update pool.caller k ⟨returned, callsLeft,
      some (match self.decision reply with
        | .ok raw => self.truncate raw
        | .error failure => .done (.error failure))⟩, pool.state⟩ := by
  rcases decision_of_undisturbed hvalue hallows hundisturbed with
    ⟨-, hoverflow⟩ | ⟨raw, hok, hraw⟩
  · rw [hoverflow]
    apply Consistent.move_outside ⟨value, .quiet hall hvalue, hledger⟩ (hall k) (.done _)
    exact (persistedIds_failed _).trans hids.symm
  · rw [hok]
    exact consistent_of_writing (.decided hvalue) hraw (fun other _ => hall other) hledger hids

/-- A read of a file that is being replaced. -/
theorem decision_of_short {reply : Except ErrorKind (ByteVec target)} {bytes : List UInt8}
    (hshort : bytes.length ≠ 2)
    (hallows : NodeAllows id self.path (some bytes) ⟨.read self.path, reply⟩)
    (hundisturbed : Undisturbed (⟨.read self.path, reply⟩ : Event Syscall (SysReply target))) :
    self.decision reply = .error (.error .invalidSessionFile) := by
  cases reply with
  | ok read =>
      have hread : bytes = read.val := Option.some.inj (hallows rfl)
      rw [hread] at hshort
      exact decision_of_current_error (current_malformed hshort)
  | error kind =>
      cases hundisturbed
      cases hallows rfl

/-- The writing process takes its next file step; after the second byte the file
holds the next value. -/
theorem consistent_of_write {call : Syscall} {next : SysReply target call → Remaining target}
    {reply : SysReply target call} {after : FileContents}
    (hcaller : pool.caller k = ⟨returned, callsLeft, some (.ask call next)⟩)
    (hwriting : Writing self value raw (.ask call next) pool.state)
    (hraw : raw.toNat = value + 1)
    (hothers : ∀ other, other ≠ k → Outside self (pool.caller other).current)
    (hledger : Tickets.Ledger initial value fun i => persistedIds (pool.caller i))
    (hstep : SessionFileStep self pool.state ⟨call, reply⟩ after) :
    Consistent self initial
      ⟨Function.update pool.caller k ⟨returned, callsLeft, some (next reply)⟩, after⟩ := by
  have hids := persistedIds_of_ask hcaller
  obtain ⟨⟨-, hafter⟩, hundisturbed⟩ := hstep
  generalize hprogram : Program.ask call next = program at hwriting
  generalize hstate : pool.state = contents at hwriting hafter
  cases hwriting with
  | decided hvalue =>
      cases hprogram
      cases hundisturbed
      have htruncated : after = some [] := hafter.trans (if_pos rfl)
      rw [htruncated]
      exact consistent_of_writing .truncated hraw hothers hledger hids
  | truncated =>
      cases hprogram
      cases hundisturbed
      have hhigh : after = some [highByte raw] := hafter.trans (if_pos rfl)
      rw [hhigh]
      exact consistent_of_writing .highWritten hraw hothers hledger hids
  | highWritten =>
      cases hprogram
      cases hundisturbed
      have hboth : after = some (u16ToBeBytes raw).toList := hafter.trans (if_pos rfl)
      rw [hboth]
      refine ⟨value + 1, .quiet ?_ ?_, ?_⟩
      · intro i
        exact outside_update (.done _) (hothers i)
      · rw [← hraw]
        exact storedValue_u16ToBeBytes raw
      · have hissued : persistedIds (⟨returned, callsLeft, some (.done (.ok ⟨raw⟩))⟩ :
            NextCaller target) = persistedIds (pool.caller k) ++ [value + 1] := by
          rw [hids, ← hraw]
          exact List.filterMap_append
        change Tickets.Ledger initial (value + 1) fun i =>
          persistedIds (Function.update pool.caller k _ i)
        rw [persistedIds_update, hissued]
        exact hledger.issue k

/-- Another process reads while one is writing, and finds a malformed file. -/
theorem consistent_of_short {bytes : List UInt8} {reply : Except ErrorKind (ByteVec target)}
    (hconsistent : Consistent self initial pool)
    (hcaller : pool.caller k = ⟨returned, callsLeft, some self.next.run⟩)
    (hstate : pool.state = some bytes) (hshort : bytes.length ≠ 2)
    (hallows : NodeAllows id self.path pool.state ⟨.read self.path, reply⟩)
    (hundisturbed : Undisturbed (⟨.read self.path, reply⟩ : Event Syscall (SysReply target))) :
    Consistent self initial ⟨Function.update pool.caller k ⟨returned, callsLeft,
      some (match self.decision reply with
        | .ok raw => self.truncate raw
        | .error failure => .done (.error failure))⟩, pool.state⟩ := by
  rw [hstate] at hallows
  rw [decision_of_short hshort hallows hundisturbed]
  apply hconsistent.move_outside
  · rw [hcaller]
    exact .starting
  · exact .done _
  · rw [next_run] at hcaller
    exact (persistedIds_failed _).trans (persistedIds_of_ask hcaller).symm

/-- Every permitted step keeps the ledger of the ids. -/
theorem consistent_step {before after : NextPool ι target}
    (hstep : PoolStep self.next.run (SessionFileStep self) (NotBetween self) before after)
    (hconsistent : Consistent self initial before) : Consistent self initial after := by
  cases hstep with
  | @move k _ state hcaller hpermitted =>
      generalize hbefore : before.caller k = caller at hcaller hpermitted
      cases hcaller with
      | start returned callsLeft =>
          apply hconsistent.move_outside
          · rw [hbefore]
            exact .idle
          · exact .starting
          · rw [hbefore, next_run]
            simp [persistedIds, Caller.results]
      | finish returned callsLeft result =>
          apply hconsistent.move_outside
          · rw [hbefore]
            exact .done result
          · exact .idle
          · rw [hbefore]
            simp [persistedIds, Caller.results]
      | answer returned callsLeft call next reply hanswer =>
          have hids := persistedIds_of_ask hbefore
          have hcurrent := congrArg Caller.current hbefore
          obtain ⟨value, hstage, hledger⟩ := hconsistent
          cases hstage with
          | quiet hall hvalue =>
              have hnext := Outside.eq_next (hcurrent ▸ hall k)
              rw [next_run] at hnext
              cases hnext
              obtain ⟨⟨hallows, hsame⟩, hundisturbed⟩ := hanswer
              have hstate : state = before.state := hsame
              subst hstate
              exact consistent_of_read hall hvalue hledger hids hallows hundisturbed
          | writing i raw program hwriter hwriting hraw hothers =>
              by_cases hi : k = i
              · subst hi
                cases hcurrent.symm.trans hwriter
                exact consistent_of_write hbefore hwriting hraw hothers hledger hanswer
              · have hnext := Outside.eq_next (hcurrent ▸ hothers k hi)
                have hpool : Consistent self initial before :=
                  ⟨value, .writing i raw program hwriter hwriting hraw hothers, hledger⟩
                rw [hnext] at hbefore
                rw [next_run] at hnext
                cases hnext
                have hreader := hpermitted _ rfl rfl i (Ne.symm hi)
                have hpast : ∀ next, program ≠ .ask (.openTruncate self.path) next := by
                  rintro next rfl
                  rw [Caller.pending, hwriter] at hreader
                  exact hreader rfl
                obtain ⟨bytes, hbytes, hshort⟩ := hwriting.short hpast
                obtain ⟨⟨hallows, hsame⟩, hundisturbed⟩ := hanswer
                have hstate : state = before.state := hsame
                subst hstate
                exact consistent_of_short hpool hbefore hbytes hshort hallows hundisturbed

omit [DecidableEq ι] in
theorem consistent_startPool (calls : ι → ℕ) {contents : FileContents}
    (hinitial : storedValue contents = some initial) :
    Consistent self initial (startPool calls contents : NextPool ι target) :=
  ⟨initial, .quiet (fun _ => .idle) hinitial, Tickets.ledger_nil initial⟩

omit [DecidableEq ι] in
theorem Consistent.storedValue_of_finished (hconsistent : Consistent self initial pool)
    (hfinished : ∀ i, (pool.caller i).Finished) :
    storedValue pool.state = some (initial + ∑ i, (returnedIds (pool.caller i)).length) := by
  obtain ⟨value, hstage, hledger⟩ := hconsistent
  have hcount := hledger.count
  simp only [persistedIds_of_finished (hfinished _)] at hcount
  rw [hcount]
  cases hstage with
  | quiet hall hvalue => exact hvalue
  | writing i raw program hcurrent =>
      rw [(hfinished i).2] at hcurrent
      cases hcurrent

end Pool

/-! ## A read between another process's read and its truncation -/

section Shared

variable {ι : Type} [DecidableEq ι] {pool : NextPool ι target}

/-- The process has persisted the value or is about to: without failures it returns it. -/
def Destined (self : SessionIdStore) (raw : UInt16) (caller : NextCaller target) : Prop :=
  raw.toNat ∈ persistedIds caller ∨ caller.current = some (self.truncate raw) ∨
    caller.current = some (self.writeHigh raw) ∨ caller.current = some (self.writeLow raw)

/-- Two processes are going to return one value. -/
def Shared (self : SessionIdStore) (pool : NextPool ι target) : Prop :=
  ∃ raw i j, i ≠ j ∧ Destined self raw (pool.caller i) ∧ Destined self raw (pool.caller j)

omit [DecidableEq ι] in
theorem mem_persistedIds_answered {returned : List (Result SessionId)} {callsLeft : ℕ}
    {call : Syscall} {next : SysReply target call → Remaining target} {value : ℕ}
    (hmem : value ∈ persistedIds (⟨returned, callsLeft, some (.ask call next)⟩ :
      NextCaller target)) (current : Option (Remaining target)) :
    value ∈ persistedIds (⟨returned, callsLeft, current⟩ : NextCaller target) := by
  rw [persistedIds_unfinished _ _ (by simp)] at hmem
  rw [persistedIds, Caller.results, List.filterMap_append]
  exact List.mem_append_left _ hmem

theorem destined_step {raw : UInt16} {before after : NextCaller target}
    {contents left : FileContents}
    (hstep : CallerStep self.next.run (SessionFileStep self) before contents after left)
    (hdestined : Destined self raw before) : Destined self raw after := by
  cases hstep with
  | start returned callsLeft =>
      rcases hdestined with hmem | ⟨⟨⟩⟩ | ⟨⟨⟩⟩ | ⟨⟨⟩⟩
      left
      rw [next_run, persistedIds_unfinished _ _ (by simp)]
      simpa [persistedIds, Caller.results] using hmem
  | finish returned callsLeft result =>
      rcases hdestined with hmem | hcurrent | hcurrent | hcurrent
      · left
        simpa [persistedIds, Caller.results] using hmem
      all_goals cases hcurrent
  | answer returned callsLeft call next reply hanswer =>
      obtain ⟨-, hundisturbed⟩ := hanswer
      rcases hdestined with hmem | hcurrent | hcurrent | hcurrent
      · exact .inl (mem_persistedIds_answered hmem _)
      · cases hcurrent
        cases hundisturbed
        exact .inr (.inr (.inl rfl))
      · cases hcurrent
        cases hundisturbed
        exact .inr (.inr (.inr rfl))
      · cases hcurrent
        cases hundisturbed
        left
        simp [persistedIds, Caller.results, successId]

theorem shared_step {permitted : NextPool ι target → ι → Syscall → Prop}
    {before after : NextPool ι target}
    (hstep : PoolStep self.next.run (SessionFileStep self) permitted before after)
    (hshared : Shared self before) : Shared self after := by
  obtain ⟨raw, i, j, hij, hi, hj⟩ := hshared
  cases hstep with
  | @move k caller state hcaller _ =>
      have hkeeps : ∀ l, Destined self raw (before.caller l) →
          Destined self raw (Function.update before.caller k caller l) := by
        intro l hl
        by_cases hlk : l = k
        · subst hlk
          rw [Function.update_self]
          exact destined_step hcaller hl
        · rwa [Function.update_of_ne hlk]
      exact ⟨raw, i, j, hij, hkeeps i hi, hkeeps j hj⟩

/-- A finished process has returned what it was destined for. -/
theorem Destined.mem_returnedIds {raw : UInt16} {caller : NextCaller target}
    (hdestined : Destined self raw caller) (hfinished : caller.Finished) :
    raw.toNat ∈ returnedIds caller := by
  rw [← persistedIds_of_finished hfinished]
  rcases hdestined with hmem | hcurrent | hcurrent | hcurrent
  · exact hmem
  all_goals cases hcurrent.symm.trans hfinished.2

omit [DecidableEq ι] in
theorem exists_of_pending {caller : NextCaller target} {call : Syscall}
    (hpending : caller.pending = some call) :
    ∃ next, caller.current = some (.ask call next) := by
  obtain ⟨returned, callsLeft, current⟩ := caller
  cases current with
  | none => cases hpending
  | some program =>
      cases program with
      | done result => cases hpending
      | ask other next =>
          cases hpending
          exact ⟨next, rfl⟩

/-- A process that stands before its truncation holds the value after that of the file, and no
other one is changing the file. -/
theorem Consistent.decided [Fintype ι] {initial : ℕ} {i : ι}
    (hconsistent : Consistent self initial pool)
    (hpending : (pool.caller i).pending = some (.openTruncate self.path)) :
    ∃ value raw, (pool.caller i).current = some (self.truncate raw) ∧
      storedValue pool.state = some value ∧ raw.toNat = value + 1 ∧
        ∀ other, other ≠ i → Outside self (pool.caller other).current := by
  obtain ⟨truncation, hholds⟩ := exists_of_pending hpending
  have hinside : ¬ Outside self (pool.caller i).current := by
    intro houtside
    rw [hholds] at houtside
    have hnext := houtside.eq_next
    rw [next_run] at hnext
    cases hnext
  obtain ⟨value, hstage, -⟩ := hconsistent
  cases hstage with
  | quiet hall => exact absurd (hall i) hinside
  | writing writer raw program hcurrent hwriting hraw hothers =>
      have hwriter : writer = i := by
        by_contra hne
        exact hinside (hothers i (Ne.symm hne))
      subst hwriter
      generalize pool.state = state at hwriting ⊢
      cases hwriting with
      | decided hvalue => exact ⟨value, raw, hcurrent, hvalue, hraw, hothers⟩
      | truncated | highWritten => cases hcurrent.symm.trans hholds

/-- A value has one successor. -/
theorem decision_of_decided {value : ℕ} {raw : UInt16} {contents : FileContents}
    {reply : Except ErrorKind (ByteVec target)} (hvalue : storedValue contents = some value)
    (hraw : raw.toNat = value + 1)
    (hallows : NodeAllows id self.path contents ⟨.read self.path, reply⟩)
    (hundisturbed : Undisturbed (⟨.read self.path, reply⟩ : Event Syscall (SysReply target))) :
    self.decision reply = .ok raw := by
  rcases decision_of_undisturbed hvalue hallows hundisturbed with ⟨hfull, -⟩ | ⟨same, hok, hsame⟩
  · have hlt := raw.toNat_lt
    omega
  · rwa [← UInt16.toNat_inj.mp (hsame.trans hraw.symm)]

/-- While one process holds the value it has decided on, another one that reads decides on the
same value. -/
theorem shared_of_between [Fintype ι] {initial : ℕ} {k other : ι} {caller : NextCaller target}
    {contents : FileContents} (hconsistent : Consistent self initial pool)
    (hreads : (pool.caller k).pending = some (.read self.path)) (hother : other ≠ k)
    (hbetween : (pool.caller other).pending = some (.openTruncate self.path))
    (hstep : CallerStep self.next.run (SessionFileStep self) (pool.caller k) pool.state
      caller contents) :
    Shared self ⟨Function.update pool.caller k caller, contents⟩ := by
  obtain ⟨value, raw, hholds, hvalue, hraw, hothers⟩ := hconsistent.decided hbetween
  obtain ⟨reading, hstarted⟩ := exists_of_pending hreads
  have hnext := (hstarted ▸ hothers k hother.symm).eq_next
  have hreader : Destined self raw caller := by
    generalize pool.caller k = reader at hstep hstarted
    cases hstep with
    | start | finish => cases hstarted
    | answer returned callsLeft call next reply hanswer =>
        cases hstarted
        rw [next_run] at hnext
        cases hnext
        obtain ⟨⟨hallows, -⟩, hundisturbed⟩ := hanswer
        right
        left
        beta_reduce
        rw [decision_of_decided hvalue hraw hallows hundisturbed]
  refine ⟨raw, other, k, hother, ?_, ?_⟩
  · change Destined self raw (Function.update pool.caller k caller other)
    rw [Function.update_of_ne hother]
    exact .inr (.inl hholds)
  · change Destined self raw (Function.update pool.caller k caller k)
    rwa [Function.update_self]

/-- A run keeps to the condition, or some processes are going to return one value. -/
theorem keeps_or_shares [Fintype ι] {calls : ι → ℕ} {contents : FileContents} {initial : ℕ}
    (hinitial : storedValue contents = some initial)
    (hrun : PoolRun self.next.run (SessionFileStep self) (fun _ _ _ => True)
      (startPool calls contents) pool) :
    PoolRun self.next.run (SessionFileStep self) (NotBetween self) (startPool calls contents)
      pool ∨ Shared self pool := by
  induction hrun with
  | refl => exact .inl .refl
  | @tail before after _ hstep ih =>
      rcases ih with hkeeps | hshared
      · cases hstep with
        | @move k caller state hcaller _ =>
            by_cases hpermitted : ∀ call, (before.caller k).pending = some call →
                NotBetween self before k call
            · exact .inl (hkeeps.tail (.move before k hcaller hpermitted))
            · right
              simp only [NotBetween, not_forall, not_not] at hpermitted
              obtain ⟨call, hreads, rfl, other, hother, hbetween⟩ := hpermitted
              exact shared_of_between (hkeeps.invariant (fun _ _ => consistent_step)
                (consistent_startPool calls hinitial)) hreads hother hbetween hcaller
      · exact .inr (shared_step hstep hshared)

end Shared

/-! ## The counter under concurrent calls -/

variable {ι : Type} [DecidableEq ι] [Fintype ι]

theorem disjoint_of_run {store : SessionIdStore} {calls : ι → ℕ} {contents : FileContents}
    {initial : ℕ} {pool : NextPool ι target} (hinitial : storedValue contents = some initial)
    (hrun : PoolRun store.next.run (SessionFileStep store) (NotBetween store)
      (startPool calls contents) pool) (i j : ι) (hij : i ≠ j) :
    ∀ id ∈ returnedIds (pool.caller i), id ∉ returnedIds (pool.caller j) := by
  obtain ⟨value, -, hledger⟩ : Consistent store initial pool :=
    hrun.invariant (fun _ _ => consistent_step) (consistent_startPool calls hinitial)
  intro id hi hj
  exact hledger.disjoint i j hij id ((returnedIds_leading _).subset hi)
    ((returnedIds_leading _).subset hj)

/-- If no process reads while another one is between its read and its truncation,
then no id is returned twice, and no update is lost. -/
theorem next_concurrent (store : SessionIdStore) {calls : ι → ℕ} {contents : FileContents}
    {initial : ℕ} {pool : NextPool ι target}
    (hinitial : storedValue contents = some initial)
    (hrun : PoolRun store.next.run (SessionFileStep store) (NotBetween store)
      (startPool calls contents) pool) :
    (∀ i, (returnedIds (pool.caller i)).Nodup) ∧
      (∀ i j, i ≠ j → ∀ id ∈ returnedIds (pool.caller i), id ∉ returnedIds (pool.caller j)) ∧
      ((∀ i, (pool.caller i).Finished) →
        storedValue pool.state = some (initial + ∑ i, (returnedIds (pool.caller i)).length)) := by
  have hconsistent : Consistent store initial pool :=
    hrun.invariant (fun _ _ => consistent_step) (consistent_startPool calls hinitial)
  obtain ⟨value, -, hledger⟩ := id hconsistent
  refine ⟨fun i => ?_, disjoint_of_run hinitial hrun, hconsistent.storedValue_of_finished⟩
  exact (hledger.nodup i).sublist (returnedIds_leading _).sublist

/-- Of the runs in which all processes finish, no other ones keep the ids apart. -/
theorem keeps_iff_disjoint (store : SessionIdStore) {calls : ι → ℕ} {contents : FileContents}
    {initial : ℕ} {pool : NextPool ι target} (hinitial : storedValue contents = some initial)
    (hrun : PoolRun store.next.run (SessionFileStep store) (fun _ _ _ => True)
      (startPool calls contents) pool) (hfinished : ∀ i, (pool.caller i).Finished) :
    PoolRun store.next.run (SessionFileStep store) (NotBetween store) (startPool calls contents)
        pool ↔
      ∀ i j, i ≠ j → ∀ id ∈ returnedIds (pool.caller i), id ∉ returnedIds (pool.caller j) := by
  constructor
  · exact disjoint_of_run hinitial
  · intro hdisjoint
    rcases keeps_or_shares hinitial hrun with hkeeps | ⟨raw, i, j, hij, hi, hj⟩
    · exact hkeeps
    · exact absurd (hj.mem_returnedIds (hfinished j))
        (hdisjoint i j hij _ (hi.mem_returnedIds (hfinished i)))

end Steps

section Sample

/-! ## Two processes whose calls overlap -/

/-- The first call of one process, up to its truncation of the file. -/
def claimOne : SysTrace Target.release64 :=
  [⟨.read sampleStore.path, .error .notFound⟩, ⟨.openTruncate sampleStore.path, .ok ()⟩]

def landOne : SysTrace Target.release64 :=
  [⟨.writeByte sampleStore.path 0 0, .ok ()⟩, ⟨.writeByte sampleStore.path 1 1, .ok ()⟩]

def takeTwo : SysTrace Target.release64 :=
  [⟨.read sampleStore.path, .ok ⟨[0, 1], by decide⟩⟩, ⟨.openTruncate sampleStore.path, .ok ()⟩,
    ⟨.writeByte sampleStore.path 0 0, .ok ()⟩, ⟨.writeByte sampleStore.path 1 2, .ok ()⟩]

theorem steps_claimOne : Steps sampleStore.next.run claimOne (sampleStore.writeHigh 1) := by
  rw [next_run]
  exact .ask _ _ _ (.ask _ _ _ (.refl _))

theorem steps_landOne : Steps (sampleStore.writeHigh 1) landOne (.done (.ok ⟨1⟩)) :=
  .ask _ _ _ (.ask _ _ _ (.refl _))

theorem returns_laterTrace :
    Returns sampleStore.next.run laterTrace (.error (.error .invalidSessionFile)) := by
  rw [next_run]
  exact .ask _ _ _ (.refl _)

theorem returns_takeTwo : Returns sampleStore.next.run takeTwo (.ok ⟨2⟩) := by
  rw [next_run]
  exact .ask _ _ _ (.ask _ _ _ (.ask _ _ _ (.ask _ _ _ (.refl _))))

theorem follows_claimOne : Follows (SessionFileStep sampleStore) none claimOne (some []) :=
  ⟨none, ⟨⟨fun _ => rfl, rfl⟩, rfl⟩, some [], ⟨⟨trivial, rfl⟩, rfl⟩, rfl⟩

theorem follows_landOne :
    Follows (SessionFileStep sampleStore) (some []) landOne (some [0, 1]) :=
  ⟨some [0], ⟨⟨trivial, rfl⟩, rfl⟩, some [0, 1], ⟨⟨trivial, rfl⟩, rfl⟩, rfl⟩

theorem follows_laterTrace :
    Follows (SessionFileStep sampleStore) (some []) laterTrace (some []) :=
  ⟨some [], ⟨⟨fun _ => rfl, rfl⟩, trivial⟩, rfl⟩

theorem follows_takeTwo :
    Follows (SessionFileStep sampleStore) (some [0, 1]) takeTwo (some [0, 2]) :=
  ⟨some [0, 1], ⟨⟨fun _ => rfl, rfl⟩, trivial⟩, some [], ⟨⟨trivial, rfl⟩, rfl⟩, some [0],
    ⟨⟨trivial, rfl⟩, rfl⟩, some [0, 2], ⟨⟨trivial, rfl⟩, rfl⟩, rfl⟩

/-- A process may read while the other one does not stand before its truncation. -/
theorem notBetween_update {pool : NextPool (Fin 2) Target.release64} {i other : Fin 2}
    (hother : i ≠ other)
    (hpending : (pool.caller other).pending ≠ some (.openTruncate sampleStore.path))
    (caller : NextCaller Target.release64) (state : FileContents) (call : Syscall) :
    NotBetween sampleStore ⟨Function.update pool.caller i caller, state⟩ i call := by
  intro _ k hk
  have heq : k = other := by omega
  subst heq
  change (Function.update pool.caller i caller k).pending ≠ _
  rwa [Function.update_of_ne hk]

/-- One process takes 1.  The other one calls while the file is truncated and fails, and once
more before the first one has returned, and takes 2. -/
theorem next_concurrent_overlapping :
    ∃ pool : NextPool (Fin 2) Target.release64,
      PoolRun sampleStore.next.run (SessionFileStep sampleStore) (NotBetween sampleStore)
        (startPool ![1, 2] none) pool ∧
      (∀ i, (pool.caller i).Finished) ∧
      returnedIds (pool.caller 0) = [1] ∧ returnedIds (pool.caller 1) = [2] ∧
      (∀ i, (returnedIds (pool.caller i)).Nodup) ∧
      (∀ i j, i ≠ j → ∀ id ∈ returnedIds (pool.caller i),
        id ∉ returnedIds (pool.caller j)) ∧
      ((∀ i, (pool.caller i).Finished) →
        storedValue pool.state = some (0 + ∑ i, (returnedIds (pool.caller i)).length)) := by
  have hclaim : PoolRun _ _ (NotBetween sampleStore) (startPool ![1, 2] none) _ :=
    PoolRun.begin 0 rfl steps_claimOne follows_claimOne (notBetween_update zero_ne_one nofun)
  have hshort := (hclaim.trans (PoolRun.start 1 rfl)).trans (PoolRun.complete 1 rfl
    returns_laterTrace follows_laterTrace (notBetween_update one_ne_zero nofun))
  have hland := hshort.trans (PoolRun.advance 0 rfl steps_landOne follows_landOne
    (notBetween_update zero_ne_one nofun))
  have htake := (hland.trans (PoolRun.start 1 rfl)).trans (PoolRun.complete 1 rfl
    returns_takeTwo follows_takeTwo (notBetween_update one_ne_zero nofun))
  have hrun := htake.trans (PoolRun.finish 0 rfl)
  exact ⟨_, hrun, Fin.forall_fin_two.mpr ⟨⟨rfl, rfl⟩, rfl, rfl⟩, rfl, rfl,
    next_concurrent sampleStore rfl hrun⟩

/-! ## Two processes that both read before either writes -/

def readAbsent : SysTrace Target.release64 := [⟨.read sampleStore.path, .error .notFound⟩]

def writeOne : SysTrace Target.release64 :=
  [⟨.openTruncate sampleStore.path, .ok ()⟩,
    ⟨.writeByte sampleStore.path 0 0, .ok ()⟩, ⟨.writeByte sampleStore.path 1 1, .ok ()⟩]

theorem steps_readAbsent :
    Steps sampleStore.next.run readAbsent (sampleStore.truncate 1) := by
  rw [next_run]
  exact .ask _ _ _ (.refl _)

theorem steps_writeOne :
    Steps (sampleStore.truncate 1) writeOne (.done (.ok ⟨1⟩)) :=
  .ask _ _ _ (.ask _ _ _ (.ask _ _ _ (.refl _)))

theorem follows_readAbsent :
    Follows (SessionFileStep sampleStore) none readAbsent none :=
  ⟨none, ⟨⟨fun _ => rfl, rfl⟩, rfl⟩, rfl⟩

theorem follows_writeOne (before : FileContents) :
    Follows (SessionFileStep sampleStore) before writeOne (some [0, 1]) :=
  ⟨some [], ⟨⟨trivial, rfl⟩, rfl⟩, some [0], ⟨⟨trivial, rfl⟩, rfl⟩, some [0, 1],
    ⟨⟨trivial, rfl⟩, rfl⟩, rfl⟩

/-- Both calls return 1, and one of the two updates is lost. -/
theorem next_returns_one_twice :
    ∃ pool : NextPool (Fin 2) Target.release64,
      PoolRun sampleStore.next.run (SessionFileStep sampleStore) (fun _ _ _ => True)
        (startPool (fun _ => 1) none) pool ∧
      (∀ i, (pool.caller i).Finished) ∧
      returnedIds (pool.caller 0) = [1] ∧ returnedIds (pool.caller 1) = [1] ∧
      storedValue pool.state = some 1 := by
  have hreads : PoolRun _ _ (fun _ _ _ => True)
      (startPool (fun _ : Fin 2 => 1) none) _ :=
    .trans (PoolRun.begin 0 rfl steps_readAbsent follows_readAbsent fun _ _ _ => trivial)
      (PoolRun.begin 1 rfl steps_readAbsent follows_readAbsent fun _ _ _ => trivial)
  have hrun := hreads.trans (.trans
    (PoolRun.complete 0 rfl steps_writeOne (follows_writeOne none) fun _ _ _ => trivial)
    (PoolRun.complete 1 rfl steps_writeOne (follows_writeOne (some [0, 1])) fun _ _ _ => trivial))
  exact ⟨_, hrun, Fin.forall_fin_two.mpr ⟨⟨rfl, rfl⟩, rfl, rfl⟩, rfl, rfl, rfl⟩

end Sample

end Fiudp.Session
