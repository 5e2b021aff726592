import Fiudp.Core.World

/-!
# Interleaved callers

Several processes share a state and call one routine, each any number of times.
A step lets one process begin a call, have its pending call answered, or take
over the result of its routine; any process may take the next step.
-/

namespace Fiudp.Interaction

variable {Call : Type} {Reply : Call → Type} {α State ι : Type}

/-- A process between or inside its calls of the routine. -/
structure Caller (Call : Type) (Reply : Call → Type) (α : Type) where
  returned : List α
  callsLeft : ℕ
  current : Option (Program Call Reply α)

namespace Caller

/-- A process that has not begun. -/
def idle (callsLeft : ℕ) : Caller Call Reply α := ⟨[], callsLeft, none⟩

def Finished (caller : Caller Call Reply α) : Prop :=
  caller.callsLeft = 0 ∧ caller.current = none

/-- The call the process makes next. -/
def pending (caller : Caller Call Reply α) : Option Call :=
  match caller.current with
  | some (.ask call _) => some call
  | _ => none

/-- The results the process has, with the one it is about to take over. -/
def results (caller : Caller Call Reply α) : List α :=
  caller.returned ++
    match caller.current with
    | some (.done value) => [value]
    | _ => []

end Caller

/-- One step of a single process. -/
inductive CallerStep (routine : Program Call Reply α)
    (step : State → Event Call Reply → State → Prop) :
    Caller Call Reply α → State → Caller Call Reply α → State → Prop
  | start (returned : List α) (callsLeft : ℕ) (state : State) :
      CallerStep routine step ⟨returned, callsLeft + 1, none⟩ state
        ⟨returned, callsLeft, some routine⟩ state
  | answer (returned : List α) (callsLeft : ℕ) (call : Call)
      (next : Reply call → Program Call Reply α) (reply : Reply call)
      {before after : State} :
      step before ⟨call, reply⟩ after →
        CallerStep routine step ⟨returned, callsLeft, some (.ask call next)⟩ before
          ⟨returned, callsLeft, some (next reply)⟩ after
  | finish (returned : List α) (callsLeft : ℕ) (value : α) (state : State) :
      CallerStep routine step ⟨returned, callsLeft, some (.done value)⟩ state
        ⟨returned ++ [value], callsLeft, none⟩ state

structure Pool (ι Call : Type) (Reply : Call → Type) (α State : Type) where
  caller : ι → Caller Call Reply α
  state : State

/-- One step of the pool: some process takes a step that is permitted in this
state of the pool. -/
inductive PoolStep [DecidableEq ι] (routine : Program Call Reply α)
    (step : State → Event Call Reply → State → Prop)
    (permitted : Pool ι Call Reply α State → ι → Call → Prop) :
    Pool ι Call Reply α State → Pool ι Call Reply α State → Prop
  | move (pool : Pool ι Call Reply α State) (i : ι) {caller : Caller Call Reply α}
      {state : State} :
      CallerStep routine step (pool.caller i) pool.state caller state →
      (∀ call, (pool.caller i).pending = some call → permitted pool i call) →
        PoolStep routine step permitted pool ⟨Function.update pool.caller i caller, state⟩

/-- Any number of steps. -/
abbrev PoolRun [DecidableEq ι] (routine : Program Call Reply α)
    (step : State → Event Call Reply → State → Prop)
    (permitted : Pool ι Call Reply α State → ι → Call → Prop) :
    Pool ι Call Reply α State → Pool ι Call Reply α State → Prop :=
  Relation.ReflTransGen (PoolStep routine step permitted)

/-- What every permitted step preserves holds in every state reached. -/
theorem PoolRun.invariant [DecidableEq ι] {routine : Program Call Reply α}
    {step : State → Event Call Reply → State → Prop}
    {permitted : Pool ι Call Reply α State → ι → Call → Prop}
    {property : Pool ι Call Reply α State → Prop}
    (hpreserves : ∀ before after, PoolStep routine step permitted before after →
      property before → property after)
    {before after : Pool ι Call Reply α State}
    (hrun : PoolRun routine step permitted before after) (hbefore : property before) :
    property after := by
  induction hrun with
  | refl => exact hbefore
  | tail _ hstep ih => exact hpreserves _ _ hstep ih

/-! ## A process that moves on alone -/

section Alone

variable [DecidableEq ι] {routine : Program Call Reply α}
  {step : State → Event Call Reply → State → Prop}
  {permitted : Pool ι Call Reply α State → ι → Call → Prop}
  {pool : Pool ι Call Reply α State} {returned : List α} {callsLeft : ℕ}

theorem PoolRun.start (i : ι) (hcaller : pool.caller i = ⟨returned, callsLeft + 1, none⟩) :
    PoolRun routine step permitted pool
      ⟨Function.update pool.caller i ⟨returned, callsLeft, some routine⟩, pool.state⟩ := by
  refine .single (.move pool i ?_ ?_)
  · rw [hcaller]
    exact .start _ _ _
  · rw [hcaller]
    exact nofun

theorem PoolRun.finish (i : ι) {value : α}
    (hcaller : pool.caller i = ⟨returned, callsLeft, some (.done value)⟩) :
    PoolRun routine step permitted pool
      ⟨Function.update pool.caller i ⟨returned ++ [value], callsLeft, none⟩, pool.state⟩ := by
  refine .single (.move pool i ?_ ?_)
  · rw [hcaller]
    exact .finish _ _ _ _
  · rw [hcaller]
    exact nofun

/-- The calls of one process are answered one after the other. -/
theorem PoolRun.advance (i : ι) {program rest : Program Call Reply α} {trace : Trace Call Reply}
    {after : State} (hcaller : pool.caller i = ⟨returned, callsLeft, some program⟩)
    (hsteps : Steps program trace rest) (hfollows : Follows step pool.state trace after)
    (hpermitted : ∀ caller state call,
      permitted ⟨Function.update pool.caller i caller, state⟩ i call) :
    PoolRun routine step permitted pool
      ⟨Function.update pool.caller i ⟨returned, callsLeft, some rest⟩, after⟩ := by
  induction hsteps generalizing pool with
  | refl program =>
      cases hfollows
      rw [← hcaller, Function.update_eq_self]
  | ask call next reply htail ih =>
      obtain ⟨middle, hstep, hrest⟩ := hfollows
      have hfirst : PoolStep routine step permitted pool
          ⟨Function.update pool.caller i ⟨returned, callsLeft, some (next reply)⟩, middle⟩ := by
        refine .move pool i ?_ fun call _ => ?_
        · rw [hcaller]
          exact .answer _ _ _ _ _ hstep
        · have hnow := hpermitted (pool.caller i) pool.state call
          rwa [Function.update_eq_self] at hnow
      have hmoved : (⟨Function.update pool.caller i ⟨returned, callsLeft, some (next reply)⟩,
          middle⟩ : Pool ι Call Reply α State).caller i =
          ⟨returned, callsLeft, some (next reply)⟩ := Function.update_self ..
      have hlater := ih hmoved hrest fun caller state call => by
        rw [Function.update_idem]
        exact hpermitted caller state call
      rw [Function.update_idem] at hlater
      exact .head hfirst hlater

/-- A process begins a call and has its first calls answered. -/
theorem PoolRun.begin (i : ι) {rest : Program Call Reply α} {trace : Trace Call Reply}
    {after : State} (hcaller : pool.caller i = ⟨returned, callsLeft + 1, none⟩)
    (hsteps : Steps routine trace rest) (hfollows : Follows step pool.state trace after)
    (hpermitted : ∀ caller state call,
      permitted ⟨Function.update pool.caller i caller, state⟩ i call) :
    PoolRun routine step permitted pool
      ⟨Function.update pool.caller i ⟨returned, callsLeft, some rest⟩, after⟩ := by
  have hstarted : (⟨Function.update pool.caller i ⟨returned, callsLeft, some routine⟩,
      pool.state⟩ : Pool ι Call Reply α State).caller i =
      ⟨returned, callsLeft, some routine⟩ := Function.update_self ..
  have hmoves : PoolRun routine step permitted _ _ := PoolRun.advance i hstarted hsteps hfollows
    fun caller state call => by
      rw [Function.update_idem]
      exact hpermitted caller state call
  rw [Function.update_idem] at hmoves
  exact (PoolRun.start i hcaller).trans hmoves

/-- A process has the rest of its call answered and takes over the result. -/
theorem PoolRun.complete (i : ι) {program : Program Call Reply α} {trace : Trace Call Reply}
    {value : α} {after : State} (hcaller : pool.caller i = ⟨returned, callsLeft, some program⟩)
    (hreturns : Returns program trace value) (hfollows : Follows step pool.state trace after)
    (hpermitted : ∀ caller state call,
      permitted ⟨Function.update pool.caller i caller, state⟩ i call) :
    PoolRun routine step permitted pool
      ⟨Function.update pool.caller i ⟨returned ++ [value], callsLeft, none⟩, after⟩ := by
  have hdone : (⟨Function.update pool.caller i ⟨returned, callsLeft, some (.done value)⟩,
      after⟩ : Pool ι Call Reply α State).caller i =
      ⟨returned, callsLeft, some (.done value)⟩ := Function.update_self ..
  have htaken : PoolRun routine step permitted _ _ := PoolRun.finish i hdone
  rw [Function.update_idem] at htaken
  exact (PoolRun.advance i hcaller hreturns hfollows hpermitted).trans htaken

end Alone

end Fiudp.Interaction
