import Fiudp.Core.Interaction

/-!
# Worlds that answer programs

A world is a state that changes with every call it answers.  It is given by a
step relation, so that it may answer one call in several ways (an I/O failure, a
random draw), or by a host function when the answers are determined.
-/

namespace Fiudp.Interaction

variable {Call : Type} {Reply : Call → Type} {α State : Type}

/-- The world, stepping by `step`, answers the calls of `trace` in order. -/
def Follows (step : State → Event Call Reply → State → Prop) :
    State → Trace Call Reply → State → Prop
  | before, [], after => after = before
  | before, event :: trace, after =>
      ∃ middle, step before event middle ∧ Follows step middle trace after

variable {step : State → Event Call Reply → State → Prop}

@[simp]
theorem follows_nil_iff (before after : State) :
    Follows step before [] after ↔ after = before := Iff.rfl

@[simp]
theorem follows_cons_iff (before after : State) (event : Event Call Reply)
    (trace : Trace Call Reply) :
    Follows step before (event :: trace) after ↔
      ∃ middle, step before event middle ∧ Follows step middle trace after := Iff.rfl

theorem follows_append_iff (before after : State) (first second : Trace Call Reply) :
    Follows step before (first ++ second) after ↔
      ∃ middle, Follows step before first middle ∧ Follows step middle second after := by
  induction first generalizing before with
  | nil => simp
  | cons event first ih =>
      simp only [List.cons_append, follows_cons_iff, ih]
      constructor
      · rintro ⟨next, hstep, middle, hfirst, hsecond⟩
        exact ⟨middle, ⟨next, hstep, hfirst⟩, hsecond⟩
      · rintro ⟨middle, ⟨next, hstep, hfirst⟩, hsecond⟩
        exact ⟨next, hstep, middle, hfirst, hsecond⟩

/-- What no event of the trace changes is the same at its end. -/
theorem Follows.frame {X : Type} (observe : State → X) {before after : State}
    {trace : Trace Call Reply} (hfollows : Follows step before trace after)
    (hframe : ∀ event ∈ trace, ∀ left right, step left event right →
      observe right = observe left) :
    observe after = observe before := by
  induction trace generalizing before with
  | nil =>
      subst hfollows
      rfl
  | cons event trace ih =>
      obtain ⟨middle, hstep, hrest⟩ := hfollows
      rw [ih hrest fun event hmem => hframe event (List.mem_cons_of_mem _ hmem)]
      exact hframe event List.mem_cons_self before middle hstep

/-- A world answering by one step relation also answers by a coarser one, seen
through a view of its state. -/
theorem Follows.view {View : Type} (observe : State → View)
    {coarse : View → Event Call Reply → View → Prop} {before after : State}
    {trace : Trace Call Reply} (hfollows : Follows step before trace after)
    (hstep : ∀ left event right, step left event right →
      coarse (observe left) event (observe right)) :
    Follows coarse (observe before) trace (observe after) := by
  induction trace generalizing before with
  | nil =>
      subst hfollows
      rfl
  | cons event trace ih =>
      obtain ⟨middle, hfirst, hrest⟩ := hfollows
      exact ⟨observe middle, hstep _ _ _ hfirst, ih hrest⟩

/-! ## Hosts -/

/-- The trace, the value and the final state of a program run by a host. -/
structure Execution (Call : Type) (Reply : Call → Type) (α State : Type) where
  trace : Trace Call Reply
  value : α
  state : State

/-- Run a program to its end on a host that answers every call. -/
def Program.execute (host : State → (call : Call) → Reply call × State) :
    State → Program Call Reply α → Execution Call Reply α State
  | state, .done value => ⟨[], value, state⟩
  | state, .ask call next =>
      let answer := host state call
      let rest := (next answer.1).execute host answer.2
      ⟨⟨call, answer.1⟩ :: rest.trace, rest.value, rest.state⟩

variable (host : State → (call : Call) → Reply call × State)

theorem returns_execute (state : State) (program : Program Call Reply α) :
    Returns program (program.execute host state).trace
      (program.execute host state).value := by
  induction program generalizing state with
  | done value => exact .refl _
  | ask call next ih => exact .ask call next _ (ih _ _)

/-- Every event of the execution is an answer of the host. -/
theorem forall_execute {property : Event Call Reply → Prop}
    (hhost : ∀ state call, property ⟨call, (host state call).1⟩)
    (state : State) (program : Program Call Reply α) :
    ∀ event ∈ (program.execute host state).trace, property event := by
  induction program generalizing state with
  | done value => simp [Program.execute]
  | ask call next ih =>
      simp only [Program.execute, List.forall_mem_cons]
      exact ⟨hhost state call, ih _ _⟩

end Fiudp.Interaction
