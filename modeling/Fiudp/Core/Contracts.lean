import Fiudp.Core.Components
import Fiudp.Core.World

/-!
# Contracts of programs

What a program returns, and in which state it leaves a world that answers by a step
relation.  A contract is about every run the world allows; that the world allows one is a
fact of its own.
-/

namespace Fiudp.Interaction

variable {Call Call' : Type} {Reply : Call → Type} {Reply' : Call' → Type}
variable {α β ε State : Type}

/-- Every run of the program that starts in `before` ends with a value and in a state of
`post`. -/
def Ensures (step : State → Event Call Reply → State → Prop) (program : Program Call Reply α)
    (before : State) (post : α → State → Prop) : Prop :=
  ∀ trace value after, Returns program trace value → Follows step before trace after →
    post value after

section Rules

variable {step : State → Event Call Reply → State → Prop} {before : State}

theorem Ensures.imp {program : Program Call Reply α} {post weaker : α → State → Prop}
    (hensures : Ensures step program before post)
    (hpost : ∀ value after, post value after → weaker value after) :
    Ensures step program before weaker :=
  fun trace value after hreturns hfollows =>
    hpost value after (hensures trace value after hreturns hfollows)

theorem ensures_done_iff (value : α) (post : α → State → Prop) :
    Ensures step (.done value) before post ↔ post value before := by
  constructor
  · exact fun hensures => hensures [] value before (.refl _) rfl
  · intro hpost trace result after hreturns hfollows
    obtain ⟨rfl, rfl⟩ := (returns_done_iff _ _ _).mp hreturns
    rw [(follows_nil_iff _ _).mp hfollows]
    exact hpost

theorem ensures_ask_iff (call : Call) (next : Reply call → Program Call Reply α)
    (post : α → State → Prop) :
    Ensures step (.ask call next) before post ↔
      ∀ reply middle, step before ⟨call, reply⟩ middle →
        Ensures step (next reply) middle post := by
  constructor
  · intro hensures reply middle hstep trace value after hreturns hfollows
    exact hensures (⟨call, reply⟩ :: trace) value after (.ask call next reply hreturns)
      ⟨middle, hstep, hfollows⟩
  · intro hnext trace value after hreturns hfollows
    obtain ⟨reply, tail, rfl, htail⟩ := (returns_ask_iff _ _ _ _).mp hreturns
    obtain ⟨middle, hstep, hrest⟩ := hfollows
    exact hnext reply middle hstep tail value after htail hrest

theorem ensures_bind_iff (program : Program Call Reply α) (rest : α → Program Call Reply β)
    (post : β → State → Prop) :
    Ensures step (program >>= rest) before post ↔
      Ensures step program before fun value middle => Ensures step (rest value) middle post := by
  induction program generalizing before with
  | done value =>
      exact (ensures_done_iff value fun result middle =>
        Ensures step (rest result) middle post).symm
  | ask call next ih =>
      refine (ensures_ask_iff call _ post).trans (Iff.trans ?_ (ensures_ask_iff call next _).symm)
      exact forall_congr' fun reply => forall_congr' fun middle => imp_congr_right fun _ =>
        ih reply

/-- What every step keeps holds at the end, and its events have what every step has. -/
theorem Follows.invariant (kept : State → Prop) {property : Event Call Reply → Prop}
    (hstep : ∀ left event right, kept left → step left event right →
      property event ∧ kept right)
    {trace : Trace Call Reply} {after : State} (hkept : kept before)
    (hfollows : Follows step before trace after) :
    (∀ event ∈ trace, property event) ∧ kept after := by
  induction trace generalizing before with
  | nil =>
      rw [(follows_nil_iff _ _).mp hfollows]
      exact ⟨by simp, hkept⟩
  | cons event trace ih =>
      obtain ⟨middle, hfirst, hrest⟩ := hfollows
      obtain ⟨hevent, hmiddle⟩ := hstep before event middle hkept hfirst
      obtain ⟨htrace, hafter⟩ := ih hmiddle hrest
      exact ⟨List.forall_mem_cons.mpr ⟨hevent, htrace⟩, hafter⟩

/-- The `?` operator: an error ends the program, a value goes on to the rest. -/
theorem ensures_try_iff (program : Fallible ε Call Reply α) (rest : α → Fallible ε Call Reply β)
    (post : Except ε β → State → Prop) :
    Ensures step (program >>= rest).run before post ↔
      Ensures step program.run before fun result middle =>
        match result with
        | .ok value => Ensures step (rest value).run middle post
        | .error error => post (.error error) middle := by
  constructor
  · intro hensures first result middle hfirst hmiddle
    cases result with
    | error error =>
        exact hensures first _ middle ((returns_try_iff _ _ _ _).mpr (.inl ⟨error, rfl, hfirst⟩))
          hmiddle
    | ok value =>
        intro second result after hsecond hafter
        exact hensures (first ++ second) result after
          ((returns_try_iff _ _ _ _).mpr (.inr ⟨first, second, value, rfl, hfirst, hsecond⟩))
          ((follows_append_iff _ _ _ _).mpr ⟨middle, hmiddle, hafter⟩)
  · intro hensures trace result after hreturns hfollows
    rcases (returns_try_iff _ _ _ _).mp hreturns with ⟨error, rfl, hfirst⟩ |
      ⟨first, second, value, rfl, hfirst, hsecond⟩
    · exact hensures trace _ after hfirst hfollows
    · obtain ⟨middle, hmiddle, hafter⟩ := (follows_append_iff _ _ _ _).mp hfollows
      exact hensures first _ middle hfirst hmiddle second result after hsecond hafter

end Rules

/-- Components that keep the contracts of their calls: a program on these calls keeps its
contract when they are plugged in. -/
theorem Ensures.plug {component : (call : Call) → Program Call' Reply' (Reply call)}
    {step : State → Event Call' Reply' → State → Prop}
    {coarse : State → Event Call Reply → State → Prop}
    (hcomponent : ∀ call before, Ensures step (component call) before fun reply after =>
      coarse before ⟨call, reply⟩ after)
    {program : Program Call Reply α} {before : State} {post : α → State → Prop}
    (hensures : Ensures coarse program before post) :
    Ensures step (program.plug component) before post := by
  induction program generalizing before with
  | done value =>
      exact (ensures_done_iff value post).mpr ((ensures_done_iff value post).mp hensures)
  | ask call next ih =>
      refine (ensures_bind_iff _ _ post).mpr ((hcomponent call before).imp fun reply middle hstep =>
        ih reply ((ensures_ask_iff call next post).mp hensures reply middle hstep))

/-! ## Runs the world allows -/

theorem Program.CallsOnly.imp {allowed wider : Call → Prop} {program : Program Call Reply α}
    (hprogram : program.CallsOnly allowed) (hwider : ∀ call, allowed call → wider call) :
    program.CallsOnly wider := by
  induction program with
  | done value => trivial
  | ask call next ih =>
      exact ⟨hwider call hprogram.1, fun reply => ih reply (hprogram.2 reply)⟩

/-- A world that can answer every allowed call, and keeps able to, lets a program on these
calls run to its end. -/
theorem exists_follows {step : State → Event Call Reply → State → Prop} {able : State → Prop}
    {allowed : Call → Prop}
    (hanswer : ∀ before call, able before → allowed call →
      ∃ reply after, step before ⟨call, reply⟩ after ∧ able after)
    {program : Program Call Reply α} (hcalls : program.CallsOnly allowed) {before : State}
    (hable : able before) :
    ∃ trace value after, Returns program trace value ∧ Follows step before trace after := by
  induction program generalizing before with
  | done value => exact ⟨[], value, before, .refl _, rfl⟩
  | ask call next ih =>
      obtain ⟨reply, middle, hstep, hmiddle⟩ := hanswer before call hable hcalls.1
      obtain ⟨trace, value, after, hreturns, hfollows⟩ := ih reply (hcalls.2 reply) hmiddle
      exact ⟨⟨call, reply⟩ :: trace, value, after, .ask call next reply hreturns,
        middle, hstep, hfollows⟩

end Fiudp.Interaction
