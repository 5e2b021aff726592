import Fiudp.Core.Components

/-!
# What a program can spend

Calls have a cost.  A budget for a program is enough whatever is answered, and the budgets of
the parts of a program add up to one for the whole.
-/

namespace Fiudp.Interaction

variable {Call Call' : Type} {Reply : Call → Type} {Reply' : Call' → Type} {α β ε : Type}

/-- The calls of the program cost at most `budget`, and what it returns satisfies `post`. -/
def Program.Spends (cost : Call → ℕ) : Program Call Reply α → ℕ → (α → Prop) → Prop
  | .done value, _, post => post value
  | .ask call next, budget, post =>
      cost call ≤ budget ∧ ∀ reply, (next reply).Spends cost (budget - cost call) post

section Rules

variable {cost : Call → ℕ} {program : Program Call Reply α} {budget larger : ℕ}
  {post weaker : α → Prop}

theorem Program.Spends.imp (hspends : program.Spends cost budget post) (hle : budget ≤ larger)
    (hpost : ∀ value, post value → weaker value) : program.Spends cost larger weaker := by
  induction program generalizing budget larger with
  | done value => exact hpost value hspends
  | ask call next ih =>
      exact ⟨hspends.1.trans hle, fun reply =>
        ih reply (hspends.2 reply) (Nat.sub_le_sub_right hle (cost call))⟩

theorem Program.spends_perform (call : Call) :
    (Program.perform call : Program Call Reply _).Spends cost (cost call) fun _ => True :=
  ⟨le_rfl, fun _ => trivial⟩

theorem Program.Spends.bind {rest : α → Program Call Reply β} {first second : ℕ}
    {middle : α → Prop} {post : β → Prop} (hprogram : program.Spends cost first middle)
    (hrest : ∀ value, middle value → (rest value).Spends cost second post) :
    (program >>= rest).Spends cost (first + second) post := by
  induction program generalizing first with
  | done value =>
      exact (hrest value hprogram).imp (Nat.le_add_left second first) fun _ hpost => hpost
  | ask call next ih =>
      refine ⟨hprogram.1.trans (Nat.le_add_right first second), fun reply => ?_⟩
      rw [Nat.sub_add_comm hprogram.1]
      exact ih reply (hprogram.2 reply)

/-- Components that cost at most what is charged for their calls. -/
theorem Program.Spends.plug {cost' : Call' → ℕ}
    {component : (call : Call) → Program Call' Reply' (Reply call)}
    (hcomponent : ∀ call, (component call).Spends cost' (cost call) fun _ => True)
    (hprogram : program.Spends cost budget post) :
    (program.plug component).Spends cost' budget post := by
  induction program generalizing budget with
  | done value => exact hprogram
  | ask call next ih =>
      have hbound := (hcomponent call).bind fun reply _ => ih reply (hprogram.2 reply)
      rwa [Nat.add_sub_cancel' hprogram.1] at hbound

/-- The cost of the calls a program has made so far is within its budget. -/
theorem Program.Spends.sum_le {rest : Program Call Reply α} {trace : Trace Call Reply}
    (hspends : program.Spends cost budget post) (hsteps : Steps program trace rest) :
    (trace.map fun event => cost event.call).sum ≤ budget := by
  induction hsteps generalizing budget with
  | refl program => exact Nat.zero_le budget
  | ask call next reply htail ih =>
      calc ((⟨call, reply⟩ :: _ : Trace Call Reply).map fun event => cost event.call).sum
          = cost call + _ := by rw [List.map_cons, List.sum_cons]
        _ ≤ cost call + (budget - cost call) :=
            Nat.add_le_add_left (ih (hspends.2 reply)) (cost call)
        _ = budget := Nat.add_sub_cancel' hspends.1

end Rules

/-! ## Programs that may fail -/

/-- The same, with a condition on what is returned on success. -/
def Fallible.Spends (cost : Call → ℕ) (program : Fallible ε Call Reply α) (budget : ℕ)
    (post : α → Prop) : Prop :=
  program.run.Spends cost budget fun result => ∀ value, result = .ok value → post value

namespace Fallible

variable {cost : Call → ℕ} {program : Fallible ε Call Reply α} {budget larger : ℕ}
  {post weaker : α → Prop}

theorem Spends.imp (hspends : program.Spends cost budget post) (hle : budget ≤ larger)
    (hpost : ∀ value, post value → weaker value) : program.Spends cost larger weaker :=
  Program.Spends.imp hspends hle fun _ hresult value hvalue => hpost value (hresult value hvalue)

theorem spends_pure {value : α} (hpost : post value) :
    (pure value : Fallible ε Call Reply α).Spends cost budget post := by
  rintro _ ⟨⟩
  exact hpost

theorem spends_throw (error : ε) :
    (throw error : Fallible ε Call Reply α).Spends cost budget post := by
  rintro _ ⟨⟩

theorem spends_ofExcept {result : Except ε α} (hpost : ∀ value, result = .ok value → post value) :
    (ofExcept result : Fallible ε Call Reply α).Spends cost budget post :=
  hpost

theorem spends_call (request : Call) :
    (call request : Fallible ε Call Reply (Reply request)).Spends cost (cost request)
      fun _ => True := by
  rw [Spends, run_call]
  exact ⟨le_rfl, fun _ _ _ => trivial⟩

theorem spends_mk {program : Program Call Reply (Except ε α)}
    (hprogram : program.Spends cost budget fun _ => True) :
    Spends cost (ExceptT.mk program : Fallible ε Call Reply α) budget fun _ => True :=
  Program.Spends.imp hprogram le_rfl fun _ _ _ _ => trivial

theorem Spends.mapErr {ε' : Type} {f : ε → ε'} (hspends : program.Spends cost budget post) :
    (program.mapErr f).Spends cost budget post := by
  rw [Spends, Fallible.mapErr, run_mk, ← Nat.add_zero budget]
  refine Program.Spends.bind hspends fun result hresult value hvalue => ?_
  cases result with
  | error error => cases hvalue
  | ok other => exact hresult value (congrArg Except.ok (Except.ok.inj hvalue))

/-- A program and, if it succeeds, another one. -/
theorem Spends.bind {rest : α → Fallible ε Call Reply β} {first second : ℕ}
    {middle : α → Prop} {post : β → Prop} (hprogram : program.Spends cost first middle)
    (hrest : ∀ value, middle value → (rest value).Spends cost second post) :
    (program >>= rest).Spends cost (first + second) post := by
  rw [Spends, ExceptT.run_bind]
  refine Program.Spends.bind hprogram fun result hresult => ?_
  cases result with
  | error error => rintro _ ⟨⟩
  | ok value => exact hrest value (hresult value rfl)

theorem Spends.bind_le {rest : α → Fallible ε Call Reply β} {first second : ℕ}
    {middle : α → Prop} {post : β → Prop} (hle : first + second ≤ budget)
    (hprogram : program.Spends cost first middle)
    (hrest : ∀ value, middle value → (rest value).Spends cost second post) :
    (program >>= rest).Spends cost budget post :=
  (hprogram.bind hrest).imp hle fun _ hpost => hpost

/-- The second program is free. -/
theorem Spends.bind_zero {rest : α → Fallible ε Call Reply β} {middle : α → Prop}
    {post : β → Prop} (hprogram : program.Spends cost budget middle)
    (hrest : ∀ value, middle value → (rest value).Spends cost 0 post) :
    (program >>= rest).Spends cost budget post :=
  hprogram.bind_le (Nat.add_zero budget).le hrest

/-- The first program is free. -/
theorem Spends.zero_bind {rest : α → Fallible ε Call Reply β} {middle : α → Prop}
    {post : β → Prop} (hprogram : program.Spends cost 0 middle)
    (hrest : ∀ value, middle value → (rest value).Spends cost budget post) :
    (program >>= rest).Spends cost budget post :=
  hprogram.bind_le (Nat.zero_add budget).le hrest

end Fallible

end Fiudp.Interaction
