import Fiudp.Core.Interaction

/-!
# Plugging components into a program

A program written against an interface of component calls runs in a concrete
system once every call is implemented by a program over the system's own calls.
The traces of the plugged program are realizations of traces of the original
one, so what holds of the program for all components holds of each plugging.
-/

namespace Fiudp.Interaction

variable {Call Call' : Type} {Reply : Call → Type} {Reply' : Call' → Type}
variable {α β X : Type}

/-- Replace every call by its implementation. -/
def Program.plug (component : (call : Call) → Program Call' Reply' (Reply call)) :
    Program Call Reply α → Program Call' Reply' α
  | .done value => .done value
  | .ask call next => component call >>= fun reply => (next reply).plug component

/-- The trace on the right carries out the calls of the trace on the left, one
after the other, by the given implementations. -/
inductive Realizes (component : (call : Call) → Program Call' Reply' (Reply call)) :
    Trace Call Reply → Trace Call' Reply' → Prop
  | nil : Realizes component [] []
  | cons {call : Call} {reply : Reply call} {calls : Trace Call Reply}
      {first rest : Trace Call' Reply'} :
      Returns (component call) first reply → Realizes component calls rest →
        Realizes component (⟨call, reply⟩ :: calls) (first ++ rest)

variable {component : (call : Call) → Program Call' Reply' (Reply call)}

theorem returns_plug_iff (program : Program Call Reply α) (trace : Trace Call' Reply')
    (value : α) :
    Returns (program.plug component) trace value ↔
      ∃ calls, Realizes component calls trace ∧ Returns program calls value := by
  induction program generalizing trace with
  | done result =>
      constructor
      · intro hreturns
        obtain ⟨rfl, rfl⟩ := (returns_done_iff _ _ _).mp hreturns
        exact ⟨[], .nil, .refl _⟩
      · rintro ⟨calls, hrealizes, hreturns⟩
        obtain ⟨rfl, rfl⟩ := (returns_done_iff _ _ _).mp hreturns
        cases hrealizes
        exact .refl _
  | ask call next ih =>
      rw [Program.plug, returns_bind_iff]
      constructor
      · rintro ⟨first, second, reply, rfl, hfirst, hsecond⟩
        obtain ⟨calls, hrealizes, hreturns⟩ := (ih reply second).mp hsecond
        exact ⟨⟨call, reply⟩ :: calls, .cons hfirst hrealizes,
          .ask call next reply hreturns⟩
      · rintro ⟨calls, hrealizes, hreturns⟩
        obtain ⟨reply, tail, rfl, htail⟩ := (returns_ask_iff _ _ _ _).mp hreturns
        cases hrealizes with
        | cons hfirst hrest =>
            exact ⟨_, _, reply, rfl, hfirst, (ih reply _).mpr ⟨tail, hrest, htail⟩⟩

/-- Calls in two parts are carried out in two parts. -/
theorem realizes_append_iff (first second : Trace Call Reply) (trace : Trace Call' Reply') :
    Realizes component (first ++ second) trace ↔
      ∃ low high, trace = low ++ high ∧ Realizes component first low ∧
        Realizes component second high := by
  induction first generalizing trace with
  | nil =>
      constructor
      · exact fun hrealizes => ⟨[], trace, rfl, .nil, hrealizes⟩
      · rintro ⟨low, high, rfl, hlow, hhigh⟩
        cases hlow
        exact hhigh
  | cons event first ih =>
      constructor
      · rintro (_ | ⟨hevent, hrest⟩)
        obtain ⟨low, high, rfl, hlow, hhigh⟩ := (ih _).mp hrest
        exact ⟨_ ++ low, high, (List.append_assoc _ _ _).symm, .cons hevent hlow, hhigh⟩
      · rintro ⟨low, high, rfl, hlow, hhigh⟩
        rcases hlow with _ | ⟨hevent, hlow⟩
        rw [List.append_assoc]
        exact .cons hevent ((ih _).mpr ⟨_, high, rfl, hlow, hhigh⟩)

/-- What an observer extracts from a realization is what it extracts from the
component calls, provided the two agree on each single call. -/
theorem Realizes.flatMap_eq {calls : Trace Call Reply} {trace : Trace Call' Reply'}
    (hrealizes : Realizes component calls trace)
    (observeCall : Event Call Reply → List X) (observe : Event Call' Reply' → List X)
    (hagree : ∀ call first reply, Returns (component call) first reply →
      first.flatMap observe = observeCall ⟨call, reply⟩) :
    trace.flatMap observe = calls.flatMap observeCall := by
  induction hrealizes with
  | nil => rfl
  | cons hfirst _ ih =>
      rw [List.flatMap_append, List.flatMap_cons, hagree _ _ _ hfirst, ih]

/-- A fact about every single call of the implementations, carried to the
component calls. -/
theorem Realizes.forall_calls {calls : Trace Call Reply} {trace : Trace Call' Reply'}
    (hrealizes : Realizes component calls trace)
    {low : Event Call' Reply' → Prop} {high : Event Call Reply → Prop}
    (hlift : ∀ call first reply, Returns (component call) first reply →
      (∀ event ∈ first, low event) → high ⟨call, reply⟩)
    (hlow : ∀ event ∈ trace, low event) : ∀ event ∈ calls, high event := by
  induction hrealizes with
  | nil => simp
  | cons hfirst _ ih =>
      simp only [List.forall_mem_append] at hlow
      simpa using ⟨hlift _ _ _ hfirst hlow.1, ih hlow.2⟩

/-- A fact about every component call, carried to the calls of the implementations. -/
theorem Realizes.forall_events {calls : Trace Call Reply} {trace : Trace Call' Reply'}
    (hrealizes : Realizes component calls trace)
    {low : Event Call' Reply' → Prop} {high : Event Call Reply → Prop}
    (hlower : ∀ call first reply, Returns (component call) first reply →
      high ⟨call, reply⟩ → ∀ event ∈ first, low event)
    (hhigh : ∀ event ∈ calls, high event) : ∀ event ∈ trace, low event := by
  induction hrealizes with
  | nil => simp
  | cons hfirst _ ih =>
      simp only [List.forall_mem_cons] at hhigh
      exact List.forall_mem_append.mpr ⟨hlower _ _ _ hfirst hhigh.1, ih hhigh.2⟩

/-- Component calls that can be carried out one by one can be carried out in order. -/
theorem Realizes.exists_of_forall {property : Event Call' Reply' → Prop}
    {calls : Trace Call Reply}
    (hcalls : ∀ event ∈ calls, ∃ first, Returns (component event.call) first event.reply ∧
      ∀ low ∈ first, property low) :
    ∃ trace, Realizes component calls trace ∧ ∀ low ∈ trace, property low := by
  induction calls with
  | nil => exact ⟨[], .nil, by simp⟩
  | cons event calls ih =>
      simp only [List.forall_mem_cons] at hcalls
      obtain ⟨⟨first, hfirst, hlow⟩, hrest⟩ := hcalls
      obtain ⟨rest, hrealizes, hlater⟩ := ih hrest
      exact ⟨first ++ rest, .cons hfirst hrealizes, List.forall_mem_append.mpr ⟨hlow, hlater⟩⟩

theorem Program.CallsOnly.plug {allowed : Call' → Prop} (program : Program Call Reply α)
    (hcomponent : ∀ call, (component call).CallsOnly allowed) :
    (program.plug component).CallsOnly allowed := by
  induction program with
  | done value => trivial
  | ask call next ih => exact (hcomponent call).bind ih

end Fiudp.Interaction
