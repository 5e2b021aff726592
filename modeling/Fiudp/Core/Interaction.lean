import Mathlib

/-!
# Interaction programs

A program that talks to an outside world is a tree: it either returns a value or
makes a call and continues with the reply.  Replies are arbitrary, so a property
of all traces of a program covers every behaviour of the components it calls,
and an unfinished trace is a program that was killed (or preempted) after the
calls it lists.
-/

namespace Fiudp.Interaction

/-- Programs over the calls `Call`, where the call `c` is answered by a value of
type `Reply c`. -/
inductive Program (Call : Type) (Reply : Call → Type) (α : Type) : Type
  | done (value : α)
  | ask (call : Call) (next : Reply call → Program Call Reply α)

/-- One call together with the reply it received. -/
structure Event (Call : Type) (Reply : Call → Type) where
  call : Call
  reply : Reply call

abbrev Trace (Call : Type) (Reply : Call → Type) := List (Event Call Reply)

variable {Call : Type} {Reply : Call → Type} {α β ε : Type}

namespace Program

def bind : Program Call Reply α → (α → Program Call Reply β) → Program Call Reply β
  | done value, rest => rest value
  | ask call next, rest => ask call fun reply => bind (next reply) rest

instance : Monad (Program Call Reply) where
  pure := done
  bind := bind

/-- A single call, as a program. -/
def perform (call : Call) : Program Call Reply (Reply call) :=
  ask call done

@[simp]
theorem pure_eq_done (value : α) :
    (pure value : Program Call Reply α) = done value := rfl

@[simp]
theorem done_bind (value : α) (rest : α → Program Call Reply β) :
    done value >>= rest = rest value := rfl

@[simp]
theorem ask_bind (call : Call) (next : Reply call → Program Call Reply α)
    (rest : α → Program Call Reply β) :
    ask call next >>= rest = ask call fun reply => next reply >>= rest := rfl

@[simp]
theorem perform_bind (call : Call) (rest : Reply call → Program Call Reply β) :
    perform call >>= rest = ask call rest := rfl

end Program

open Program

/-- `Steps program trace rest`: the calls of `trace`, answered as it says, take
`program` to the program `rest` that is still to be run. -/
inductive Steps : Program Call Reply α → Trace Call Reply → Program Call Reply α → Prop
  | refl (program : Program Call Reply α) : Steps program [] program
  | ask (call : Call) (next : Reply call → Program Call Reply α) (reply : Reply call)
      {trace : Trace Call Reply} {rest : Program Call Reply α} :
      Steps (next reply) trace rest →
        Steps (.ask call next) (⟨call, reply⟩ :: trace) rest

/-- The program runs to its end along `trace` and returns `value`. -/
def Returns (program : Program Call Reply α) (trace : Trace Call Reply) (value : α) :
    Prop :=
  Steps program trace (done value)

@[simp]
theorem steps_done_iff (value : α) (trace : Trace Call Reply)
    (rest : Program Call Reply α) :
    Steps (done value) trace rest ↔ trace = [] ∧ rest = done value := by
  constructor
  · intro hsteps
    cases hsteps with
    | refl => exact ⟨rfl, rfl⟩
  · rintro ⟨rfl, rfl⟩
    exact .refl _

theorem steps_ask_iff (call : Call) (next : Reply call → Program Call Reply α)
    (trace : Trace Call Reply) (rest : Program Call Reply α) :
    Steps (.ask call next) trace rest ↔
      (trace = [] ∧ rest = .ask call next) ∨
        ∃ reply tail, trace = ⟨call, reply⟩ :: tail ∧ Steps (next reply) tail rest := by
  constructor
  · intro hsteps
    cases hsteps with
    | refl => exact .inl ⟨rfl, rfl⟩
    | ask call next reply htail => exact .inr ⟨reply, _, rfl, htail⟩
  · rintro (⟨rfl, rfl⟩ | ⟨reply, tail, rfl, htail⟩)
    · exact .refl _
    · exact .ask call next reply htail

@[simp]
theorem returns_done_iff (value result : α) (trace : Trace Call Reply) :
    Returns (done value) trace result ↔ trace = [] ∧ result = value := by
  simp [Returns]

theorem returns_ask_iff (call : Call) (next : Reply call → Program Call Reply α)
    (trace : Trace Call Reply) (result : α) :
    Returns (.ask call next) trace result ↔
      ∃ reply tail, trace = ⟨call, reply⟩ :: tail ∧ Returns (next reply) tail result := by
  simp [Returns, steps_ask_iff]

@[simp]
theorem returns_perform_iff (call : Call) (trace : Trace Call Reply)
    (result : Reply call) :
    Returns (perform call) trace result ↔ trace = [⟨call, result⟩] := by
  simp only [perform, returns_ask_iff, returns_done_iff]
  constructor
  · rintro ⟨reply, tail, rfl, rfl, rfl⟩
    rfl
  · rintro rfl
    exact ⟨result, [], rfl, rfl, rfl⟩

theorem Steps.append {first second : Trace Call Reply}
    {program middle rest : Program Call Reply α}
    (hfirst : Steps program first middle) (hsecond : Steps middle second rest) :
    Steps program (first ++ second) rest := by
  induction hfirst with
  | refl => exact hsecond
  | ask call next reply _ ih => exact .ask call next reply (ih hsecond)

/-- A program is deterministic in the replies it receives. -/
theorem Steps.unique {trace : Trace Call Reply}
    {program left right : Program Call Reply α}
    (hleft : Steps program trace left) (hright : Steps program trace right) :
    left = right := by
  induction hleft with
  | refl =>
      cases hright with
      | refl => rfl
  | ask call next reply _ ih =>
      cases hright with
      | ask _ _ _ htail => exact ih htail

/-! ## Resuming -/

section Resume

variable [DecidableEq Call]

/-- What is left of a program once the calls of the trace have been answered; calls
past its end are not its own. -/
def Program.resume : Program Call Reply α → Trace Call Reply → Program Call Reply α
  | .done value, _ => .done value
  | .ask call next, [] => .ask call next
  | .ask call next, event :: trace =>
      if hcall : event.call = call then (next (hcall ▸ event.reply)).resume trace
      else .ask call next

@[simp]
theorem Program.resume_nil (program : Program Call Reply α) : program.resume [] = program := by
  cases program <;> rfl

@[simp]
theorem Program.resume_done (value : α) (trace : Trace Call Reply) :
    (done value).resume trace = (done value : Program Call Reply α) := by
  cases trace <;> rfl

theorem Steps.resume_append {trace : Trace Call Reply} {program rest : Program Call Reply α}
    (hsteps : Steps program trace rest) (extra : Trace Call Reply) :
    program.resume (trace ++ extra) = rest.resume extra := by
  induction hsteps with
  | refl => rfl
  | ask call next reply _ ih =>
      rw [List.cons_append, Program.resume, dif_pos rfl]
      exact ih

theorem Steps.resume {trace : Trace Call Reply} {program rest : Program Call Reply α}
    (hsteps : Steps program trace rest) : program.resume trace = rest := by
  have hresume := hsteps.resume_append []
  rwa [List.append_nil, Program.resume_nil] at hresume

end Resume

/-- What the program has returned, if it has. -/
def Program.value? : Program Call Reply α → Option α
  | .done value => some value
  | .ask _ _ => none

theorem Program.value?_eq_some_iff {program : Program Call Reply α} {value : α} :
    program.value? = some value ↔ program = .done value := by
  cases program <;> simp [value?]

/-! ## Sequencing -/

theorem Steps.bind {trace : Trace Call Reply} {program rest : Program Call Reply α}
    (hsteps : Steps program trace rest) (continuation : α → Program Call Reply β) :
    Steps (program >>= continuation) trace (rest >>= continuation) := by
  induction hsteps with
  | refl => exact .refl _
  | ask call next reply _ ih => exact .ask call _ reply ih

/-- A trace of a sequence either stays in its first part or finishes that part
and goes on in the second. -/
theorem steps_bind_iff (program : Program Call Reply α)
    (continuation : α → Program Call Reply β) (trace : Trace Call Reply)
    (rest : Program Call Reply β) :
    Steps (program >>= continuation) trace rest ↔
      (∃ middle, Steps program trace middle ∧ rest = middle >>= continuation) ∨
        ∃ first second value, trace = first ++ second ∧
          Returns program first value ∧ Steps (continuation value) second rest := by
  constructor
  · intro hsteps
    induction program generalizing trace with
    | done value => exact .inr ⟨[], trace, value, rfl, .refl _, hsteps⟩
    | ask call next ih =>
        rw [ask_bind, steps_ask_iff] at hsteps
        rcases hsteps with ⟨rfl, rfl⟩ | ⟨reply, tail, rfl, htail⟩
        · exact .inl ⟨_, .refl _, rfl⟩
        · rcases ih reply tail htail with ⟨middle, hmiddle, rfl⟩ |
            ⟨first, second, value, rfl, hfirst, hsecond⟩
          · exact .inl ⟨middle, .ask call next reply hmiddle, rfl⟩
          · exact .inr ⟨⟨call, reply⟩ :: first, second, value, rfl,
              .ask call next reply hfirst, hsecond⟩
  · rintro (⟨middle, hmiddle, rfl⟩ | ⟨first, second, value, rfl, hfirst, hsecond⟩)
    · exact hmiddle.bind continuation
    · exact (hfirst.bind continuation).append hsecond

theorem returns_bind_iff (program : Program Call Reply α)
    (continuation : α → Program Call Reply β) (trace : Trace Call Reply) (result : β) :
    Returns (program >>= continuation) trace result ↔
      ∃ first second value, trace = first ++ second ∧
        Returns program first value ∧ Returns (continuation value) second result := by
  rw [Returns, steps_bind_iff]
  constructor
  · rintro (⟨middle, hmiddle, hend⟩ | hsecond)
    · cases middle with
      | done value =>
          rw [done_bind] at hend
          exact ⟨trace, [], value, by simp, hmiddle, by rw [← hend]; exact .refl _⟩
      | ask call next => cases hend
    · exact hsecond
  · exact .inr

/-- Whatever has been answered so far, the program can be answered until it
returns. -/
theorem Steps.exists_returns [∀ call, Nonempty (Reply call)] {trace : Trace Call Reply}
    {program rest : Program Call Reply α} (hsteps : Steps program trace rest) :
    ∃ extra value, Returns program (trace ++ extra) value := by
  have hfinish : ∃ extra value, Returns rest extra value := by
    clear hsteps
    induction rest with
    | done value => exact ⟨[], value, .refl _⟩
    | ask call next ih =>
        obtain ⟨reply⟩ := (inferInstance : Nonempty (Reply call))
        obtain ⟨extra, value, hreturns⟩ := ih reply
        exact ⟨⟨call, reply⟩ :: extra, value, .ask call next reply hreturns⟩
  obtain ⟨extra, value, hreturns⟩ := hfinish
  exact ⟨extra, value, hsteps.append hreturns⟩

/-! ## Programs confined to some calls -/

/-- Every call the program can make, whatever the replies, is an allowed one. -/
def Program.CallsOnly (allowed : Call → Prop) : Program Call Reply α → Prop
  | .done _ => True
  | .ask call next => allowed call ∧ ∀ reply, (next reply).CallsOnly allowed

theorem Program.CallsOnly.bind {allowed : Call → Prop} {program : Program Call Reply α}
    {continuation : α → Program Call Reply β} (hprogram : program.CallsOnly allowed)
    (hcontinuation : ∀ value, (continuation value).CallsOnly allowed) :
    (program >>= continuation).CallsOnly allowed := by
  induction program with
  | done value => exact hcontinuation value
  | ask call next ih => exact ⟨hprogram.1, fun reply => ih reply (hprogram.2 reply)⟩

theorem Steps.calls_allowed {allowed : Call → Prop} {trace : Trace Call Reply}
    {program rest : Program Call Reply α} (hsteps : Steps program trace rest)
    (hprogram : program.CallsOnly allowed) :
    (∀ event ∈ trace, allowed event.call) ∧ rest.CallsOnly allowed := by
  induction hsteps with
  | refl program => exact ⟨by simp, hprogram⟩
  | ask call next reply _ ih =>
      obtain ⟨htrace, hrest⟩ := ih (hprogram.2 reply)
      exact ⟨by simpa using ⟨hprogram.1, htrace⟩, hrest⟩

/-! ## Programs that may fail -/

/-- A program with early exits of type `ε`: the `?` operator is its bind. -/
abbrev Fallible (ε : Type) (Call : Type) (Reply : Call → Type) :=
  ExceptT ε (Program Call Reply)

namespace Fallible

/-- The outcome of a pure computation. -/
def ofExcept (result : Except ε α) : Fallible ε Call Reply α :=
  ExceptT.mk (done result)

/-- A call that cannot fail. -/
def call (request : Call) : Fallible ε Call Reply (Reply request) :=
  ExceptT.lift (perform request)

/-- `.map_err(f)`. -/
def mapErr {ε' : Type} (f : ε → ε') (program : Fallible ε Call Reply α) :
    Fallible ε' Call Reply α :=
  ExceptT.mk do
    let reply ← program.run
    return reply.mapError f

@[simp]
theorem run_ofExcept (result : Except ε α) :
    (ofExcept result : Fallible ε Call Reply α).run = done result := rfl

@[simp]
theorem ofExcept_ok_bind (value : α) (rest : α → Fallible ε Call Reply β) :
    ofExcept (.ok value) >>= rest = rest value := rfl

@[simp]
theorem ofExcept_error_bind (error : ε) (rest : α → Fallible ε Call Reply β) :
    ofExcept (.error error) >>= rest = throw error := rfl

@[simp]
theorem run_call (request : Call) :
    (call request : Fallible ε Call Reply (Reply request)).run =
      .ask request fun reply => done (.ok reply) := rfl

@[simp]
theorem run_pure (value : α) :
    (pure value : Fallible ε Call Reply α).run = done (.ok value) := rfl

@[simp]
theorem run_throw (error : ε) :
    (throw error : Fallible ε Call Reply α).run = done (.error error) := rfl

@[simp]
theorem run_mk (program : Program Call Reply (Except ε α)) :
    ExceptT.run (ExceptT.mk program) = program := rfl

theorem callsOnly_bind {allowed : Call → Prop} {program : Fallible ε Call Reply α}
    {continuation : α → Fallible ε Call Reply β}
    (hprogram : program.run.CallsOnly allowed)
    (hcontinuation : ∀ value, (continuation value).run.CallsOnly allowed) :
    (program >>= continuation).run.CallsOnly allowed := by
  rw [ExceptT.run_bind]
  refine hprogram.bind fun result => ?_
  cases result with
  | error error => trivial
  | ok value => exact hcontinuation value

end Fallible

theorem Fallible.returns_mapErr_iff {ε' : Type} (f : ε → ε') (program : Fallible ε Call Reply α)
    (trace : Trace Call Reply) (result : Except ε' α) :
    Returns (program.mapErr f).run trace result ↔
      ∃ reply, Returns program.run trace reply ∧ result = reply.mapError f := by
  simp only [Fallible.mapErr, Fallible.run_mk, returns_bind_iff, Program.pure_eq_done,
    returns_done_iff]
  constructor
  · rintro ⟨first, second, reply, rfl, hfirst, rfl, rfl⟩
    exact ⟨reply, by simpa using hfirst, rfl⟩
  · rintro ⟨reply, hreturns, rfl⟩
    exact ⟨trace, [], reply, by simp, hreturns, rfl, rfl⟩

/-- A trace of a sequence of fallible programs that has run to its end: the
first part failed, or it succeeded and the second part produced the result. -/
theorem returns_try_iff (program : Fallible ε Call Reply α)
    (continuation : α → Fallible ε Call Reply β) (trace : Trace Call Reply)
    (result : Except ε β) :
    Returns (program >>= continuation).run trace result ↔
      (∃ error, result = .error error ∧ Returns program.run trace (.error error)) ∨
        ∃ first second value, trace = first ++ second ∧
          Returns program.run first (.ok value) ∧
          Returns (continuation value).run second result := by
  rw [ExceptT.run_bind, returns_bind_iff]
  constructor
  · rintro ⟨first, second, value, rfl, hfirst, hsecond⟩
    cases value with
    | error error =>
        simp only [pure_eq_done, returns_done_iff] at hsecond
        obtain ⟨rfl, rfl⟩ := hsecond
        exact .inl ⟨error, rfl, by simpa using hfirst⟩
    | ok value => exact .inr ⟨first, second, value, rfl, hfirst, hsecond⟩
  · rintro (⟨error, rfl, hfirst⟩ | ⟨first, second, value, rfl, hfirst, hsecond⟩)
    · exact ⟨trace, [], .error error, by simp, hfirst, .refl _⟩
    · exact ⟨first, second, .ok value, rfl, hfirst, hsecond⟩

/-- A program whose result is finally mapped. -/
theorem returns_map_iff (program : Fallible ε Call Reply α) (f : α → β)
    (trace : Trace Call Reply) (result : Except ε β) :
    Returns (do let value ← program; return f value : Fallible ε Call Reply β).run
        trace result ↔
      ∃ inner, Returns program.run trace inner ∧ result = inner.map f := by
  rw [returns_try_iff]
  simp only [Fallible.run_pure, returns_done_iff]
  constructor
  · rintro (⟨error, rfl, hreturns⟩ | ⟨first, second, value, rfl, hreturns, rfl, rfl⟩)
    · exact ⟨.error error, hreturns, rfl⟩
    · exact ⟨.ok value, by simpa using hreturns, rfl⟩
  · rintro ⟨inner, hreturns, rfl⟩
    cases inner with
    | error error => exact .inl ⟨error, rfl, hreturns⟩
    | ok value => exact .inr ⟨trace, [], value, by simp, hreturns, rfl, rfl⟩

/-! ## Which errors a program ends with -/

/-- As long as the calls are answered as assumed, the program fails with allowed
errors only. -/
def FailsOnly (assumed : Event Call Reply → Prop) (allowed : ε → Prop)
    (program : Fallible ε Call Reply α) : Prop :=
  ∀ trace error, Returns program.run trace (.error error) →
    (∀ event ∈ trace, assumed event) → allowed error

section FailsOnly

variable {assumed : Event Call Reply → Prop} {allowed : ε → Prop}

theorem FailsOnly.bind {program : Fallible ε Call Reply α}
    {continuation : α → Fallible ε Call Reply β} (hprogram : FailsOnly assumed allowed program)
    (hcontinuation : ∀ value, FailsOnly assumed allowed (continuation value)) :
    FailsOnly assumed allowed (program >>= continuation) := by
  intro trace error hreturns hassumed
  rcases (returns_try_iff _ _ _ _).mp hreturns with ⟨failure, hfailure, hfirst⟩ |
    ⟨first, second, value, rfl, -, hsecond⟩
  · cases hfailure
    exact hprogram trace error hfirst hassumed
  · exact hcontinuation value second error hsecond (List.forall_mem_append.mp hassumed).2

theorem failsOnly_ofExcept {result : Except ε α}
    (hresult : ∀ error, result = .error error → allowed error) :
    FailsOnly assumed allowed (Fallible.ofExcept result) := by
  intro trace error hreturns _
  obtain ⟨-, herror⟩ := (returns_done_iff _ _ _).mp hreturns
  exact hresult error herror.symm

theorem failsOnly_pure (value : α) :
    FailsOnly assumed allowed (pure value : Fallible ε Call Reply α) :=
  failsOnly_ofExcept nofun

theorem failsOnly_call (request : Call) :
    FailsOnly assumed allowed (Fallible.call request : Fallible ε Call Reply _) := by
  intro trace error hreturns _
  obtain ⟨reply, tail, -, hdone⟩ := (returns_ask_iff _ _ _ _).mp hreturns
  obtain ⟨-, hok⟩ := (returns_done_iff _ _ _).mp hdone
  cases hok

end FailsOnly

/-- A trace of a sequence of fallible programs that may stop anywhere. -/
theorem steps_try_iff (program : Fallible ε Call Reply α)
    (continuation : α → Fallible ε Call Reply β) (trace : Trace Call Reply)
    (rest : Program Call Reply (Except ε β)) :
    Steps (program >>= continuation).run trace rest ↔
      (∃ middle : Fallible ε Call Reply α, Steps program.run trace middle.run ∧
          rest = (middle >>= continuation).run) ∨
        ∃ first second value, trace = first ++ second ∧
          Returns program.run first (.ok value) ∧
          Steps (continuation value).run second rest := by
  rw [ExceptT.run_bind, steps_bind_iff]
  constructor
  · rintro (⟨middle, hmiddle, rfl⟩ | ⟨first, second, value, rfl, hfirst, hsecond⟩)
    · exact .inl ⟨ExceptT.mk middle, hmiddle, by rw [ExceptT.run_bind]; rfl⟩
    · cases value with
      | error error =>
          simp only [pure_eq_done, steps_done_iff] at hsecond
          obtain ⟨rfl, rfl⟩ := hsecond
          exact .inl ⟨ExceptT.mk (done (.error error)), by simpa [Returns] using hfirst, rfl⟩
      | ok value => exact .inr ⟨first, second, value, rfl, hfirst, hsecond⟩
  · rintro (⟨middle, hmiddle, rfl⟩ | ⟨first, second, value, rfl, hfirst, hsecond⟩)
    · exact .inl ⟨middle.run, hmiddle, by rw [ExceptT.run_bind]⟩
    · exact .inr ⟨first, second, .ok value, rfl, hfirst, hsecond⟩

/-- A call that cannot fail returns its reply. -/
theorem Fallible.returns_call_iff (request : Call) (trace : Trace Call Reply)
    (result : Except ε (Reply request)) :
    Returns (Fallible.call request : Fallible ε Call Reply (Reply request)).run trace
        result ↔
      ∃ reply, trace = [⟨request, reply⟩] ∧ result = .ok reply := by
  simp only [Fallible.run_call, returns_ask_iff, returns_done_iff]
  constructor
  · rintro ⟨reply, tail, rfl, rfl, rfl⟩
    exact ⟨reply, rfl, rfl⟩
  · rintro ⟨reply, rfl, rfl⟩
    exact ⟨reply, [], rfl, rfl, rfl⟩

end Fiudp.Interaction
