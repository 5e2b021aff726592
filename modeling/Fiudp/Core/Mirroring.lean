import Fiudp.Core.Components

/-!
# Programs that mirror each other

Two programs that make the same calls up to a disguise, whatever they are answered, and
return the same values.  What is disguised has no other influence on what they do.
-/

namespace Fiudp.Interaction

variable {Call Call' : Type} {Reply : Call → Type} {Reply' : Call' → Type}
variable {α β : Type}

/-- The calls as they are disguised, answered the same way. -/
structure Disguise (Call : Type) (Reply : Call → Type) where
  call : Call → Call
  reply : (request : Call) → Reply request → Reply (call request)

def Disguise.event (disguise : Disguise Call Reply) (event : Event Call Reply) :
    Event Call Reply :=
  ⟨disguise.call event.call, disguise.reply event.call event.reply⟩

/-- The disguise leaves the call alone. -/
def Disguise.Fixes (disguise : Disguise Call Reply) (call : Call) : Prop :=
  disguise.call call = call ∧ ∀ reply, disguise.reply call reply ≍ reply

/-- The program on the right makes the disguised calls of the one on the left. -/
inductive Mirrors (disguise : Disguise Call Reply) :
    Program Call Reply α → Program Call Reply α → Prop
  | done (value : α) : Mirrors disguise (.done value) (.done value)
  | ask (call : Call) (next : Reply call → Program Call Reply α)
      (mirrored : Reply (disguise.call call) → Program Call Reply α) :
      (∀ reply, Mirrors disguise (next reply) (mirrored (disguise.reply call reply))) →
        Mirrors disguise (.ask call next) (.ask (disguise.call call) mirrored)

variable {disguise : Disguise Call Reply} {left right rest : Program Call Reply α}

theorem Mirrors.bind {leftRest rightRest : α → Program Call Reply β}
    (hmirrors : Mirrors disguise left right)
    (hrest : ∀ value, Mirrors disguise (leftRest value) (rightRest value)) :
    Mirrors disguise (left >>= leftRest) (right >>= rightRest) := by
  induction hmirrors with
  | done value => exact hrest value
  | ask call next mirrored _ ih => exact .ask call _ _ ih

/-- Early exits are mirrored like the rest. -/
theorem Mirrors.fallible_bind {ε : Type} {left right : Fallible ε Call Reply α}
    {leftRest rightRest : α → Fallible ε Call Reply β}
    (hmirrors : Mirrors disguise left.run right.run)
    (hrest : ∀ value, Mirrors disguise (leftRest value).run (rightRest value).run) :
    Mirrors disguise (left >>= leftRest).run (right >>= rightRest).run := by
  rw [ExceptT.run_bind, ExceptT.run_bind]
  apply hmirrors.bind
  intro result
  cases result with
  | error error => exact .done _
  | ok value => exact hrest value

/-- One program on components that mirror each other. -/
theorem Mirrors.plug {disguise : Disguise Call' Reply'}
    {leftComponent rightComponent : (call : Call) → Program Call' Reply' (Reply call)}
    (hcomponents : ∀ call, Mirrors disguise (leftComponent call) (rightComponent call))
    (program : Program Call Reply α) :
    Mirrors disguise (program.plug leftComponent) (program.plug rightComponent) := by
  induction program with
  | done value => exact .done value
  | ask call next ih => exact (hcomponents call).bind ih

theorem ask_cast {call other : Call} (hcall : other = call)
    (next : Reply call → Program Call Reply α) :
    (.ask other fun reply => next (cast (congrArg Reply hcall) reply)) = Program.ask call next := by
  subst hcall
  rfl

theorem Mirrors.ask_self {call : Call} {next : Reply call → Program Call Reply α}
    (hfixes : disguise.Fixes call)
    (hnext : ∀ reply, Mirrors disguise (next reply) (next reply)) :
    Mirrors disguise (.ask call next) (.ask call next) := by
  have hask : Mirrors disguise (.ask call next)
      (.ask (disguise.call call) fun reply => next (cast (congrArg Reply hfixes.1) reply)) := by
    apply Mirrors.ask
    intro reply
    rw [eq_of_heq ((cast_heq _ _).trans (hfixes.2 reply))]
    exact hnext reply
  rwa [ask_cast hfixes.1 next] at hask

/-- A program that makes only calls the disguise leaves alone mirrors itself. -/
theorem Mirrors.of_callsOnly {program : Program Call Reply α}
    (hcalls : program.CallsOnly disguise.Fixes) : Mirrors disguise program program := by
  induction program with
  | done value => exact .done value
  | ask call next ih =>
      exact .ask_self hcalls.1 fun reply => ih reply (hcalls.2 reply)

/-- A run of the one, killed anywhere, is a run of the other on the disguised calls. -/
theorem Mirrors.steps {trace : Trace Call Reply} (hmirrors : Mirrors disguise left right)
    (hsteps : Steps left trace rest) :
    ∃ mirrored, Steps right (trace.map disguise.event) mirrored ∧
      Mirrors disguise rest mirrored := by
  induction hsteps generalizing right with
  | refl program => exact ⟨right, .refl _, hmirrors⟩
  | ask call next reply _ ih =>
      cases hmirrors with
      | ask _ _ mirrored hnext =>
          obtain ⟨other, hother, hrest⟩ := ih (hnext reply)
          exact ⟨other, .ask _ mirrored _ hother, hrest⟩

theorem Mirrors.value?_eq (hmirrors : Mirrors disguise left right) :
    right.value? = left.value? := by
  cases hmirrors <;> rfl

end Fiudp.Interaction
