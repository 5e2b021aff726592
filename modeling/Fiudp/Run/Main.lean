import Fiudp.Base.Message
import Fiudp.Run.Causes

/-!
# The process

`main` from the parsed arguments on, and what the line it prints tells about the run.
-/

namespace Fiudp.Run

open Interaction Sender Session Os

variable {target : Target}

/-- The end of the process: exit code 0, or 1 after a line on standard error, or the exit code
of a panic. -/
inductive Exit
  | success
  | failure (line : String)
  | panicked (panic : Panic)
  deriving DecidableEq

/-- `eprintln!("error: {e}")`. -/
def errorLine (error : FiudpError) : String :=
  "error: " ++ error.display

/-- `if let Err(e) = run(config) { .. }`.  A standard error that cannot be written to, on which
`eprintln!` panics, is not modelled. -/
def exitOf : Result Unit → Exit
  | .ok () => .success
  | .error (.error error) => .failure (errorLine error)
  | .error (.panic panic) => .panicked panic

/-- `main`. -/
def main (crate : ReedSolomon) (args : Args) : Program Syscall (SysReply target) Exit :=
  match Config.tryFrom args with
  | .error error => .done (.failure (errorLine error))
  | .ok config => do
      let result ← (run crate config).run
      return exitOf result

theorem errorLine_eq_iff (left right : FiudpError) :
    errorLine left = errorLine right ↔ left.SameCause right :=
  (String.append_right_inj _).trans (left.display_eq_iff right)

/-- The error a process ends for: its arguments are refused before any call, or its last call is
the first one that has not succeeded. -/
inductive EndsFor (crate : ReedSolomon) (args : Args) : SysTrace target → FiudpError → Prop
  | refused {error : FiudpError} : Config.tryFrom args = .error error → EndsFor crate args [] error
  | call {config : Config} {before : SysTrace target} {last : Event Syscall (SysReply target)}
      {error : FiudpError} : Config.tryFrom args = .ok config →
      GoesOn crate config .key before →
      ¬ Succeeded crate config (Reading.key.after before) last →
      Causes crate config (Reading.key.after before) last error →
        EndsFor crate args (before ++ [last]) error

/-- A run ends well exactly when all its calls succeed. -/
theorem Explained.eq_ok_iff {crate : ReedSolomon} {config : Config} {reading : Reading}
    {trace : SysTrace target} {result : Result Unit}
    (hexplained : Explained crate config reading trace result) :
    result = .ok () ↔ GoesOn crate config reading trace := by
  rcases hexplained with ⟨hok, hall⟩ | ⟨before, last, error, rfl, rfl, hcauses, -⟩
  · exact iff_of_true hok hall
  · refine iff_of_false nofun fun hall => ?_
    obtain ⟨-, hlast, -⟩ := goesOn_append_iff.mp hall
    exact hcauses.not_succeeded hlast

theorem exitOf_eq_success_iff (result : Result Unit) :
    exitOf result = .success ↔ result = .ok () := by
  rcases result with (error | panic) | ⟨⟩ <;> simp [exitOf]

/-- The process ends well exactly when its arguments are accepted and all its calls succeed.
Otherwise it ends at its first call that does not, and it prints one line: the line tells the
error that belongs to this call, but for the source of an I/O error. -/
theorem main_diagnosed {crate : ReedSolomon} (hcrate : crate.Documented) {args : Args}
    {trace : SysTrace target} {exit : Exit} (hinPlace : ∀ event ∈ trace, InPlace event)
    (hreturns : Returns (main crate args) trace exit) :
    (exit = .success ↔ ∃ config, Config.tryFrom args = .ok config ∧
        GoesOn crate config .key trace) ∧
      (exit ≠ .success → ∃ error, EndsFor crate args trace error ∧
        ∀ other, exit = .failure (errorLine other) ↔ other.SameCause error) := by
  have hline : ∀ error other : FiudpError,
      Exit.failure (errorLine error) = .failure (errorLine other) ↔ other.SameCause error := by
    intro error other
    rw [Exit.failure.injEq, eq_comm]
    exact errorLine_eq_iff other error
  rw [main] at hreturns
  cases hconfig : Config.tryFrom args with
  | error error =>
      rw [hconfig] at hreturns
      obtain ⟨rfl, rfl⟩ := (returns_done_iff _ _ _).mp hreturns
      refine ⟨iff_of_false (by simp) (by simp), fun _ => ?_⟩
      exact ⟨error, .refused hconfig, hline error⟩
  | ok config =>
      rw [hconfig] at hreturns
      obtain ⟨first, second, result, rfl, hrun, hexit⟩ := (returns_bind_iff _ _ _ _).mp hreturns
      obtain ⟨rfl, rfl⟩ := (returns_done_iff _ _ _).mp hexit
      rw [List.append_nil] at hinPlace ⊢
      have hexplained := run_explained hcrate hinPlace hrun
      have hgoesOn : exitOf result = .success ↔ GoesOn crate config .key first :=
        (exitOf_eq_success_iff result).trans hexplained.eq_ok_iff
      refine ⟨by simpa using hgoesOn, fun hfailed => ?_⟩
      rcases hexplained with ⟨rfl, -⟩ | ⟨before, last, error, rfl, rfl, hcauses, hbefore⟩
      · exact absurd rfl hfailed
      · exact ⟨error, .call hconfig hbefore hcauses.not_succeeded hcauses, hline error⟩

/-! ## Two processes -/

def sampleArgs : Args where
  target := ![127, 0, 0, 1]
  wakeAt := 60
  keyFile := sampleKeyPath
  image := none
  parityRatio := 100
  port := 5050
  delayUs := 500
  chaosBurst := 0
  chaosDrop := 0
  chaosShuffle := false

theorem returns_main_of_run {crate : ReedSolomon} {trace : SysTrace target}
    {result : Result Unit}
    (hreturns : Returns (run crate (sampleConfig sampleKeyPath)).run trace result) :
    Returns (main crate sampleArgs) trace (exitOf result) :=
  (returns_bind_iff _ _ _ _).mpr ⟨trace, [], result, (List.append_nil trace).symm, hreturns,
    .refl _⟩

/-- The only call of a process that finds 31 bytes in its key file. -/
def shortKeyTrace : SysTrace Target.release64 :=
  [⟨.read sampleKeyPath, .ok ⟨List.replicate 31 0, by decide⟩⟩]

theorem returns_shortKeyTrace (crate : ReedSolomon) :
    Returns (run crate (sampleConfig sampleKeyPath)).run shortKeyTrace
      (.error (.error (.invalidKeyLength 31))) := by
  rw [run_run]
  exact .ask _ _ _ (.refl _)

/-- One process finds a key file and ends well, and one finds a key of 31 bytes. -/
theorem main_diagnosed_sample :
    (∃ trace : SysTrace Target.release64, Returns (main copyingCrate sampleArgs) trace .success ∧
      ∃ config, Config.tryFrom sampleArgs = .ok config ∧
        GoesOn copyingCrate config .key trace) ∧
    ∃ (trace : SysTrace Target.release64) (error : FiudpError),
      Returns (main copyingCrate sampleArgs) trace
        (.failure "error: key file must contain exactly 32 bytes, got 31") ∧
      EndsFor copyingCrate sampleArgs trace error := by
  constructor
  · obtain ⟨attempt, raw, -, hrun, -⟩ :=
      Ready.exists_plainRun (sampleConfig sampleKeyPath) rfl rfl ready_sampleFiles (by omega)
    have hok : Returns (run copyingCrate (sampleConfig sampleKeyPath)).run attempt.trace
        (.ok ()) := by
      rw [Returns, ← hrun.rest_eq, ← hrun.crate_eq, ← hrun.config_eq]
      exact attempt.steps
    have hreturns := returns_main_of_run hok
    exact ⟨attempt.trace, hreturns,
      (main_diagnosed documented_copyingCrate (inPlace_of_plain hrun.plain) hreturns).1.mp rfl⟩
  · have hline : errorLine (.invalidKeyLength 31) =
        "error: key file must contain exactly 32 bytes, got 31" := by
      decide +kernel
    have hreturns := returns_main_of_run (returns_shortKeyTrace copyingCrate)
    rw [exitOf, hline] at hreturns
    obtain ⟨error, hends, -⟩ :=
      (main_diagnosed documented_copyingCrate (by simp [shortKeyTrace, InPlace]) hreturns).2
        (by simp)
    exact ⟨shortKeyTrace, error, hreturns, hends⟩

end Fiudp.Run
