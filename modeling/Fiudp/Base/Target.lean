import Fiudp.Base.Error

/-!
# Word size and build profile

Arithmetic on `usize` depends on the width of a pointer, and an overflow either
panics or wraps depending on the build profile.  `usize` values are natural
numbers; the operations here put the bounds back in.
-/

namespace Fiudp

inductive PointerWidth
  | w32
  | w64
  deriving DecidableEq

/-- What a build of the crate fixes: the pointer width and the two checks of a
debug profile. -/
structure Target where
  pointerWidth : PointerWidth
  overflowChecks : Bool
  debugAssertions : Bool
  deriving DecidableEq

namespace Target

/-- A 64-bit release build. -/
def release64 : Target := ⟨.w64, false, false⟩

def bits (target : Target) : ℕ :=
  match target.pointerWidth with
  | .w32 => 32
  | .w64 => 64

def usizeMax (target : Target) : ℕ := 2 ^ target.bits - 1

/-- The largest size of an allocation, hence of a `Vec<u8>`. -/
def isizeMax (target : Target) : ℕ := 2 ^ (target.bits - 1) - 1

theorem isizeMax_eq (target : Target) :
    target.isizeMax = 2147483647 ∨ target.isizeMax = 9223372036854775807 := by
  cases hwidth : target.pointerWidth <;> simp [isizeMax, bits, hwidth]

theorem usizeMax_eq (target : Target) : target.usizeMax = 2 * target.isizeMax + 1 := by
  cases hwidth : target.pointerWidth <;> simp [usizeMax, isizeMax, bits, hwidth]

/-- `left + right` on `usize`. -/
def add (target : Target) (left right : ℕ) : Result ℕ :=
  if left + right ≤ target.usizeMax then .ok (left + right)
  else if target.overflowChecks then .error (.panic .arithmeticOverflow)
  else .ok ((left + right) % 2 ^ target.bits)

/-- `left.saturating_mul(right)` on `usize`. -/
def saturatingMul (target : Target) (left right : ℕ) : ℕ :=
  min (left * right) target.usizeMax

theorem add_eq_ok {target : Target} {left right : ℕ}
    (hfits : left + right ≤ target.usizeMax) :
    target.add left right = .ok (left + right) := by
  simp [add, hfits]

theorem saturatingMul_eq {target : Target} {left right : ℕ}
    (hfits : left * right ≤ target.usizeMax) :
    target.saturatingMul left right = left * right := by
  simp [saturatingMul, hfits]

end Target

/-- `usize::div_ceil`. -/
def divCeil (dividend divisor : ℕ) : ℕ :=
  if dividend % divisor > 0 then dividend / divisor + 1 else dividend / divisor

/-- A `Vec<u8>`: its length is at most `isize::MAX`. -/
abbrev ByteVec (target : Target) :=
  {bytes : List UInt8 // bytes.length ≤ target.isizeMax}

end Fiudp
