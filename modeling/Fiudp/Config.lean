import Fiudp.Base.Target
import Fiudp.Wire.Protocol

/-!
# Configuration

The parity ratio and the other settings a run is given.
-/

namespace Fiudp

/-- A parity percentage.  The field is private to the module that checks it, so
every value there is lies in `0..=100`. -/
structure ParityRatio where
  percent : UInt8
  percent_le : percent.toNat ≤ 100

namespace ParityRatio

def tryFrom (value : UInt8) : Except FiudpError ParityRatio :=
  if hvalue : value.toNat > 100 then .error (.invalidParityRatio value)
  else .ok ⟨value, Nat.not_lt.mp hvalue⟩

/-- `ParityRatio::parity_shards`. -/
def parityShards (target : Target) (ratio : ParityRatio) (dataShards : ℕ) : ℕ :=
  if ratio.percent = 0 then 0
  else
    let numerator := target.saturatingMul dataShards ratio.percent.toNat
    divCeil numerator 100

/-- `ceil(d * r / 100)`, on unbounded numbers. -/
def parityCount (ratio : ParityRatio) (dataShards : ℕ) : ℕ :=
  (dataShards * ratio.percent.toNat + 99) / 100

/-- The parity count is the least number whose hundredfold covers `d * r`. -/
theorem isLeast_parityCount (ratio : ParityRatio) (dataShards : ℕ) :
    IsLeast {parity : ℕ | ratio.percent.toNat * dataShards ≤ 100 * parity}
      (ratio.parityCount dataShards) := by
  constructor
  · simp only [Set.mem_ofPred_eq, parityCount, mul_comm dataShards]
    omega
  · intro parity hparity
    simp only [Set.mem_ofPred_eq, mul_comm _ dataShards] at hparity
    simp only [parityCount]
    omega

theorem parityCount_eq_zero_iff (ratio : ParityRatio) {dataShards : ℕ}
    (hdata : 0 < dataShards) : ratio.parityCount dataShards = 0 ↔ ratio.percent = 0 := by
  constructor
  · intro hzero
    by_contra hpercent
    have hpos : 0 < ratio.percent.toNat := by
      apply Nat.pos_of_ne_zero
      intro heq
      exact hpercent (UInt8.toNat_inj.mp heq)
    have hmul := Nat.mul_pos hdata hpos
    simp only [parityCount] at hzero
    omega
  · intro hpercent
    simp [parityCount, hpercent]

theorem parityCount_le (ratio : ParityRatio) (dataShards : ℕ) :
    ratio.parityCount dataShards ≤ dataShards := by
  have hmul := Nat.mul_le_mul_left dataShards ratio.percent_le
  simp only [parityCount]
  omega

/-- The product does not saturate on any frame a vector can hold, so the shard
count computed is the exact one. -/
theorem parityShards_eq (target : Target) (ratio : ParityRatio) {length : ℕ}
    (hlength : length ≤ target.isizeMax) :
    ratio.parityShards target (Protocol.shardCount length) =
      ratio.parityCount (Protocol.shardCount length) := by
  have hmul := Nat.mul_le_mul_left (Protocol.shardCount length) ratio.percent_le
  have hcount := Protocol.shardCount_eq length
  have husize := target.usizeMax_eq
  have hisize := target.isizeMax_eq
  have hfits : Protocol.shardCount length * ratio.percent.toNat ≤ target.usizeMax := by
    omega
  by_cases hpercent : ratio.percent = 0
  · simp [parityShards, parityCount, hpercent]
  · rw [parityShards, if_neg hpercent, Target.saturatingMul_eq hfits]
    simp only [divCeil, parityCount]
    split <;> omega

end ParityRatio

end Fiudp
