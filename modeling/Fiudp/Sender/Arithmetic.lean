import Fiudp.Sender.Nonces

/-!
# Machine arithmetic of `send`

On every frame a vector can hold, and on either word size, no operation of the send
path wraps, saturates or truncates: the machine computes what it would compute with
unbounded numbers.
-/

namespace Fiudp.Sender

open ByteLayout Protocol Interaction

variable {target : Target}

theorem parityCount_eq_ceil (ratio : ParityRatio) (dataShards : ℕ) :
    ratio.parityCount dataShards =
      ⌈((dataShards * ratio.percent.toNat : ℕ) : ℚ) / 100⌉₊ := by
  have hceil (parity : ℕ) : ⌈((dataShards * ratio.percent.toNat : ℕ) : ℚ) / 100⌉₊ ≤ parity ↔
      ratio.percent.toNat * dataShards ≤ 100 * parity := by
    rw [Nat.ceil_le, div_le_iff₀ (by norm_num), mul_comm dataShards, mul_comm 100 parity]
    norm_cast
  obtain ⟨hcovers, hleast⟩ := ratio.isLeast_parityCount dataShards
  apply le_antisymm
  · exact hleast ((hceil _).mp le_rfl)
  · exact (hceil _).mpr hcovers

/-- What the operations of `send` compute for a frame: the padded length, the shard
counts, their sum, and the numbers cast to `u16`. -/
structure ExactArithmetic (target : Target) (ratio : ParityRatio) (frame : List UInt8)
    (dataShards parityShards : ℕ) : Prop where
  padding_fits : frame.length + (shardSize - frame.length % shardSize) ≤ target.usizeMax
  padding_least : ∃ payload, padToShardSize target frame = .ok payload ∧
    IsLeast {length | 1400 ∣ length ∧ frame.length ≤ length} payload.length ∧
    payload.length / shardSize = dataShards ∧ payload.length = dataShards * 1400
  product_fits : dataShards * ratio.percent.toNat ≤ target.usizeMax
  product_eq : target.saturatingMul dataShards ratio.percent.toNat =
    dataShards * ratio.percent.toNat
  parity_eq : ratio.parityShards target dataShards = parityShards
  parity_ceil : parityShards = ⌈((dataShards * ratio.percent.toNat : ℕ) : ℚ) / 100⌉₊
  parity_le : parityShards ≤ dataShards
  /-- An empty frame has been rejected before its parity is computed. -/
  parity_zero_iff : frame ≠ [] → (parityShards = 0 ↔ ratio.percent.toNat = 0)
  parity_pos : frame ≠ [] → 0 < ratio.percent.toNat → 1 ≤ parityShards
  sum_eq : target.add dataShards parityShards = .ok (dataShards + parityShards)
  casts_exact : dataShards + parityShards ≤ 65535 →
    (UInt16.ofNat dataShards).toNat = dataShards ∧
      (UInt16.ofNat parityShards).toNat = parityShards ∧
      ∀ index < dataShards + parityShards,
        (UInt16.ofNat index).toNat = index ∧ index ≤ 65534
  /-- The packet builder announces the counts. -/
  builder_exact : dataShards + parityShards ≤ 65535 →
    ∀ (sessionId : SessionId) (rendezvousSecs : RendezvousSecs),
      (sessionBuilder sessionId rendezvousSecs dataShards parityShards).dataShards.raw.toNat =
          dataShards ∧
        (sessionBuilder sessionId rendezvousSecs dataShards parityShards).parityShards.raw.toNat =
          parityShards
  /-- The indices of the encryption loop, in any run that reads the frame. -/
  indices : ∀ {self : FiudpSender} {rendezvousSecs : RendezvousSecs} {sessionId : SessionId}
    {trace : Trace Call (Reply target)} {result : Result Unit},
    Returns (self.send ratio rendezvousSecs sessionId).run trace result →
    frameRead trace = some frame → ∃ count ≤ dataShards + parityShards,
      nonces trace = shardNonces sessionId 0 count ∧
        (0 < count → dataShards + parityShards ≤ 65535)

/-- All arithmetic of `send` is exact, for every frame a vector can hold, every ratio
and either word size. -/
theorem send_arithmetic_exact (ratio : ParityRatio) (frame : ByteVec target) :
    ExactArithmetic target ratio frame.val (dataCount frame.val)
      (parityCount ratio frame.val) := by
  have hframe := frame.property
  have husize := target.usizeMax_eq
  have hisize := target.isizeMax_eq
  have hsize : shardSize = 1400 := rfl
  have hcount : dataCount frame.val = (frame.val.length + 1399) / 1400 := shardCount_eq _
  have hpercent := Nat.mul_le_mul_left (dataCount frame.val) ratio.percent_le
  have hproduct : dataCount frame.val * ratio.percent.toNat ≤ target.usizeMax := by omega
  have hzero : frame.val ≠ [] →
      (parityCount ratio frame.val = 0 ↔ ratio.percent.toNat = 0) := fun hnonempty =>
    (ratio.parityCount_eq_zero_iff (dataCount_pos hnonempty)).trans UInt8.toNat_inj.symm
  constructor
  case padding_fits => omega
  case padding_least =>
    have hlength : (paddedFrame frame.val).length = dataCount frame.val * 1400 :=
      Blocks.length_padded shardSize_pos 0 _
    exact ⟨_, padToShardSize_eq target hframe, Blocks.isLeast_length_padded shardSize_pos 0 _,
      length_paddedFrame_div _, hlength⟩
  case product_fits => exact hproduct
  case product_eq => exact Target.saturatingMul_eq hproduct
  case parity_eq => exact ratio.parityShards_eq target hframe
  case parity_ceil => exact parityCount_eq_ceil ratio _
  case parity_le => exact ratio.parityCount_le _
  case parity_zero_iff => exact hzero
  case parity_pos =>
    intro hnonempty hpositive
    have hne := mt (hzero hnonempty).mp hpositive.ne'
    omega
  case sum_eq => exact Target.add_eq_ok (length_shards_le_usizeMax ratio frame)
  case casts_exact =>
    intro hguard
    refine ⟨toNat_ofNat_of_le (by omega), toNat_ofNat_of_le (by omega), ?_⟩
    intro index hindex
    exact ⟨toNat_ofNat_of_le (by omega), by omega⟩
  case builder_exact =>
    intro hguard _ _
    exact ⟨toNat_ofNat_of_le (by omega), toNat_ofNat_of_le (by omega)⟩
  case indices =>
    intro self rendezvousSecs sessionId trace result hreturns hread
    rcases nonces_of_frameRead hreturns with hnone |
      ⟨other, count, hother, haccepted, hcount, hnonces⟩
    · exact ⟨0, Nat.zero_le _, hnone, fun hlt => absurd hlt (lt_irrefl 0)⟩
    · cases hread.symm.trans hother
      exact ⟨count, hcount, hnonces, fun _ => haccepted.fits⟩

end Fiudp.Sender
