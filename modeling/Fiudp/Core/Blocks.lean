import Mathlib

/-!
# Cutting a byte string into blocks

Padding a list to a multiple of a block size, cutting it into full blocks, and
joining the blocks again.
-/

namespace Fiudp.Blocks

variable {α : Type*}

/-- The number of blocks of `size` items that hold `length` items. -/
def blockCount (size length : ℕ) : ℕ :=
  (length + (size - 1)) / size

/-- `items` followed by as many `fill` as complete its last block. -/
def padded (size : ℕ) (fill : α) (items : List α) : List α :=
  items ++ List.replicate (blockCount size items.length * size - items.length) fill

/-- The full blocks of `items`, in order; what does not fill a block is left
out. -/
def chunksExact (size : ℕ) (items : List α) : List (List α) :=
  (List.range (items.length / size)).map fun index =>
    (items.drop (index * size)).take size

theorem length_le_blockCount_mul {size : ℕ} (hsize : 0 < size) (length : ℕ) :
    length ≤ blockCount size length * size := by
  have hmod := Nat.div_add_mod' (length + (size - 1)) size
  have hlt := Nat.mod_lt (length + (size - 1)) hsize
  unfold blockCount
  omega

theorem blockCount_mul_lt {size : ℕ} (hsize : 0 < size) (length : ℕ) :
    blockCount size length * size < length + size := by
  have hdiv := Nat.div_mul_le_self (length + (size - 1)) size
  unfold blockCount
  omega

theorem blockCount_pos {size length : ℕ} (hsize : 0 < size) (hlength : 0 < length) :
    0 < blockCount size length := by
  have hle := length_le_blockCount_mul hsize length
  apply Nat.pos_of_ne_zero
  intro hzero
  simp only [hzero, zero_mul] at hle
  omega

theorem length_padded {size : ℕ} (hsize : 0 < size) (fill : α) (items : List α) :
    (padded size fill items).length = blockCount size items.length * size := by
  have hle := length_le_blockCount_mul hsize items.length
  simp only [padded, List.length_append, List.length_replicate]
  omega

/-- Padding reaches the least multiple of the block size that holds the list. -/
theorem isLeast_length_padded {size : ℕ} (hsize : 0 < size) (fill : α) (items : List α) :
    IsLeast {length | size ∣ length ∧ items.length ≤ length}
      (padded size fill items).length := by
  rw [length_padded hsize]
  constructor
  · exact ⟨Nat.dvd_mul_left _ _, length_le_blockCount_mul hsize _⟩
  · rintro length ⟨⟨count, rfl⟩, hholds⟩
    have hlt : blockCount size items.length * size < (count + 1) * size := by
      calc blockCount size items.length * size < items.length + size :=
            blockCount_mul_lt hsize _
        _ ≤ size * count + size := Nat.add_le_add_right hholds size
        _ = (count + 1) * size := by ring
    rw [mul_comm]
    exact Nat.mul_le_mul_left _ (Nat.le_of_lt_succ (Nat.lt_of_mul_lt_mul_right hlt))

/-! ## What padding forgets -/

/-- The second list is the first one followed by nothing but `fill`. -/
def ExtendedBy (fill : α) (items longer : List α) : Prop :=
  ∃ extra, longer = items ++ List.replicate extra fill

theorem padded_append_replicate {size : ℕ} (hsize : 0 < size) (fill : α) (items : List α)
    {extra : ℕ} (hcount : blockCount size items.length =
      blockCount size (items ++ List.replicate extra fill).length) :
    padded size fill (items ++ List.replicate extra fill) = padded size fill items := by
  have hle := length_le_blockCount_mul hsize (items ++ List.replicate extra fill).length
  rw [padded, padded, ← hcount, List.append_assoc, List.replicate_append_replicate]
  rw [← hcount, List.length_append, List.length_replicate] at hle
  congr 2
  rw [List.length_append, List.length_replicate]
  omega

theorem extendedBy_of_append_eq {fill : α} {left right : List α} {leftFill rightFill : ℕ}
    (heq : left ++ List.replicate leftFill fill = right ++ List.replicate rightFill fill) :
    ExtendedBy fill left right ∨ ExtendedBy fill right left := by
  rcases List.append_eq_append_iff.mp heq with ⟨extra, hright, hfill⟩ | ⟨extra, hleft, hfill⟩
  · obtain ⟨-, hextra, -⟩ := List.replicate_eq_append_iff.mp hfill
    exact .inl ⟨extra.length, by rw [hright, ← hextra]⟩
  · obtain ⟨-, hextra, -⟩ := List.replicate_eq_append_iff.mp hfill
    exact .inr ⟨extra.length, by rw [hleft, ← hextra]⟩

/-- Padding tells two lists apart unless they fill the same number of blocks and differ
in trailing `fill` only. -/
theorem padded_eq_padded_iff {size : ℕ} (hsize : 0 < size) (fill : α) (left right : List α) :
    padded size fill left = padded size fill right ↔
      blockCount size left.length = blockCount size right.length ∧
        (ExtendedBy fill left right ∨ ExtendedBy fill right left) := by
  constructor
  · intro heq
    have hlengths := congrArg List.length heq
    rw [length_padded hsize, length_padded hsize] at hlengths
    exact ⟨Nat.eq_of_mul_eq_mul_right hsize hlengths, extendedBy_of_append_eq heq⟩
  · rintro ⟨hcount, ⟨extra, rfl⟩ | ⟨extra, rfl⟩⟩
    · exact (padded_append_replicate hsize fill left hcount).symm
    · exact padded_append_replicate hsize fill right hcount.symm

/-! ## Full blocks -/

@[simp]
theorem length_chunksExact (size : ℕ) (items : List α) :
    (chunksExact size items).length = items.length / size := by
  simp [chunksExact]

theorem length_of_mem_chunksExact {size : ℕ} {items block : List α}
    (hmem : block ∈ chunksExact size items) : block.length = size := by
  simp only [chunksExact, List.mem_map, List.mem_range] at hmem
  obtain ⟨index, hindex, rfl⟩ := hmem
  have hfits : (index + 1) * size ≤ items.length :=
    (Nat.mul_le_mul_right size hindex).trans (Nat.div_mul_le_self items.length size)
  rw [add_one_mul] at hfits
  simp only [List.length_take, List.length_drop]
  omega

theorem getElem_chunksExact (size : ℕ) (items : List α) (index : ℕ)
    (hindex : index < (chunksExact size items).length) :
    (chunksExact size items)[index] = (items.drop (index * size)).take size := by
  simp [chunksExact]

/-- Joining the first blocks gives back the beginning of the list. -/
theorem flatten_take_chunksExact (size : ℕ) (items : List α) {count : ℕ}
    (hcount : count ≤ items.length / size) :
    ((chunksExact size items).take count).flatten = items.take (count * size) := by
  induction count with
  | zero => simp
  | succ count ih =>
      have hlt : count < (chunksExact size items).length := by
        rw [length_chunksExact]
        omega
      rw [List.take_succ_eq_append_getElem hlt, List.flatten_append, ih (by omega),
        getElem_chunksExact]
      simp [add_one_mul, List.take_add]

/-- A list of full blocks is the concatenation of its blocks. -/
theorem flatten_chunksExact {size : ℕ} {items : List α} (hdvd : size ∣ items.length) :
    (chunksExact size items).flatten = items := by
  have htake := flatten_take_chunksExact size items (le_refl (items.length / size))
  rw [Nat.div_mul_cancel hdvd, List.take_length] at htake
  rwa [List.take_of_length_le (by simp)] at htake

/-- The blocks of a padded list join to the padded list. -/
theorem flatten_chunksExact_padded {size : ℕ} (hsize : 0 < size) (fill : α)
    (items : List α) :
    (chunksExact size (padded size fill items)).flatten = padded size fill items :=
  flatten_chunksExact (by rw [length_padded hsize]; exact Nat.dvd_mul_left ..)

theorem length_chunksExact_padded {size : ℕ} (hsize : 0 < size) (fill : α)
    (items : List α) :
    (chunksExact size (padded size fill items)).length = blockCount size items.length := by
  rw [length_chunksExact, length_padded hsize, Nat.mul_div_cancel _ hsize]

end Fiudp.Blocks
