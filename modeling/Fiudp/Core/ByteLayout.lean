import Mathlib

/-!
# Fixed-size byte buffers and big-endian fields

Wire formats are assembled by copying fields into fixed ranges of a zeroed
buffer.  The lemmas here turn such a sequence of copies into the concatenation
of its fields, and read a field back from its range.
-/

namespace Fiudp.ByteLayout

/-- A byte array of fixed length, Rust's `[u8; length]`. -/
@[ext]
structure Bytes (length : ℕ) where
  toList : List UInt8
  length_toList : toList.length = length
  deriving DecidableEq

attribute [simp] Bytes.length_toList

/-- `[0u8; length]`. -/
def Bytes.zeroes (length : ℕ) : Bytes length :=
  ⟨List.replicate length 0, List.length_replicate⟩

/-! ## Overwriting a range -/

/-- Replace the items of `target` from `start` on by `source`. -/
def overwrite {α : Type*} (target : List α) (start : ℕ) (source : List α) : List α :=
  target.take start ++ source ++ target.drop (start + source.length)

theorem length_overwrite {α : Type*} (target source : List α) {start : ℕ}
    (hfits : start + source.length ≤ target.length) :
    (overwrite target start source).length = target.length := by
  simp only [overwrite, List.length_append, List.length_take, List.length_drop]
  omega

/-- Copies in increasing order: the part already written stays, and the copy
takes the place of the beginning of the rest. -/
theorem overwrite_append {α : Type*} (done rest source : List α) (start : ℕ)
    (hstart : done.length = start) :
    overwrite (done ++ rest) start source =
      done ++ source ++ rest.drop source.length := by
  subst hstart
  simp [overwrite, List.drop_append]

theorem overwrite_zero {α : Type*} (target source : List α) :
    overwrite target 0 source = source ++ target.drop source.length := by
  simp [overwrite]

/-- `out[start .. start + m].copy_from_slice(source)`, for a range inside the
buffer. -/
def Bytes.copyFromSlice {n m : ℕ} (out : Bytes n) (start : ℕ) (source : Bytes m)
    (hfits : start + m ≤ n) : Bytes n :=
  ⟨overwrite out.toList start source.toList, by
    rw [length_overwrite] <;> simp [hfits]⟩

@[simp]
theorem Bytes.toList_copyFromSlice {n m : ℕ} (out : Bytes n) (start : ℕ)
    (source : Bytes m) (hfits : start + m ≤ n) :
    (out.copyFromSlice start source hfits).toList =
      overwrite out.toList start source.toList := rfl

/-! ## Reading a range -/

/-- The `length` items from `start` on. -/
def slice {α : Type*} (items : List α) (start length : ℕ) : List α :=
  (items.drop start).take length

theorem length_slice {α : Type*} (items : List α) {start length : ℕ}
    (hfits : start + length ≤ items.length) : (slice items start length).length = length := by
  simp only [slice, List.length_take, List.length_drop]
  omega

/-- A field is read back from between what precedes it and what follows it. -/
theorem slice_append {α : Type*} (before field after : List α) {start length : ℕ}
    (hstart : before.length = start) (hlength : field.length = length) :
    slice (before ++ (field ++ after)) start length = field := by
  subst hstart hlength
  simp [slice]

theorem slice_zero {α : Type*} (field after : List α) {length : ℕ}
    (hlength : field.length = length) : slice (field ++ after) 0 length = field :=
  slice_append [] field after rfl hlength

theorem slice_end {α : Type*} (before field : List α) {start length : ℕ}
    (hstart : before.length = start) (hlength : field.length = length) :
    slice (before ++ field) start length = field := by
  simpa using slice_append before field [] hstart hlength

/-- Consecutive ranges join to one. -/
theorem slice_append_slice {α : Type*} (items : List α) (start first second : ℕ) :
    slice items start first ++ slice items (start + first) second =
      slice items start (first + second) := by
  simp [slice, List.take_add, List.drop_drop]

/-! ## Big-endian numbers -/

/-- The `width` lowest base-256 digits of `value`, the most significant first. -/
def beBytes : ℕ → ℕ → List UInt8
  | 0, _ => []
  | width + 1, value => beBytes width (value / 256) ++ [UInt8.ofNat value]

/-- The number a big-endian byte string denotes. -/
def beValue (bytes : List UInt8) : ℕ :=
  bytes.foldl (fun value byte => value * 256 + byte.toNat) 0

@[simp]
theorem length_beBytes (width value : ℕ) : (beBytes width value).length = width := by
  induction width generalizing value with
  | zero => rfl
  | succ width ih => simp [beBytes, ih]

@[simp]
theorem beValue_nil : beValue [] = 0 := rfl

@[simp]
theorem beValue_concat (bytes : List UInt8) (byte : UInt8) :
    beValue (bytes ++ [byte]) = beValue bytes * 256 + byte.toNat := by
  simp [beValue]

theorem beValue_lt (bytes : List UInt8) : beValue bytes < 256 ^ bytes.length := by
  induction bytes using List.reverseRecOn with
  | nil => simp
  | append_singleton bytes byte ih =>
      have hbyte := byte.toNat_lt
      rw [beValue_concat, List.length_append, List.length_singleton, pow_succ]
      omega

theorem beValue_beBytes {width value : ℕ} (hvalue : value < 256 ^ width) :
    beValue (beBytes width value) = value := by
  induction width generalizing value with
  | zero =>
      have : value = 0 := by simpa using hvalue
      simp [beBytes, this]
  | succ width ih =>
      have hdiv : value / 256 < 256 ^ width := by
        rw [pow_succ] at hvalue
        omega
      rw [beBytes, beValue_concat, ih hdiv, UInt8.toNat_ofNat']
      omega

theorem beBytes_beValue (bytes : List UInt8) :
    beBytes bytes.length (beValue bytes) = bytes := by
  induction bytes using List.reverseRecOn with
  | nil => rfl
  | append_singleton bytes byte ih =>
      have hbyte := byte.toNat_lt
      have hdiv : (beValue bytes * 256 + byte.toNat) / 256 = beValue bytes := by omega
      have hmod : UInt8.ofNat (beValue bytes * 256 + byte.toNat) = byte := by
        apply UInt8.toNat_inj.mp
        rw [UInt8.toNat_ofNat']
        omega
      rw [List.length_append, List.length_singleton, beBytes, beValue_concat, hdiv, hmod, ih]

end Fiudp.ByteLayout
