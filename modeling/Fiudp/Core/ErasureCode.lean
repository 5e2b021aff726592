import Mathlib

/-!
# Erasure codes

A code is a set of words.  It tolerates erasures when a number of positions, no
matter which, determine a word; the decoder then finds the only word that agrees
with what was received.
-/

namespace Fiudp.ErasureCode

variable {α : Type*}

/-- Any `count` positions determine a word of the code. -/
def Determines (count : ℕ) (words : Set (List α)) : Prop :=
  ∀ left ∈ words, ∀ right ∈ words, ∀ positions : Finset ℕ, count ≤ positions.card →
    (∀ position ∈ positions, ∃ item,
      left[position]? = some item ∧ right[position]? = some item) → left = right

/-- Every received item is the one of the word at its position. -/
def Agrees (word : List α) (received : List (ℕ × α)) : Prop :=
  ∀ entry ∈ received, word[entry.1]? = some entry.2

open Classical in
/-- The decoder: a word of the code that agrees with what was received. -/
noncomputable def recover (words : Set (List α)) (received : List (ℕ × α)) :
    Option (List α) :=
  if hword : ∃ word ∈ words, Agrees word received then some hword.choose else none

/-- What was received from a word gives it back, if it is enough to determine
it. -/
theorem recover_eq_some {count : ℕ} {words : Set (List α)}
    (hwords : Determines count words) {word : List α} (hword : word ∈ words)
    {received : List (ℕ × α)} (hagrees : Agrees word received)
    (henough : count ≤ (received.map Prod.fst).toFinset.card) :
    recover words received = some word := by
  have hexists : ∃ word ∈ words, Agrees word received := ⟨word, hword, hagrees⟩
  obtain ⟨hchosen, hchosenAgrees⟩ := hexists.choose_spec
  rw [recover, dif_pos hexists]
  congr 1
  refine hwords _ hchosen _ hword _ henough fun position hposition => ?_
  simp only [List.mem_toFinset, List.mem_map] at hposition
  obtain ⟨entry, hentry, rfl⟩ := hposition
  exact ⟨entry.2, hchosenAgrees entry hentry, hagrees entry hentry⟩

/-- Without redundancy all positions are needed, and they are enough. -/
theorem determines_setOf_length (count : ℕ) :
    Determines count {word : List α | word.length = count} := by
  intro left hleft right hright positions hcard hagree
  have hsubset : positions ⊆ Finset.range count := by
    intro position hposition
    obtain ⟨item, hitem, -⟩ := hagree position hposition
    obtain ⟨hlt, -⟩ := List.getElem?_eq_some_iff.mp hitem
    rw [Finset.mem_range, ← show left.length = count from hleft]
    exact hlt
  have hall : positions = Finset.range count :=
    Finset.eq_of_subset_of_card_le hsubset (by rwa [Finset.card_range])
  apply List.ext_getElem?
  intro position
  by_cases hposition : position < count
  · obtain ⟨item, hitem, hsame⟩ := hagree position (by rwa [hall, Finset.mem_range])
    rw [hitem, hsame]
  · rw [List.getElem?_eq_none (by rw [show left.length = count from hleft]; omega),
      List.getElem?_eq_none (by rw [show right.length = count from hright]; omega)]

end Fiudp.ErasureCode
