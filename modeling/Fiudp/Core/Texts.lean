import Mathlib

/-!
# Unambiguous texts

A text that starts with a tag, and a text in which a number stands before something else,
can be taken apart in one way only.
-/

namespace Fiudp.Texts

/-- No text of the family starts with another one. -/
def Incomparable {Tag : Type} (opening : Tag → String) : Prop :=
  ∀ left right, (opening left).toList <+: (opening right).toList → left = right

/-- Openings of which none starts with another one say where they end. -/
theorem Incomparable.append_inj {Tag : Type} {opening : Tag → String}
    (hopening : Incomparable opening) {left right : Tag} {rest other : String}
    (heq : opening left ++ rest = opening right ++ other) : left = right ∧ rest = other := by
  have hchars : (opening left).toList ++ rest.toList =
      (opening right).toList ++ other.toList := by
    rw [← String.toList_append, ← String.toList_append, heq]
  have htag : left = right := by
    rcases List.prefix_or_prefix_of_prefix (List.prefix_append _ rest.toList)
        (hchars ▸ List.prefix_append _ other.toList) with hleft | hright
    · exact hopening _ _ hleft
    · exact (hopening _ _ hright).symm
  subst htag
  exact ⟨rfl, String.toList_inj.mp (List.append_cancel_left hchars)⟩

/-- Where the run of characters of a class ends, a text splits in one way. -/
theorem append_inj_of_class {inClass : Char → Bool} {left right rest other : List Char}
    (hleft : ∀ char ∈ left, inClass char = true) (hright : ∀ char ∈ right, inClass char = true)
    (hrest : rest.takeWhile inClass = []) (hother : other.takeWhile inClass = [])
    (heq : left ++ rest = right ++ other) : left = right ∧ rest = other := by
  have hsame : left = right := by
    calc left = (left ++ rest).takeWhile inClass := by
          rw [List.takeWhile_append_of_pos hleft, hrest, List.append_nil]
      _ = (right ++ other).takeWhile inClass := by rw [heq]
      _ = right := by rw [List.takeWhile_append_of_pos hright, hother, List.append_nil]
  subst hsame
  exact ⟨rfl, List.append_cancel_left heq⟩

theorem isDigit_of_mem_toString {number : ℕ} {char : Char}
    (hmem : char ∈ (toString number).toList) : char.isDigit = true := by
  change char ∈ (Nat.repr number).toList at hmem
  rw [Nat.toList_repr] at hmem
  exact Nat.isDigit_of_mem_toDigits (by decide) (by decide) hmem

theorem toString_inj {left right : ℕ} (heq : toString left = toString right) : left = right :=
  Nat.repr_inj.mp heq

/-- A number and what follows it, which does not start with a digit. -/
theorem toString_append_inj {left right : ℕ} {rest other : String}
    (hrest : rest.toList.takeWhile Char.isDigit = [])
    (hother : other.toList.takeWhile Char.isDigit = [])
    (heq : toString left ++ rest = toString right ++ other) : left = right ∧ rest = other := by
  have hchars : (toString left).toList ++ rest.toList =
      (toString right).toList ++ other.toList := by
    rw [← String.toList_append, ← String.toList_append, heq]
  obtain ⟨hnumber, hsame⟩ := append_inj_of_class (fun char => isDigit_of_mem_toString)
    (fun char => isDigit_of_mem_toString) hrest hother hchars
  exact ⟨toString_inj (String.toList_inj.mp hnumber), String.toList_inj.mp hsame⟩

end Fiudp.Texts
