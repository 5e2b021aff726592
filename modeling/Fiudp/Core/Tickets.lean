import Mathlib

/-!
# Tickets

A counter hands out consecutive numbers to several holders.  The ledger says
which numbers each of them has; handing out the next number keeps it.
-/

namespace Fiudp.Tickets

variable {ι : Type*}

/-- The numbers after `initial` up to `value`, each held once. -/
structure Ledger [Fintype ι] (initial value : ℕ) (held : ι → List ℕ) : Prop where
  bounded : ∀ i, ∀ ticket ∈ held i, initial < ticket ∧ ticket ≤ value
  nodup : ∀ i, (held i).Nodup
  disjoint : ∀ i j, i ≠ j → ∀ ticket ∈ held i, ticket ∉ held j
  count : initial + ∑ i, (held i).length = value

variable [Fintype ι]

theorem ledger_nil (initial : ℕ) : Ledger initial initial fun _ : ι => [] where
  bounded := by simp
  nodup := by simp
  disjoint := by simp
  count := by simp

/-- The next number goes to one of the holders. -/
theorem Ledger.issue [DecidableEq ι] {initial value : ℕ} {held : ι → List ℕ}
    (hledger : Ledger initial value held) (i : ι) :
    Ledger initial (value + 1) (Function.update held i (held i ++ [value + 1])) := by
  have hinitial : initial ≤ value := by
    have hcount := hledger.count
    omega
  have hfresh : ∀ j, value + 1 ∉ held j := by
    intro j hmem
    have hbound := (hledger.bounded j _ hmem).2
    omega
  have hheld : ∀ j ticket, ticket ∈ Function.update held i (held i ++ [value + 1]) j →
      ticket ∈ held j ∨ j = i ∧ ticket = value + 1 := by
    intro j ticket hmem
    by_cases hj : j = i
    · subst hj
      rw [Function.update_self, List.mem_append, List.mem_singleton] at hmem
      exact hmem.imp_right fun heq => ⟨rfl, heq⟩
    · rw [Function.update_of_ne hj] at hmem
      exact .inl hmem
  constructor
  case bounded =>
    intro j ticket hmem
    rcases hheld j ticket hmem with hold | ⟨-, rfl⟩
    · have hbound := hledger.bounded j ticket hold
      omega
    · omega
  case nodup =>
    intro j
    by_cases hj : j = i
    · subst hj
      rw [Function.update_self, List.nodup_append]
      refine ⟨hledger.nodup j, List.nodup_singleton _, ?_⟩
      rintro ticket hmem _ hnew rfl
      rw [List.mem_singleton.mp hnew] at hmem
      exact hfresh j hmem
    · rw [Function.update_of_ne hj]
      exact hledger.nodup j
  case disjoint =>
    intro j k hjk ticket hj hk
    rcases hheld j ticket hj with hold | ⟨rfl, rfl⟩ <;>
      rcases hheld k _ hk with hother | ⟨rfl, hnew⟩
    · exact hledger.disjoint j k hjk ticket hold hother
    · exact hfresh j (hnew ▸ hold)
    · exact hfresh k hother
    · exact hjk rfl
  case count =>
    have hlength : (fun j => (Function.update held i (held i ++ [value + 1]) j).length) =
        Function.update (fun j => (held j).length) i ((held i).length + 1) := by
      funext j
      by_cases hj : j = i
      · subst hj
        simp
      · simp [hj]
    have hsum := Finset.add_sum_erase Finset.univ (fun j => (held j).length)
      (Finset.mem_univ i)
    have hcount := hledger.count
    rw [hlength, Finset.sum_update_of_mem (Finset.mem_univ i), ← Finset.erase_eq]
    omega

end Fiudp.Tickets
