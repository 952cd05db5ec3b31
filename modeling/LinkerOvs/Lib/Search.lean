/-
Binary search in a range of indexes: a probe tells how what is sought compares with the element at an index. When the
elements are in order, the search finds an index where the two are equal whenever there is one.
-/
import Mathlib

namespace Search

/-- The search between `low` and `high`. -/
def find (probe : Nat → Ordering) (low high : Nat) : Option Nat :=
  if low < high then
    match probe ((low + high) / 2) with
    | .lt => find probe low ((low + high) / 2)
    | .gt => find probe ((low + high) / 2 + 1) high
    | .eq => some ((low + high) / 2)
  else none
termination_by high - low

/-- What is sought comes before every element after one that it comes before, and after every element before one that it
comes after. -/
structure Ordered (probe : Nat → Ordering) (n : Nat) : Prop where
  before : ∀ i j, i < j → j < n → probe i = .lt → probe j = .lt
  after : ∀ i j, i < j → j < n → probe j = .gt → probe i = .gt

variable {probe : Nat → Ordering} {low high n i : Nat}

theorem find_eq_some (h : find probe low high = some i) : low ≤ i ∧ i < high ∧ probe i = .eq := by
  fun_induction find probe low high with
  | case1 low high hlt hprobe ih =>
    grind
  | case2 low high hlt hprobe ih =>
    grind
  | case3 low high hlt hprobe =>
    cases h
    exact ⟨by omega, by omega, hprobe⟩
  | case4 low high hge => cases h

theorem find_eq_none (hord : Ordered probe n) (hn : high ≤ n) (h : find probe low high = none) :
    ∀ i, low ≤ i → i < high → probe i ≠ .eq := by
  fun_induction find probe low high with
  | case1 low high hlt hprobe ih =>
    intro i hlo hhi heq
    rcases Nat.lt_trichotomy i ((low + high) / 2) with hbelow | rfl | habove
    · exact ih (by omega) h i hlo hbelow heq
    · simp_all
    · rw [hord.before _ i habove (by omega) hprobe] at heq
      cases heq
  | case2 low high hlt hprobe ih =>
    intro i hlo hhi heq
    rcases Nat.lt_trichotomy i ((low + high) / 2) with hbelow | rfl | habove
    · rw [hord.after i _ hbelow (by omega) hprobe] at heq
      cases heq
    · simp_all
    · exact ih hn h i (by omega) hhi heq
  | case3 low high hlt hprobe => cases h
  | case4 low high hge => exact fun i hlo hhi => absurd (hlo.trans_lt hhi) hge

end Search
