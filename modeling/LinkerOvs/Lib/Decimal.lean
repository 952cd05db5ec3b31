/-
Strings of decimal digits, most significant first, and the numbers they stand for.
-/
import Mathlib

namespace Decimal

open List

abbrev Digit := Fin 10

/-- The number that digits stand for. -/
def value (ds : List Digit) : Nat := Nat.ofDigits 10 (ds.reverse.map Fin.val)

theorem value_snoc (ds : List Digit) (d : Digit) : value (ds ++ [d]) = value ds * 10 + d := by
  simp only [value, reverse_append, reverse_singleton, singleton_append, map_cons,
    Nat.ofDigits_cons]
  ring

theorem value_append (ds es : List Digit) : value (ds ++ es) = value ds * 10 ^ es.length + value es := by
  simp only [value, reverse_append, map_append, Nat.ofDigits_append, length_map, length_reverse]
  ring

theorem value_lt (ds : List Digit) : value ds < 10 ^ ds.length := by
  have hlt : ∀ d ∈ ds.reverse.map Fin.val, d < 8 + 2 := by
    simp
  simpa [value] using Nat.ofDigits_lt_base_pow_length' hlt

theorem value_le_append (ds es : List Digit) : value ds ≤ value (ds ++ es) := by
  rw [value_append]
  exact (Nat.le_mul_of_pos_right _ (by positivity)).trans (Nat.le_add_right _ _)

end Decimal
