/-
Signed 64-bit words with the arithmetic of C: an operation whose result does not fit, or that divides by zero, is a
fault. The tests that tell an overflow of a sum and of a difference from the sign bits, without one.
-/
import Mathlib
import LinkerOvs.Lib.Outcome

namespace SignedWord

/-- What a signed operation must not do. -/
inductive Fault
  | overflow
  | divByZero
deriving DecidableEq

abbrev Word := BitVec 64

def min : Int := -2 ^ 63

def max : Int := 2 ^ 63 - 1

/-- The numbers that are the value of a word. -/
def Fits (z : Int) : Prop := min ≤ z ∧ z ≤ max

instance (z : Int) : Decidable (Fits z) := inferInstanceAs (Decidable (_ ∧ _))

theorem fits_toInt (x : Word) : Fits x.toInt := by
  have hlt := @BitVec.toInt_lt 64 x
  have hle := @BitVec.le_toInt 64 x
  exact ⟨hle, Int.le_sub_one_of_lt hlt⟩

theorem toInt_ofInt {z : Int} (h : Fits z) : (BitVec.ofInt 64 z).toInt = z := by
  obtain ⟨hlo, hhi⟩ := h
  simp only [min, max] at hlo hhi
  rw [BitVec.toInt_ofInt, Int.bmod_eq_of_le (by norm_num; omega) (by norm_num; omega)]

/-- The word with a value, if there is one. -/
def checked (z : Int) : Except Fault Word := if Fits z then .ok (BitVec.ofInt 64 z) else .error .overflow

variable (x y : Word)

def add : Except Fault Word := checked (x.toInt + y.toInt)

def sub : Except Fault Word := checked (x.toInt - y.toInt)

def mul : Except Fault Word := checked (x.toInt * y.toInt)

def div : Except Fault Word :=
  if y = 0 then .error .divByZero else checked (x.toInt.tdiv y.toInt)

/-- The remainder, which there is only together with the quotient. -/
def mod : Except Fault Word := do
  let _ ← div x y
  checked (x.toInt.tmod y.toInt)

theorem checked_ok {z : Int} (h : Fits z) : checked z = .ok (BitVec.ofInt 64 z) := if_pos h

theorem checked_error {z : Int} (h : ¬ Fits z) : checked z = .error .overflow := if_neg h

theorem toInt_eq_zero_iff (x : Word) : x.toInt = 0 ↔ x = 0 := by
  rw [← BitVec.toInt_inj]
  rfl

/-! ## Quotients that fit -/

theorem div_ok {x y : Word} (hy : y ≠ 0) (h : Fits (x.toInt.tdiv y.toInt)) :
    div x y = .ok (BitVec.ofInt 64 (x.toInt.tdiv y.toInt)) := by
  rw [div, if_neg hy, checked_ok h]

theorem fits_tdiv_iff : Fits (x.toInt.tdiv y.toInt) ↔ ¬ (x.toInt = min ∧ y.toInt = -1) := by
  obtain ⟨hlo, hhi⟩ := fits_toInt x
  constructor
  · rintro h ⟨hx, hy⟩
    rw [hx, hy] at h
    exact absurd h (by decide)
  · intro hne
    have habs : |x.toInt.tdiv y.toInt| ≤ |x.toInt| := by
      rw [← Int.natCast_natAbs, ← Int.natCast_natAbs, Int.natAbs_tdiv]
      exact_mod_cast Nat.div_le_self _ _
    have hle : |x.toInt| ≤ 2 ^ 63 := abs_le.2 ⟨hlo, by simp only [max] at hhi; omega⟩
    obtain ⟨hqlo, hqhi⟩ := abs_le.1 (habs.trans hle)
    refine ⟨hqlo, ?_⟩
    -- only the least number has a quotient of 2^63
    by_contra hgt
    have hq : x.toInt.tdiv y.toInt = 2 ^ 63 := by simp only [max] at hgt; omega
    have hxabs : |x.toInt| = 2 ^ 63 := le_antisymm hle (by rw [hq] at habs; exact habs)
    have hx : x.toInt = min := by
      rcases abs_choice x.toInt with hpos | hneg
      · omega
      · simp only [min]
        omega
    refine hne ⟨hx, ?_⟩
    rw [hx, show min = -(2 ^ 63) from rfl, Int.neg_tdiv] at hq
    have hy : (2 ^ 63 : Int).tdiv y.toInt = -2 ^ 63 := by omega
    have hyabs : (2 ^ 63 : Int).natAbs / y.toInt.natAbs = 2 ^ 63 := by
      have habs := Int.natAbs_tdiv (2 ^ 63) y.toInt
      rw [hy] at habs
      exact habs.symm
    have hone : y.toInt.natAbs = 1 := by
      rcases Nat.lt_or_ge 1 y.toInt.natAbs with hlt | hge
      · have := Nat.div_lt_self (show 0 < (2 ^ 63 : Int).natAbs by decide) hlt
        omega
      · grind
    grind

/-! ## Sign bits -/

def intMin : Word := BitVec.intMin 64

def intMax : Word := BitVec.intMax 64

theorem toInt_intMin : intMin.toInt = min := by decide

theorem toInt_intMax : intMax.toInt = max := by decide

theorem sshiftRight_eq_zero_iff (x : Word) : x.sshiftRight 63 = 0 ↔ 0 ≤ x.toInt := by
  obtain ⟨hlo, hhi⟩ := fits_toInt x
  simp only [max] at hlo hhi
  rw [← toInt_eq_zero_iff, BitVec.toInt_sshiftRight, Int.shiftRight_eq_div_pow]
  omega

theorem neg_iff_msb (x : Word) : x.toInt < 0 ↔ x.msb = true := by
  rw [BitVec.msb_eq_toInt, decide_eq_true_eq]

theorem and_intMin (x : Word) : x &&& intMin = if x.toInt < 0 then intMin else 0 := by
  have hmsb : x &&& intMin = if x.msb then intMin else 0 := by
    apply BitVec.eq_of_getLsbD_eq
    intro i hi
    rw [intMin, BitVec.getLsbD_and]
    grind
  rw [hmsb, BitVec.msb_eq_toInt]
  simp

theorem toInt_xor_intMin (x : Word) : (x ^^^ intMin).toInt = if x.toInt < 0 then x.toInt + 2 ^ 63 else x.toInt - 2 ^ 63 := by
  have hadd : x ^^^ intMin = x + intMin := by
    apply BitVec.eq_of_getLsbD_eq
    intro i hi
    have hlow : intMin.toNat % 2 ^ i = 0 := by
      rw [show intMin.toNat = 2 ^ 63 by decide]
      exact Nat.mod_eq_zero_of_dvd (Nat.pow_dvd_pow 2 (by omega))
    have hcarry : BitVec.carry i x intMin false = false := by
      rw [BitVec.carry, hlow]
      have hlt := Nat.mod_lt x.toNat (Nat.two_pow_pos i)
      simpa using hlt
    rw [BitVec.getLsbD_add hi, hcarry, BitVec.getLsbD_xor, Bool.xor_false]
  obtain ⟨hlo, hhi⟩ := fits_toInt x
  simp only [min, max] at hlo hhi
  rw [hadd, BitVec.toInt_add, toInt_intMin, Int.bmod_def, min]
  split <;> split <;> omega

theorem toInt_xor_and_intMin : (x ^^^ (y &&& intMin)).toInt =
    if y.toInt < 0 then if x.toInt < 0 then x.toInt + 2 ^ 63 else x.toInt - 2 ^ 63 else x.toInt := by
  rw [and_intMin]
  by_cases h : y.toInt < 0
  · rw [if_pos h, if_pos h, toInt_xor_intMin]
  · simp [*]

theorem toInt_xor_neg_iff : (x ^^^ y).toInt < 0 ↔ (x.toInt < 0 ↔ ¬ y.toInt < 0) := by
  rw [neg_iff_msb, neg_iff_msb, neg_iff_msb, BitVec.msb_xor]
  cases x.msb <;> cases y.msb <;> simp

theorem toInt_not_neg_iff (x : Word) : (~~~x).toInt < 0 ↔ ¬ x.toInt < 0 := by
  rw [neg_iff_msb, neg_iff_msb, BitVec.msb_not]
  cases x.msb <;> simp

theorem toInt_and_neg_iff : (x &&& y).toInt < 0 ↔ x.toInt < 0 ∧ y.toInt < 0 := by
  rw [neg_iff_msb, neg_iff_msb, neg_iff_msb, BitVec.msb_and]
  cases x.msb <;> cases y.msb <;> simp

end SignedWord
