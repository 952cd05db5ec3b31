/-
The hash functions of `lib/hash.h` in their portable (murmurhash) form. Every step of them can be undone.
-/
import Mathlib.Tactic

namespace LinkerOvs

def hashRot (x : UInt32) (k : UInt32) : UInt32 := (x <<< k) ||| (x >>> (32 - k))

def mhashAdd' (hash data : UInt32) : UInt32 :=
  hash ^^^ (hashRot (data * 0xcc9e2d51) 15 * 0x1b873593)

def mhashAdd (hash data : UInt32) : UInt32 := hashRot (mhashAdd' hash data) 13 * 5 + 0xe6546b64

def mhashFinish (hash : UInt32) : UInt32 :=
  let hash := hash ^^^ (hash >>> 16)
  let hash := hash * 0x85ebca6b
  let hash := hash ^^^ (hash >>> 13)
  let hash := hash * 0xc2b2ae35
  hash ^^^ (hash >>> 16)

def hashAdd (hash data : UInt32) : UInt32 := mhashAdd hash data

def hashAdd64 (hash : UInt32) (data : UInt64) : UInt32 :=
  hashAdd (hashAdd hash data.toUInt32) (data >>> 32).toUInt32

def hashFinish (hash final : UInt32) : UInt32 := mhashFinish (hash ^^^ final)

def hash2words (x y : UInt32) : UInt32 := hashFinish (hashAdd (hashAdd x 0) y) 8

def hashInt (x basis : UInt32) : UInt32 := hash2words x basis

def hashWordsInline (p : List UInt32) (basis : UInt32) : UInt32 :=
  hashFinish (p.foldl hashAdd basis) (.ofNat (p.length * 4))

/-! ## Nothing is lost

Each function keeps every one of its arguments apart while the other one is fixed. -/

theorem getLsbD_hashRot (x : UInt32) {k : UInt32} (hk : 0 < k.toNat) (hk' : k.toNat < 32) {j : Nat} (hj : j < 32) :
    (hashRot x k).toBitVec.getLsbD j =
      x.toBitVec.getLsbD (if j < k.toNat then j + 32 - k.toNat else j - k.toNat) := by
  have hsub : (32 - k).toNat = 32 - k.toNat := by
    have hle : k ≤ 32 := UInt32.le_iff_toNat_le.2 (by simpa using hk'.le)
    simp [*]
  have hleft : (x <<< k).toBitVec.getLsbD j = (!decide (j < k.toNat) && x.toBitVec.getLsbD (j - k.toNat)) := by
    rw [UInt32.toBitVec_shiftLeft, BitVec.shiftLeft_eq', BitVec.getLsbD_shiftLeft, decide_eq_true hj, Bool.true_and,
      BitVec.toNat_umod, UInt32.toNat_toBitVec, show k.toNat % BitVec.toNat (32 : BitVec 32) = k.toNat from Nat.mod_eq_of_lt hk']
  have hright : (x >>> (32 - k)).toBitVec.getLsbD j = x.toBitVec.getLsbD (32 - k.toNat + j) := by
    rw [UInt32.toBitVec_shiftRight, BitVec.ushiftRight_eq', BitVec.getLsbD_ushiftRight, BitVec.toNat_umod,
      UInt32.toNat_toBitVec, hsub, show (32 - k.toNat) % BitVec.toNat (32 : BitVec 32) = 32 - k.toNat from
        Nat.mod_eq_of_lt (Nat.sub_lt (by decide) hk)]
  rw [hashRot, UInt32.toBitVec_or, BitVec.getLsbD_or, hleft, hright]
  grind

theorem hashRot_injective {k : UInt32} (hk : 0 < k.toNat) (hk' : k.toNat < 32) : Function.Injective (hashRot · k) := by
  intro x y h
  apply UInt32.toBitVec_inj.1
  apply BitVec.eq_of_getLsbD_eq
  intro i hi
  have hbit : ∀ z : UInt32, z.toBitVec.getLsbD i = (hashRot z k).toBitVec.getLsbD ((i + k.toNat) % 32) := by
    intro z
    rw [getLsbD_hashRot z hk hk' (Nat.mod_lt _ (by decide))]
    congr 1
    split <;> omega
  grind

theorem mul_injective {c d : UInt32} (h : c * d = 1) : Function.Injective (fun x : UInt32 => x * c) := by
  intro x y hxy
  have hcancel : ∀ z : UInt32, z * c * d = z := fun z => by rw [UInt32.mul_assoc, h, UInt32.mul_one]
  rw [← hcancel x, ← hcancel y]
  exact congrArg (· * d) hxy

theorem xorShift_injective {k : UInt32} (hk : 0 < k.toNat) (hk' : k.toNat < 32) :
    Function.Injective (fun x : UInt32 => x ^^^ (x >>> k)) := by
  intro x y h
  have hbit : ∀ (z : UInt32) (j : Nat), (z ^^^ (z >>> k)).toBitVec.getLsbD j =
      (z.toBitVec.getLsbD j ^^ z.toBitVec.getLsbD (k.toNat + j)) := by
    intro z j
    rw [UInt32.toBitVec_xor, BitVec.getLsbD_xor, UInt32.toBitVec_shiftRight, BitVec.ushiftRight_eq',
      BitVec.getLsbD_ushiftRight, BitVec.toNat_umod, UInt32.toNat_toBitVec, show k.toNat % BitVec.toNat (32 : BitVec 32) = k.toNat from
        Nat.mod_eq_of_lt hk']
  -- from the top bit down: each bit is mixed with a higher one only
  have hdown : ∀ n j, 32 - j ≤ n → x.toBitVec.getLsbD j = y.toBitVec.getLsbD j := by
    intro n
    induction n with
    | zero =>
      intro j hj
      rw [BitVec.getLsbD_of_ge _ _ (by omega), BitVec.getLsbD_of_ge _ _ (by omega)]
    | succ n ih =>
      intro j hj
      have hsame := congrArg (fun z : UInt32 => z.toBitVec.getLsbD j) h
      rw [hbit x, hbit y] at hsame
      by_cases hlt : j < 32
      · rw [ih (k.toNat + j) (by omega)] at hsame
        exact Bool.xor_left_inj.1 hsame
      · exact ih j (by omega)
  exact UInt32.toBitVec_inj.1 (BitVec.eq_of_getLsbD_eq fun j _ => hdown (32 - j) j le_rfl)

theorem hashAdd_data_injective (hash : UInt32) : Function.Injective (hashAdd hash) := by
  intro x y h
  have hrot := mul_injective (d := 0xcccccccd) (by decide) ((UInt32.add_left_inj 0xe6546b64).1 h)
  have hxor := (UInt32.xor_right_inj hash).1 (hashRot_injective (by decide) (by decide) hrot)
  have hdata := hashRot_injective (by decide) (by decide) (mul_injective (d := 0x56ed309b) (by decide) hxor)
  exact mul_injective (d := 0xdee13bb1) (by decide) hdata

theorem hashAdd_hash_injective (data : UInt32) : Function.Injective (hashAdd · data) := by
  intro x y h
  have hrot := mul_injective (d := 0xcccccccd) (by decide) ((UInt32.add_left_inj 0xe6546b64).1 h)
  exact (UInt32.xor_left_inj _).1 (hashRot_injective (by decide) (by decide) hrot)

theorem hashFinish_injective (final : UInt32) : Function.Injective (hashFinish · final) := by
  intro x y h
  have h₁ := xorShift_injective (k := 16) (by decide) (by decide) h
  have h₂ := xorShift_injective (k := 13) (by decide) (by decide) (mul_injective (d := 0x7ed1b41d) (by decide) h₁)
  have h₃ := xorShift_injective (k := 16) (by decide) (by decide) (mul_injective (d := 0xa5cb9243) (by decide) h₂)
  exact (UInt32.xor_left_inj _).1 h₃

theorem foldl_hashAdd_injective (p : List UInt32) : Function.Injective (p.foldl hashAdd) := by
  induction p with
  | nil => exact Function.injective_id
  | cons w p ih => exact ih.comp (hashAdd_hash_injective w)

/-- Arrays of words that differ in one word have different hashes. -/
theorem hashWordsInline_injective (p q : List UInt32) (basis : UInt32) :
    Function.Injective fun w => hashWordsInline (p ++ w :: q) basis := by
  intro w w' h
  simp only [hashWordsInline, List.length_append, List.length_cons, List.foldl_append, List.foldl_cons] at h
  exact hashAdd_data_injective _ (foldl_hashAdd_injective q (hashFinish_injective _ h))

end LinkerOvs
