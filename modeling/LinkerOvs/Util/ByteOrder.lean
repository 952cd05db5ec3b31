/-
A little-endian host with an `int` of 32 bits (the x86-64 the DPDK build runs on): an `ovs_be16` or
`ovs_be32` is the machine word loaded from its bytes in memory, `ntohs` and `ntohl` swap it.
-/
import Mathlib.Tactic

namespace LinkerOvs

def uintMax : Nat := 2 ^ 32 - 1

/-- The `ovs_be16` at two bytes of memory. -/
def loadBe16 (b0 b1 : UInt8) : UInt16 := b0.toUInt16 ||| (b1.toUInt16 <<< 8)

/-- The `ovs_be32` at four bytes of memory. -/
def loadBe32 (b0 b1 b2 b3 : UInt8) : UInt32 :=
  b0.toUInt32 ||| (b1.toUInt32 <<< 8) ||| (b2.toUInt32 <<< 16) ||| (b3.toUInt32 <<< 24)

/-- The bytes of a machine word in memory. -/
def store16 (x : UInt16) : List UInt8 := [x.toUInt8, (x >>> 8).toUInt8]

def store32 (x : UInt32) : List UInt8 := [x.toUInt8, (x >>> 8).toUInt8, (x >>> 16).toUInt8, (x >>> 24).toUInt8]

def ntohs (x : UInt16) : UInt16 := (x <<< 8) ||| (x >>> 8)

def htons (x : UInt16) : UInt16 := ntohs x

def ntohl (x : UInt32) : UInt32 :=
  (x <<< 24) ||| ((x &&& (0xff00 : UInt32)) <<< 8) ||| ((x >>> 8) &&& (0xff00 : UInt32)) ||| (x >>> 24)

def htonl (x : UInt32) : UInt32 := ntohl x

theorem getLsbD_secondByte (i : Nat) : (0xff00#32).getLsbD i = decide (8 ≤ i ∧ i < 16) := by
  by_cases hi : i < 32
  · have hall : ∀ i < 32, (0xff00#32).getLsbD i = decide (8 ≤ i ∧ i < 16) := by decide
    exact hall i hi
  · grind

theorem getLsbD_ntohl (x : UInt32) {i : Nat} (hi : i < 32) :
    (ntohl x).toBitVec.getLsbD i = x.toBitVec.getLsbD (24 - i / 8 * 8 + i % 8) := by
  have hor : (ntohl x).toBitVec.getLsbD i =
      (!decide (i < 24) && x.toBitVec.getLsbD (i - 24) ||
        !decide (i < 8) && (x.toBitVec.getLsbD (i - 8) && decide (8 ≤ i - 8 ∧ i - 8 < 16)) ||
        x.toBitVec.getLsbD (8 + i) && decide (8 ≤ i ∧ i < 16) || x.toBitVec.getLsbD (24 + i)) := by
    simp [ntohl, hi, getLsbD_secondByte, -BitVec.getLsbD_eq_getElem]
  have hhigh : ∀ n, 32 ≤ n → x.toBitVec.getLsbD n = false := fun n hn => BitVec.getLsbD_of_ge _ _ hn
  rw [hor]
  rcases (by omega : i / 8 = 0 ∨ i / 8 = 1 ∨ i / 8 = 2 ∨ i / 8 = 3) with h | h | h | h
  · grind
  · grind
  · have hto : 24 - i / 8 * 8 + i % 8 = i - 8 := by omega
    grind
  · have hto : 24 - i / 8 * 8 + i % 8 = i - 24 := by omega
    grind

theorem htonl_ntohl (x : UInt32) : htonl (ntohl x) = x := by
  apply UInt32.toBitVec_inj.mp
  apply BitVec.eq_of_getLsbD_eq
  intro i hi
  rw [htonl, getLsbD_ntohl _ hi, getLsbD_ntohl _ (by omega)]
  congr 1
  omega

end LinkerOvs
