/-
The IP checksum and its incremental update (`lib/csum.c`). A checksum is a sum of 16-bit words with end-around carry:
up to the two representations of zero it is the sum modulo 65535, whatever the byte order of the words.
-/
import LinkerOvs.Util.ByteOrder

namespace LinkerOvs

/-! ## The functions -/

/-- The loop of `csum_finish`, for a number of turns. -/
def csumFold : Nat → Nat → Nat
  | 0, partialSum => partialSum
  | turns + 1, partialSum =>
    if partialSum / 2 ^ 16 = 0 then partialSum else csumFold turns (partialSum % 2 ^ 16 + partialSum / 2 ^ 16)

/-- A 32-bit number is folded in three turns at most. -/
def csumFinish (partialSum : UInt32) : UInt16 := ~~~ UInt16.ofNat (csumFold 3 partialSum.toNat)

def recalcCsum16 (oldCsum oldU16 newU16 : UInt16) : UInt16 :=
  csumFinish ((~~~ oldCsum).toUInt32 + (~~~ oldU16).toUInt32 + newU16.toUInt32)

/-- The 16-bit words of a stretch of bytes, as machine words; a last odd byte is a word of its own. -/
def words16 : List UInt8 → List UInt16
  | [] => []
  | [b] => [b.toUInt16]
  | b₀ :: b₁ :: bs => loadBe16 b₀ b₁ :: words16 bs

/-- The words of a stretch recalculated one after the other (`recalc_csum48`, `recalc_csum128`). -/
def recalcCsumWords (csum : UInt16) : List UInt16 → List UInt16 → UInt16
  | old :: olds, new :: news => recalcCsumWords (recalcCsum16 csum old new) olds news
  | _, _ => csum

def recalcCsum48 (oldCsum : UInt16) (oldMac newMac : List UInt8) : UInt16 :=
  recalcCsumWords oldCsum (words16 oldMac) (words16 newMac)

/-- Goes through each `ovs_be32` from its lower half. -/
def recalcCsum128 (oldCsum : UInt16) (oldAddr newAddr : List UInt8) : UInt16 :=
  recalcCsumWords oldCsum (words16 oldAddr) (words16 newAddr)

end LinkerOvs
