/-
Copying bits from one buffer to another (`bitwise_copy` of lib/util.c). The code goes through the buffers from their
last byte on, so they are listed in that order: bit `8 * k + j` of a buffer is bit `j` of the byte `k` before the last.
-/
import Mathlib.Tactic

namespace LinkerOvs.BitwiseCopy

open List

/-! ## The code -/

abbrev Buffer := List (BitVec 8)

/-- A pointer, as the number of bytes behind the one it points to, and the offset of a bit there. -/
structure Cursor where
  byte : Nat
  ofs : Nat
  ofs_lt : ofs < 8

def Cursor.start (ofs : Nat) : Cursor := ⟨ofs / 8, ofs % 8, Nat.mod_lt _ (by decide)⟩

/-- The offset with `chunk` more, which is no more than 8, where the next byte begins. -/
def Cursor.advance (c : Cursor) (chunk : Nat) : Cursor :=
  if c.ofs + chunk = 8 then ⟨c.byte + 1, 0, by decide⟩ else ⟨c.byte, (c.ofs + chunk) % 8, Nat.mod_lt _ (by decide)⟩

/-- A byte of the destination with `chunk` bits from the source. -/
def blend (src dst : BitVec 8) (srcOfs dstOfs chunk : Nat) : BitVec 8 :=
  let mask := ((1#8 <<< chunk) - 1#8) <<< dstOfs
  dst &&& ~~~mask ||| src >>> srcOfs <<< dstOfs &&& mask

/-- Nothing where a byte outside a buffer is read or written, here and below. -/
def memcpy (src : Buffer) (s : Nat) (dst : Buffer) (d : Nat) : Nat → Option Buffer
  | 0 => some dst
  | n + 1 => do
    let x ← src[s]?
    let _ ← dst[d]?
    memcpy src (s + 1) (dst.set d x) (d + 1) n

/-- The path for aligned bits. -/
def copyBytes (src : Buffer) (s : Nat) (dst : Buffer) (d nBits : Nat) : Option Buffer := do
  let dst ← memcpy src s dst d (nBits / 8)
  if nBits % 8 = 0 then some dst
  else
    let x ← src[s + nBits / 8]?
    let y ← dst[d + nBits / 8]?
    some (dst.set (d + nBits / 8) (blend x y 0 0 (nBits % 8)))

/-- The loop for other bits. -/
def copyChunks (src : Buffer) (s : Cursor) (dst : Buffer) (d : Cursor) (nBits : Nat) :
    Option Buffer :=
  if nBits = 0 then some dst
  else do
    have := s.ofs_lt
    have := d.ofs_lt
    let chunk := min nBits (8 - max s.ofs d.ofs)
    let x ← src[s.byte]?
    let y ← dst[d.byte]?
    copyChunks src (s.advance chunk) (dst.set d.byte (blend x y s.ofs d.ofs chunk)) (d.advance chunk) (nBits - chunk)
termination_by nBits

def bitwiseCopy (src : Buffer) (srcOfs : Nat) (dst : Buffer) (dstOfs nBits : Nat) :
    Option Buffer :=
  let s := Cursor.start srcOfs
  let d := Cursor.start dstOfs
  if s.ofs = 0 ∧ d.ofs = 0 then copyBytes src s.byte dst d.byte nBits else copyChunks src s dst d nBits

/-! ## Bits -/

def bit (buf : Buffer) (i : Nat) : Bool := (buf.getD (i / 8) 0).getLsbD (i % 8)

/-- The destination with `n` bits of the source. -/
structure Copied (src : Buffer) (s : Nat) (dst : Buffer) (d n : Nat) (dst' : Buffer) :
    Prop where
  length : dst'.length = dst.length
  bits : ∀ i, bit dst' i = if d ≤ i ∧ i < d + n then bit src (s + (i - d)) else bit dst i

variable {src dst dst' dst'' : Buffer} {s d n m o p : Nat} {x y : BitVec 8}

theorem Copied.none : Copied src s dst d 0 dst :=
  ⟨rfl, fun i => by rw [if_neg (by omega)]⟩

theorem Copied.trans (h : Copied src s dst d n dst') (h' : Copied src (s + n) dst' (d + n) m dst'') :
    Copied src s dst d (n + m) dst'' := by
  refine ⟨h'.length.trans h.length, fun i => ?_⟩
  rw [h'.bits, h.bits]
  grind

theorem getLsbD_mask : ∀ o ≤ 8, ∀ n ≤ 8, ∀ r < 8,
    (((1#8 <<< n) - 1#8) <<< o).getLsbD r = decide (o ≤ r ∧ r < o + n) := by
  decide

theorem getLsbD_blend (ho : o + n ≤ 8) {r : Nat} (hr : r < 8) : (blend x y p o n).getLsbD r =
    if o ≤ r ∧ r < o + n then x.getLsbD (p + (r - o)) else y.getLsbD r := by
  have hmask := getLsbD_mask o (by omega) n (by omega) r hr
  rw [blend, BitVec.getLsbD_or, BitVec.getLsbD_and, BitVec.getLsbD_and, BitVec.getLsbD_not, hmask]
  grind

/-- Bits that lie within one byte of each buffer. -/
theorem exists_copied (src dst : Buffer) (k j : Nat) {p o n : Nat} (hp : p + n ≤ 8) (ho : o + n ≤ 8)
    (hk : k < src.length) (hj : j < dst.length) : ∃ x y, src[k]? = some x ∧ dst[j]? = some y ∧
      Copied src (8 * k + p) dst (8 * j + o) n (dst.set j (blend x y p o n)) := by
  refine ⟨_, _, getElem?_eq_getElem hk, getElem?_eq_getElem hj, length_set, fun i => ?_⟩
  by_cases hi : i / 8 = j
  · subst hi
    have hset : ∀ z, bit (dst.set (i / 8) z) i = z.getLsbD (i % 8) := fun z => by simp [bit, hj]
    rw [hset, getLsbD_blend ho (Nat.mod_lt _ (by decide))]
    refine ite_congr (by simp; omega) (fun hin => ?_) fun _ => by simp [bit, hj]
    have hbyte : (8 * k + p + (i - (8 * (i / 8) + o))) / 8 = k := by omega
    have hbit : (8 * k + p + (i - (8 * (i / 8) + o))) % 8 = p + (i % 8 - o) := by omega
    simp [bit, hbyte, hbit, hk]
  · rw [if_neg (by omega)]
    simp [bit, Ne.symm hi]

/-! ## The two paths -/

theorem memcpy_copied (src : Buffer) : ∀ (n s : Nat) (dst : Buffer) (d : Nat), s + n ≤ src.length → d + n ≤ dst.length →
    ∃ dst', memcpy src s dst d n = some dst' ∧ Copied src (8 * s) dst (8 * d) (8 * n) dst'
  | 0, _, dst, _, _, _ => ⟨dst, rfl, .none⟩
  | n + 1, s, dst, d, hs, hd => by
    obtain ⟨x, y, hx, hy, hset⟩ := exists_copied src dst s d (p := 0) (o := 0) (n := 8) le_rfl le_rfl (by omega)
      (by omega)
    have hblend : blend x y 0 0 8 = x := by
      simp [blend]
      exact BitVec.and_allOnes
    rw [hblend] at hset
    obtain ⟨dst', heq, hrest⟩ := memcpy_copied src n (s + 1) (dst.set d x) (d + 1) (by omega)
      (by rw [length_set]; omega)
    refine ⟨dst', by rw [memcpy, hx, hy]; exact heq, ?_⟩
    rw [mul_add, add_comm (8 * n)]
    exact hset.trans hrest

theorem copyBytes_copied (hs : 8 * s + n ≤ 8 * src.length) (hd : 8 * d + n ≤ 8 * dst.length) :
    ∃ dst', copyBytes src s dst d n = some dst' ∧ Copied src (8 * s) dst (8 * d) n dst' := by
  obtain ⟨dst', heq, hbytes⟩ := memcpy_copied src (n / 8) s dst d (by omega) (by omega)
  have hn : 8 * (n / 8) + n % 8 = n := by omega
  rw [copyBytes, heq, Option.bind_eq_bind, Option.bind_some]
  split
  next hzero =>
    rw [hzero, add_zero] at hn
    exact ⟨dst', rfl, hn ▸ hbytes⟩
  next =>
    have hlen := hbytes.length
    obtain ⟨x, y, hx, hy, hlast⟩ := exists_copied src dst' (s + n / 8) (d + n / 8) (p := 0) (o := 0) (n := n % 8)
      (by omega) (by omega) (by omega) (by omega)
    rw [add_zero, add_zero, mul_add, mul_add] at hlast
    have hall := hbytes.trans hlast
    simp_all

theorem Cursor.pos_advance (c : Cursor) (h : c.ofs + n ≤ 8) :
    8 * (c.advance n).byte + (c.advance n).ofs = 8 * c.byte + c.ofs + n := by
  unfold Cursor.advance
  split
  all_goals
    dsimp only
    omega

theorem copyChunks_copied (s : Cursor) (dst : Buffer) (d : Cursor) (n : Nat)
    (hs : 8 * s.byte + s.ofs + n ≤ 8 * src.length) (hd : 8 * d.byte + d.ofs + n ≤ 8 * dst.length) :
    ∃ dst', copyChunks src s dst d n = some dst' ∧
      Copied src (8 * s.byte + s.ofs) dst (8 * d.byte + d.ofs) n dst' := by
  induction n using Nat.strong_induction_on generalizing s dst d with
  | _ n ih =>
  unfold copyChunks
  split
  next hzero => exact ⟨dst, rfl, hzero ▸ .none⟩
  next hpos =>
    have hs8 := s.ofs_lt
    have hd8 := d.ofs_lt
    generalize hchunk : min n (8 - max s.ofs d.ofs) = chunk
    have hp : s.ofs + chunk ≤ 8 := by omega
    have ho : d.ofs + chunk ≤ 8 := by omega
    obtain ⟨x, y, hx, hy, hfirst⟩ := exists_copied src dst s.byte d.byte hp ho (by omega) (by omega)
    obtain ⟨dst', heq, hrest⟩ := ih (n - chunk) (by omega) (s.advance chunk) _ (d.advance chunk)
      (by rw [s.pos_advance hp]; omega) (by rw [d.pos_advance ho, hfirst.length]; omega)
    rw [s.pos_advance hp, d.pos_advance ho] at hrest
    have hn : chunk + (n - chunk) = n := by omega
    dsimp only
    rw [hx, hy]
    exact ⟨dst', heq, hn ▸ hfirst.trans hrest⟩

/-- Within the buffers the copy returns a destination that has the bits of the source at their new places and its own
at all others. -/
theorem bitwiseCopy_copied {srcOfs dstOfs nBits : Nat} (hs : srcOfs + nBits ≤ 8 * src.length)
    (hd : dstOfs + nBits ≤ 8 * dst.length) :
    ∃ dst', bitwiseCopy src srcOfs dst dstOfs nBits = some dst' ∧ Copied src srcOfs dst dstOfs nBits dst' := by
  have hs' := Nat.div_add_mod srcOfs 8
  have hd' := Nat.div_add_mod dstOfs 8
  by_cases h : srcOfs % 8 = 0 ∧ dstOfs % 8 = 0
  · rw [h.1, add_zero] at hs'
    rw [h.2, add_zero] at hd'
    have hcopied := copyBytes_copied (hs'.symm ▸ hs) (hd'.symm ▸ hd)
    rw [hs', hd'] at hcopied
    rwa [bitwiseCopy, Cursor.start, Cursor.start, if_pos h]
  · have hcopied := copyChunks_copied (.start srcOfs) dst (.start dstOfs) nBits (hs'.symm ▸ hs) (hd'.symm ▸ hd)
    rw [Cursor.start, Cursor.start, hs', hd'] at hcopied
    rwa [bitwiseCopy, Cursor.start, Cursor.start, if_neg h]

theorem bitwiseCopy_copied_nibble : bitwiseCopy [0x5a] 4 [0x00, 0xff] 6 4 = some [0x40, 0xfd] ∧
    Copied [0x5a] 4 [0x00, 0xff] 6 4 [0x40, 0xfd] := by
  obtain ⟨dst', heq, hcopied⟩ := @bitwiseCopy_copied [0x5a] [0x00, 0xff] 4 6 4 (by decide) (by decide)
  have hbytes : bitwiseCopy [0x5a] 4 [0x00, 0xff] 6 4 = some [0x40, 0xfd] := by
    simp [bitwiseCopy, copyChunks, Cursor.start, Cursor.advance, blend]
  cases heq.symm.trans hbytes
  exact ⟨heq, hcopied⟩

end LinkerOvs.BitwiseCopy
