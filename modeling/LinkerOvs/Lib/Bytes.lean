/-
Buffers of bytes: numbers in a fixed number of bytes, most significant first, and reading and overwriting
a stretch of a buffer.
-/
import Mathlib.Tactic

namespace Bytes

open List

/-! ## Big-endian numbers -/

/-- The low `n` bytes of `v`, most significant first. -/
def ofNum : Nat → Nat → List UInt8
  | 0, _ => []
  | n + 1, v => ofNum n (v / 256) ++ [UInt8.ofNat (v % 256)]

/-- The number that bytes stand for, most significant first. -/
def num (bs : List UInt8) : Nat := bs.foldl (fun v b => v * 256 + b.toNat) 0

@[simp] theorem length_ofNum : ∀ n v, (ofNum n v).length = n
  | 0, _ => rfl
  | n + 1, v => by simp [ofNum, length_ofNum n]

theorem num_snoc (bs : List UInt8) (b : UInt8) : num (bs ++ [b]) = num bs * 256 + b.toNat := by
  simp [num]

theorem num_ofNum : ∀ n v, num (ofNum n v) = v % 256 ^ n
  | 0, v => by simp [ofNum, num, Nat.mod_one]
  | n + 1, v => by
    have hbyte : (UInt8.ofNat (v % 256)).toNat = v % 256 := by
      simp
    rw [ofNum, num_snoc, num_ofNum n, hbyte, pow_succ', Nat.mod_mul]
    ring

theorem num_ofNum_of_lt {n v : Nat} (h : v < 256 ^ n) : num (ofNum n v) = v := by
  rw [num_ofNum, Nat.mod_eq_of_lt h]

/-! ## Stretches of a buffer -/

/-- The `len` bytes at `ofs`. -/
def read (bs : List UInt8) (ofs len : Nat) : List UInt8 := (bs.drop ofs).take len

/-- The buffer with the bytes at `ofs` overwritten. -/
def write (bs : List UInt8) (ofs : Nat) (new : List UInt8) : List UInt8 :=
  bs.take ofs ++ new ++ bs.drop (ofs + new.length)

variable {bs new : List UInt8} {ofs ofs' len : Nat}

theorem length_write (h : ofs + new.length ≤ bs.length) : (write bs ofs new).length = bs.length := by
  simp only [write, length_append, length_take, length_drop]
  omega

@[simp] theorem write_nil : write bs ofs [] = bs := by
  simp [write]

theorem read_write_self (new : List UInt8) (h : ofs ≤ bs.length) : read (write bs ofs new) ofs new.length = new := by
  have htake : (bs.take ofs).length = ofs := by
    rw [length_take]
    omega
  unfold read write
  simp [*]

theorem read_write_before (h : ofs' + len ≤ ofs) (hofs : ofs ≤ bs.length) :
    read (write bs ofs new) ofs' len = read bs ofs' len := by
  have htake : (bs.take ofs).length = ofs := by
    rw [length_take]
    omega
  unfold read write
  rw [append_assoc, drop_append_of_le_length (by omega),
    take_append_of_le_length (by rw [length_drop]; omega), drop_take, take_take]
  congr 1
  omega

theorem read_write_after (h : ofs + new.length ≤ ofs') (hofs : ofs ≤ bs.length) :
    read (write bs ofs new) ofs' len = read bs ofs' len := by
  have htake : (bs.take ofs ++ new).length = ofs + new.length := by
    simp [*]
  unfold read write
  rw [drop_append, drop_eq_nil_of_le (by omega), nil_append, drop_drop]
  congr 2
  omega

theorem read_take {n : Nat} (h : ofs + len ≤ n) : read (bs.take n) ofs len = read bs ofs len := by
  unfold read
  rw [drop_take, take_take, min_eq_left (by omega)]

theorem read_append {cs : List UInt8} (h : ofs + len ≤ bs.length) : read (bs ++ cs) ofs len = read bs ofs len := by
  unfold read
  rw [drop_append_of_le_length (by omega), take_append_of_le_length (by rw [length_drop]; omega)]

theorem read_add (bs : List UInt8) (ofs n m : Nat) : read bs ofs (n + m) = read bs ofs n ++ read bs (ofs + n) m := by
  unfold read
  rw [take_add, drop_drop]

theorem write_write {new' : List UInt8} (h : ofs + new.length ≤ bs.length) :
    write (write bs ofs new) (ofs + new.length) new' = write bs ofs (new ++ new') := by
  have htake : (bs.take ofs ++ new).length = ofs + new.length := by
    rw [length_append, length_take]
    omega
  have hfirst : (write bs ofs new).take (ofs + new.length) = bs.take ofs ++ new := by
    rw [write, ← htake, take_left]
  have hlast : (write bs ofs new).drop (ofs + new.length + new'.length) = bs.drop (ofs + new.length + new'.length) := by
    rw [write, ← drop_drop, ← htake, drop_left, drop_drop]
  rw [write, hfirst, hlast, write, length_append, ← append_assoc, Nat.add_assoc]

theorem getD_read {i : Nat} (hi : i < len) : (read bs ofs len).getD i 0 = bs.getD (ofs + i) 0 := by
  simp [read, hi]

theorem getD_write {i : Nat} (hofs : ofs ≤ bs.length) (hi : i < new.length) :
    (write bs ofs new).getD (ofs + i) 0 = new.getD i 0 := by
  have htake : (bs.take ofs).length = ofs := by
    rw [length_take]
    omega
  rw [write, append_assoc, getD_eq_getElem?_getD, getElem?_append_right (by omega), htake,
    Nat.add_sub_cancel_left, getElem?_append_left hi, ← getD_eq_getElem?_getD]

end Bytes
