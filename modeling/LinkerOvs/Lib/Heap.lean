/-
A heap of cells of one type. An address is the position of a cell in the list of all cells ever
allocated, so it is never reused; a freed cell stays in the list as `none`. Reading, writing or
freeing through an address that is not live has no result, which is what a client has to rule
out.
-/
import Mathlib.Tactic

universe u

/-- The cells ever allocated, in order of allocation; `none` once freed. -/
structure CellHeap (α : Type u) where
  cells : List (Option α)

namespace CellHeap

open List

variable {α : Type u}

def empty : CellHeap α := ⟨[]⟩

def next (h : CellHeap α) : Nat := h.cells.length

def get? (h : CellHeap α) (p : Nat) : Option α := (h.cells[p]?).join

def alloc (h : CellHeap α) (a : α) : CellHeap α := ⟨h.cells ++ [some a]⟩

def set (h : CellHeap α) (p : Nat) (a : α) : CellHeap α := ⟨h.cells.set p (some a)⟩

def free (h : CellHeap α) (p : Nat) : CellHeap α := ⟨h.cells.set p none⟩

@[simp] theorem next_alloc (h : CellHeap α) (a : α) : (h.alloc a).next = h.next + 1 := by
  simp [alloc, next]

@[simp] theorem next_set (h : CellHeap α) (p : Nat) (a : α) : (h.set p a).next = h.next := by
  simp [set, next]

@[simp] theorem next_free (h : CellHeap α) (p : Nat) : (h.free p).next = h.next := by
  simp [free, next]

variable {h : CellHeap α} {p : Nat}

theorem lt_next {a : α} (hp : h.get? p = some a) : p < h.next := by
  by_contra hn
  simp only [not_lt] at hn
  rw [get?, getElem?_eq_none hn] at hp
  cases hp

theorem get?_of_next_le (hp : h.next ≤ p) : h.get? p = none := by
  rw [get?, getElem?_eq_none hp]; rfl

@[simp] theorem get?_alloc_next (h : CellHeap α) (a : α) : (h.alloc a).get? h.next = some a := by
  simp [alloc, get?, next]

theorem get?_alloc_of_ne (a : α) (hp : p ≠ h.next) : (h.alloc a).get? p = h.get? p := by
  rcases Nat.lt_or_gt_of_ne hp with hlt | hgt
  · simp only [alloc, get?]
    rw [getElem?_append_left hlt]
  · rw [get?_of_next_le (by simpa using hgt), get?_of_next_le (le_of_lt hgt)]

theorem get?_alloc_of_some {b : α} (a : α) (hp : h.get? p = some b) : (h.alloc a).get? p = some b := by
  rw [get?_alloc_of_ne a (Nat.ne_of_lt (lt_next hp)), hp]

theorem get?_set_self {b : α} (a : α) (hp : h.get? p = some b) : (h.set p a).get? p = some a := by
  have := lt_next hp
  simp only [next] at this
  simp [set, get?, this]

theorem get?_set_of_ne (h : CellHeap α) {q : Nat} (a : α) (hq : q ≠ p) : (h.set p a).get? q = h.get? q := by
  simp only [set, get?]
  rw [getElem?_set_ne (Ne.symm hq)]

@[simp] theorem get?_free_self (h : CellHeap α) (p : Nat) : (h.free p).get? p = none := by
  simp only [free, get?, getElem?_set_self']
  cases h.cells[p]? <;> rfl

theorem get?_free_of_ne (h : CellHeap α) {q : Nat} (hq : q ≠ p) : (h.free p).get? q = h.get? q := by
  simp only [free, get?]
  rw [getElem?_set_ne (Ne.symm hq)]

@[simp] theorem set_set (h : CellHeap α) (p : Nat) (a b : α) : (h.set p a).set p b = h.set p b := by
  simp [set]

theorem set_self {a : α} (hp : h.get? p = some a) : h.set p a = h := by
  have hlt : p < h.cells.length := lt_next hp
  have hcell : h.cells[p] = some a := by
    simp only [get?, getElem?_eq_getElem hlt] at hp
    exact hp
  simp only [set, ← hcell, set_getElem_self]

end CellHeap
