/-
Lists whose members are told apart by a key: finding the member with a key, putting another one with the
same key in its place and taking it out. Up to order, each of them is a change of the member in front of
the others.
-/
import Mathlib.Tactic

universe u v

namespace Keyed

open List

variable {α : Type u} {κ : Type v} [DecidableEq κ]

/-- The member with key `k`. -/
def find (key : α → κ) (k : κ) (l : List α) : Option α := l.find? fun a => key a = k

/-- `a` in the place of the member with its key. -/
def set (key : α → κ) (a : α) (l : List α) : List α := l.map fun x => if key x = key a then a else x

/-- The members without the one with key `k`. -/
def erase (key : α → κ) (k : κ) (l : List α) : List α := l.filter fun a => key a ≠ k

variable {key : α → κ} {k : κ} {a a' : α} {l : List α}

theorem find_some (h : find key k l = some a) : a ∈ l ∧ key a = k :=
  ⟨mem_of_find?_eq_some h, by simpa using find?_some h⟩

theorem find_none (h : find key k l = none) : ∀ a ∈ l, key a ≠ k := by
  simpa [find, find?_eq_none] using h

theorem find_of_mem (hnodup : (l.map key).Nodup) (ha : a ∈ l) : find key (key a) l = some a := by
  cases h : find key (key a) l with
  | none => exact absurd rfl (find_none h a ha)
  | some b => rw [inj_on_of_nodup_map hnodup (find_some h).1 ha (find_some h).2]

theorem mem_erase : a ∈ erase key k l ↔ a ∈ l ∧ key a ≠ k := by
  simp [erase]

theorem set_eq_self (h : ∀ x ∈ l, key x ≠ key a) : set key a l = l := by
  calc set key a l = l.map id := map_congr_left fun x hx => if_neg (h x hx)
    _ = l := map_id l

theorem map_key_set : (set key a l).map key = l.map key := by
  rw [set, map_map]
  apply map_congr_left
  grind

theorem perm_of_mem (hnodup : (l.map key).Nodup) (ha : a ∈ l) : l.Perm (a :: erase key (key a) l) := by
  induction l with
  | nil => cases ha
  | cons x l ih =>
    obtain ⟨hx, hl⟩ := nodup_cons.1 hnodup
    rcases mem_cons.1 ha with rfl | ha
    · have hne : ∀ y ∈ l, key y ≠ key a := fun y hy heq => hx (heq ▸ mem_map_of_mem hy)
      rw [erase, filter_cons_of_neg (by simp), filter_eq_self.2 (by simpa using hne)]
    · have hne : key x ≠ key a := fun heq => hx (heq ▸ mem_map_of_mem ha)
      rw [erase, filter_cons_of_pos (by simpa using hne)]
      exact ((ih hl ha).cons x).trans (.swap a x _)

theorem set_perm (hnodup : (l.map key).Nodup) (ha : a ∈ l) (hkey : key a' = key a) :
    (set key a' l).Perm (a' :: erase key (key a) l) := by
  refine ((perm_of_mem hnodup ha).map _).trans ?_
  rw [map_cons, if_pos hkey.symm]
  have hothers : set key a' (erase key (key a) l) = erase key (key a) l :=
    set_eq_self fun x hx => hkey ▸ (mem_erase.1 hx).2
  rw [← set, hothers]

theorem mem_set (hnodup : (l.map key).Nodup) (ha : a ∈ l) (hkey : key a' = key a) {x : α} (hx : x ∈ set key a' l) :
    x = a' ∨ x ∈ l ∧ key x ≠ key a := by
  rcases mem_cons.1 ((set_perm hnodup ha hkey).subset hx) with rfl | hx
  · exact .inl rfl
  · exact .inr (mem_erase.1 hx)

/-! ## Finding after a change -/

theorem find_isSome_iff : (find key k l).isSome ↔ k ∈ l.map key := by
  rw [find]
  simp

theorem find_eq_none_iff : find key k l = none ↔ k ∉ l.map key := by
  rw [← find_isSome_iff, Bool.not_eq_true, Option.isSome_eq_false_iff, Option.isNone_iff_eq_none]

theorem find_cons : find key k (a :: l) = if key a = k then some a else find key k l := by
  by_cases h : key a = k
  · rw [find, find?_cons_of_pos (by simpa using h), if_pos h]
  · rw [find, find?_cons_of_neg (by simpa using h), if_neg h, find]

theorem find_append (l l' : List α) : find key k (l ++ l') = (find key k l).or (find key k l') :=
  find?_append

theorem find_set : find key k (set key a l) = if k = key a then (find key k l).map fun _ => a else find key k l := by
  induction l with
  | nil => simp [find, set]
  | cons x l ih =>
    have hcons : set key a (x :: l) = (if key x = key a then a else x) :: set key a l := rfl
    rw [hcons, find_cons, find_cons, ih]
    grind

theorem find_erase {k' : κ} : find key k' (erase key k l) = if k' = k then none else find key k' l := by
  induction l with
  | nil => simp [find, erase]
  | cons x l ih =>
    by_cases hx : key x = k
    · rw [erase, filter_cons_of_neg (by simpa using hx), ← erase, ih, find_cons]
      grind
    · rw [erase, filter_cons_of_pos (by simpa using hx), ← erase, find_cons, ih, find_cons]
      grind

theorem perm_of_find {l' : List α} (hnodup : (l.map key).Nodup) (hnodup' : (l'.map key).Nodup)
    (h : ∀ k, find key k l = find key k l') : l.Perm l' := by
  have hmem : ∀ {m : List α}, (m.map key).Nodup → ∀ a, a ∈ m ↔ find key (key a) m = some a :=
    fun hm a => ⟨find_of_mem hm, fun hfind => (find_some hfind).1⟩
  rw [perm_ext_iff_of_nodup hnodup.of_map hnodup'.of_map]
  simp [*]

end Keyed
