/-
Loops over the members of a list, as folds: what holds of the members that have been visited so far, and the greatest
key of the members with the number of those that have it.
-/
import Mathlib.Tactic

namespace List

universe u v

variable {α : Type u} {β : Type v}

/-- The rule of a loop that visits every member once. `I` says what holds when the members in the list have been
visited. -/
theorem foldl_visits {I : List α → β → Prop} {f : β → α → β}
    (hstep : ∀ done a b, a ∉ done → I done b → I (done ++ [a]) (f b a)) :
    ∀ (todo done : List α) (b : β), (done ++ todo).Nodup → I done b → I (done ++ todo) (todo.foldl f b)
  | [], done, b, _, h => by
    simp [*]
  | a :: todo, done, b, hnodup, h => by
    have hfresh : a ∉ done := fun hmem => List.disjoint_of_nodup_append hnodup hmem List.mem_cons_self
    have hnodup' : ((done ++ [a]) ++ todo).Nodup := by
      simp [*]
    have hrest := foldl_visits hstep todo (done ++ [a]) (f b a) hnodup' (hstep done a b hfresh h)
    simp_all

section CountMax

variable {κ : Type v} [LinearOrder κ] (key : α → κ)

/-- One turn of the loop that finds the greatest key and counts the members that have it. -/
def countMax : κ × Nat → α → κ × Nat := fun (k, n) a =>
  if key a > k then (key a, 1) else if key a = k then (k, n + 1) else (k, n)

theorem foldl_countMax : ∀ {l : List α} {k : κ} {n : Nat} {r : κ × Nat}, l.foldl (countMax key) (k, n) = r →
    k ≤ r.1 ∧ (∀ a ∈ l, key a ≤ r.1) ∧ (r.1 = k ∨ ∃ a ∈ l, key a = r.1) ∧
      r.2 = (l.filter fun a => key a = r.1).length + if r.1 = k then n else 0
  | [], k, n, _, rfl => ⟨le_refl _, forall_mem_nil _, .inl rfl, by simp⟩
  | a :: l, k, n, r, h => by
    rw [foldl_cons] at h
    by_cases hgt : key a > k
    · obtain ⟨hle, hall, hfrom, hcount⟩ := foldl_countMax ((congrArg (foldl _ · l) (if_pos hgt)).symm.trans h)
      grind
    · -- the greatest key so far stays, and is counted if the member has it
      have hturn : countMax key (k, n) a = (k, if key a = k then n + 1 else n) :=
        (if_neg hgt).trans (apply_ite (Prod.mk k) _ _ _).symm
      rw [hturn] at h
      obtain ⟨hle, hall, hfrom, hcount⟩ := foldl_countMax h
      grind

theorem foldl_countMax_of_lt {l : List α} {k : κ} (hne : l ≠ []) (h : ∀ a ∈ l, k < key a) :
    let r := l.foldl (countMax key) (k, 0)
    (∀ a ∈ l, key a ≤ r.1) ∧ (∃ a ∈ l, key a = r.1) ∧ r.2 = (l.filter fun a => key a = r.1).length := by
  obtain ⟨-, hall, hfrom, hcount⟩ := foldl_countMax key (l := l) (k := k) (n := 0) rfl
  obtain ⟨a, ha⟩ := exists_mem_of_ne_nil _ hne
  grind

end CountMax

end List
