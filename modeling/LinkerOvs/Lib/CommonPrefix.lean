/-
The common prefix of two lists: its length, where the lists part, and how far one of them has to be known
for it.
-/
import Mathlib.Tactic

universe u

namespace CommonPrefix

open List

variable {α : Type u} [DecidableEq α]

/-- The length of the longest common prefix. -/
def length : List α → List α → Nat
  | a :: as, b :: bs => if a = b then length as bs + 1 else 0
  | _, _ => 0

@[simp] theorem length_nil_left (bs : List α) : length ([] : List α) bs = 0 := by
  cases bs <;> rfl

@[simp] theorem length_nil_right (as : List α) : length as [] = 0 := by
  cases as <;> rfl

theorem length_cons_cons (a b : α) (as bs : List α) :
    length (a :: as) (b :: bs) = if a = b then length as bs + 1 else 0 := rfl

theorem length_le_left : ∀ as bs : List α, length as bs ≤ as.length
  | [], bs => by simp
  | a :: as, [] => by simp
  | a :: as, b :: bs => by
    have ih := length_le_left as bs
    rw [length_cons_cons, length_cons]
    split <;> omega

theorem length_append_self : ∀ as bs : List α, length as (as ++ bs) = as.length
  | [], bs => by simp
  | a :: as, bs => by
    rw [cons_append, length_cons_cons, if_pos rfl, length_append_self as bs, length_cons]

theorem eq_append_of_length_eq : ∀ {as bs : List α}, length as bs = as.length → ∃ cs, bs = as ++ cs
  | [], bs, _ => ⟨bs, rfl⟩
  | a :: as, [], h => by simp at h
  | a :: as, b :: bs, h => by
    rw [length_cons_cons, length_cons] at h
    split at h
    · rename_i hab
      obtain ⟨cs, hcs⟩ := eq_append_of_length_eq (Nat.succ.inj h)
      exact ⟨cs, by rw [hcs, hab, cons_append]⟩
    · omega

/-- The lists part before the first one ends: a common part, the element at which the first goes on, and an end or
another element of the second. -/
theorem exists_split_of_lt : ∀ {as bs : List α}, length as bs < as.length →
    ∃ (ps : List α) (a : α) (as' bs' : List α), as = ps ++ a :: as' ∧ bs = ps ++ bs' ∧ ps.length = length as bs ∧
      ∀ b, bs'.head? = some b → b ≠ a
  | [], bs, h => by simp at h
  | a :: as, [], _ => ⟨[], a, as, [], rfl, rfl, by simp, by simp⟩
  | a :: as, b :: bs, h => by
    rw [length_cons_cons] at h
    split at h
    · rename_i hab
      subst hab
      obtain ⟨ps, c, as', bs', has, hbs, hlen, hne⟩ := exists_split_of_lt (Nat.lt_of_succ_lt_succ h)
      refine ⟨a :: ps, c, as', bs', by rw [has]; rfl, by rw [hbs]; rfl, ?_, hne⟩
      rw [length_cons_cons, if_pos rfl, length_cons, hlen]
    · rename_i hab
      refine ⟨[], a, as, b :: bs, rfl, rfl, ?_, ?_⟩
      · rw [length_cons_cons, if_neg hab, length_nil]
      · grind

/-- Where the lists part depends on the second list only up to and with the first element that differs. -/
theorem length_append_congr : ∀ {as v x : List α}, length as (v ++ x) < v.length → ∀ x', length as (v ++ x') =
    length as (v ++ x)
  | [], _, _, _, _ => by simp
  | _ :: _, [], _, h, _ => absurd h (Nat.not_lt_zero _)
  | a :: as, b :: v, x, h, x' => by
    rw [cons_append, length_cons_cons] at h
    rw [cons_append, cons_append, length_cons_cons, length_cons_cons]
    split at h
    · rw [length_append_congr (Nat.lt_of_succ_lt_succ h) x']
    · next hab => rw [if_neg hab, if_neg hab]

end CommonPrefix
