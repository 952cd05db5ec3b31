/-
A multimap as the list of its entries, newest first: a lookup by key finds the newest entry with
the key and erasing a key removes that one entry. The results say when a whole list of keys can be
erased, which entries go, and when these are exactly the entries of one owner.
-/
import Mathlib.Tactic

universe u v

namespace Multimap

open List

variable {α : Type u} {κ : Type v} [DecidableEq κ] (key : α → κ)

/-- The newest entry with key `k`. -/
def lookup (k : κ) (l : List α) : Option α := l.find? fun a => key a = k

/-- The multimap without its newest entry with key `k`. -/
def erase (k : κ) (l : List α) : List α := l.eraseP fun a => key a = k

/-- The entries with key `k`, newest first. -/
def withKey (k : κ) (l : List α) : List α := l.filter fun a => key a = k

/-- One entry erased for each key of the list in turn; `none` when a key is missing. -/
def eraseAll : List κ → List α → Option (List α)
  | [], l => some l
  | k :: ks, l => if (lookup key k l).isSome then eraseAll ks (erase key k l) else none

variable {key}

theorem lookup_eq_head? (k : κ) (l : List α) : lookup key k l = (withKey key k l).head? :=
  (head?_filter ..).symm

variable {k : κ} {l : List α}

theorem lookup_isSome : (lookup key k l).isSome ↔ 0 < (withKey key k l).length := by
  rw [lookup_eq_head?, isSome_head?, length_pos_iff]

theorem mem_withKey {a : α} : a ∈ withKey key k l ↔ a ∈ l ∧ key a = k := by
  simp [withKey]

theorem withKey_erase_self (k : κ) : ∀ l : List α, withKey key k (erase key k l) = (withKey key k l).tail
  | [] => rfl
  | a :: l => by
    by_cases h : key a = k
    · simp [withKey, erase, h]
    · have ih := withKey_erase_self k l
      simp only [withKey, erase] at ih
      simp [withKey, erase, h, ih]

theorem withKey_of_lookup {a : α} (h : lookup key k l = some a) :
    withKey key k l = a :: withKey key k (erase key k l) := by
  rw [lookup_eq_head?] at h
  obtain ⟨l', hl'⟩ := head?_eq_some_iff.1 h
  rw [withKey_erase_self, hl', tail_cons]

theorem withKey_erase_of_ne {k' : κ} (hne : k' ≠ k) :
    ∀ l : List α, withKey key k' (erase key k l) = withKey key k' l
  | [] => rfl
  | a :: l => by
    by_cases h : key a = k
    · simp [withKey, erase, h, hne.symm]
    · have ih := withKey_erase_of_ne hne l
      simp only [withKey, erase] at ih
      simp [withKey, erase, h, filter_cons, ih]

theorem withKey_erase (k k' : κ) (l : List α) :
    withKey key k' (erase key k l) = (withKey key k' l).drop (if k = k' then 1 else 0) := by
  by_cases h : k = k'
  · subst h
    simp [withKey_erase_self]
  · simp [h, withKey_erase_of_ne (Ne.symm h)]

theorem eraseAll_isSome : ∀ (ks : List κ) (l : List α),
    (eraseAll key ks l).isSome ↔ ∀ k, ks.count k ≤ (withKey key k l).length
  | [], l => by simp [eraseAll]
  | k :: ks, l => by
    simp only [eraseAll]
    have ih := eraseAll_isSome ks (erase key k l)
    simp only [withKey_erase, length_drop] at ih
    split
    · rename_i hk
      rw [lookup_isSome] at hk
      grind
    · rename_i hk
      rw [lookup_isSome] at hk
      simp only [Option.isSome_none, Bool.false_eq_true, false_iff, not_forall]
      refine ⟨k, ?_⟩
      simp_all

theorem withKey_eraseAll : ∀ {ks : List κ} {l l' : List α}, eraseAll key ks l = some l' → ∀ k,
    withKey key k l' = (withKey key k l).drop (ks.count k)
  | [], l, l', h, k => by
    simp only [eraseAll, Option.some.injEq] at h
    simp [h]
  | k :: ks, l, l', h, k' => by
    simp only [eraseAll] at h
    split at h
    · rw [withKey_eraseAll h k', withKey_erase]
      by_cases hk : k = k' <;> simp [hk]
    · cases h

theorem eraseAll_sublist : ∀ {ks : List κ} {l l' : List α}, eraseAll key ks l = some l' → l'.Sublist l
  | [], l, l', h => by
    simp only [eraseAll, Option.some.injEq] at h
    simp [h]
  | k :: ks, l, l', h => by
    simp only [eraseAll] at h
    split at h
    · exact (eraseAll_sublist h).trans eraseP_sublist
    · cases h

/-- Erasing the keys removes the entries of one owner and no other: this holds just when each key's
newest entries, as many as it is erased, are there and are the owner's, provided the owner has no
more entries under a key than the key is erased. -/
theorem eraseAll_exact (owner : α → Prop) [DecidablePred owner] {ks : List κ}
    (hnodup : l.Nodup) (hbound : ∀ k, (withKey key k l).countP (owner ·) ≤ ks.count k) :
    (∃ l', eraseAll key ks l = some l' ∧ (∀ a ∈ l', ¬ owner a) ∧ ∀ a ∈ l, ¬ owner a → a ∈ l') ↔
      ∀ k, ks.count k ≤ (withKey key k l).length ∧ ∀ a ∈ (withKey key k l).take (ks.count k), owner a := by
  have hnd : ∀ k, (withKey key k l).Nodup := fun k => hnodup.filter _
  constructor
  · rintro ⟨l', hl', hno, hkeep⟩ k
    refine ⟨(eraseAll_isSome ks l).1 (by simp [hl']) k, fun a ha => ?_⟩
    by_contra hown
    -- an entry of another owner survives, so it is among those left under the key
    have hmem := mem_withKey.1 (mem_of_mem_take ha)
    have hleft : a ∈ withKey key k l' := mem_withKey.2 ⟨hkeep a hmem.1 hown, hmem.2⟩
    rw [withKey_eraseAll hl' k] at hleft
    have hdis := disjoint_take_drop (hnd k) (Nat.le_refl (ks.count k))
    exact hdis ha hleft
  · intro h
    obtain ⟨l', hl'⟩ := Option.isSome_iff_exists.1 ((eraseAll_isSome ks l).2 fun k => (h k).1)
    refine ⟨l', hl', fun a ha hown => ?_, fun a ha hown => ?_⟩
    · -- the owner's entries under this key all went with the erased ones
      have hleft : a ∈ withKey key (key a) l' := mem_withKey.2 ⟨ha, rfl⟩
      rw [withKey_eraseAll hl'] at hleft
      have hb := hbound (key a)
      rw [← take_append_drop (ks.count (key a)) (withKey key (key a) l), countP_append,
        countP_eq_length.2 (by simpa using (h (key a)).2), length_take,
        Nat.min_eq_left (h (key a)).1] at hb
      grind
    · have hmem : a ∈ withKey key (key a) l := mem_withKey.2 ⟨ha, rfl⟩
      rw [← take_append_drop (ks.count (key a)) (withKey key (key a) l), mem_append] at hmem
      rcases hmem with htake | hdrop
      · exact absurd ((h (key a)).2 a htake) hown
      · rw [← withKey_eraseAll hl'] at hdrop
        exact (mem_withKey.1 hdrop).1

end Multimap
