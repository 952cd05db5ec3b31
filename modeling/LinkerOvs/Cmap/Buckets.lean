/-
What makes the lookup of the cuckoo hash right although slots keep old hashes: the slot of a chain is the
first one of its bucket with that hash, and if it is in the second bucket of the hash then no slot of the
first bucket has the hash, used or not.
-/
import LinkerOvs.Cmap.Impl

namespace LinkerOvs.Cmap

open List

variable {α : Type} {B : Build}

/-- A chain with this hash is in this slot. -/
def Impl.LiveAt (impl : Impl α) (hash : UInt32) (b i : Nat) : Prop :=
  (impl.slot b i).chain ≠ [] ∧ (impl.slot b i).hash = hash

/-- The table as operations leave it. -/
structure Impl.WF (B : Build) (impl : Impl α) : Prop where
  slots : ∀ {hash b i}, impl.LiveAt hash b i → i < B.k
  placed : ∀ {hash b i}, impl.LiveAt hash b i → b = impl.bucket1 B hash ∨ b = impl.bucket2 B hash
  first : ∀ {hash b i i'}, impl.LiveAt hash b i → i' < i → (impl.slot b i').hash ≠ hash
  only : ∀ {hash b i i'}, impl.LiveAt hash b i → b ≠ impl.bucket1 B hash → i' < B.k →
    (impl.slot (impl.bucket1 B hash) i').hash ≠ hash

namespace Impl

variable {impl : Impl α} {hash : UInt32} {b i : Nat}

theorem slot_setBucket (s : Slot α) (b' i' : Nat) :
    (impl.setBucket b i s).slot b' i' = if b' = b ∧ i' = i then s else impl.slot b' i' := rfl

@[simp] theorem slot_setBucket_self (s : Slot α) : (impl.setBucket b i s).slot b i = s := by
  simp [slot_setBucket]

theorem slot_setBucket_of_ne (s : Slot α) {b' i' : Nat} (h : ¬(b' = b ∧ i' = i)) :
    (impl.setBucket b i s).slot b' i' = impl.slot b' i' := by
  rw [slot_setBucket, if_neg h]

/-! ## The searches for a slot -/

theorem hashSlot_eq_some : impl.hashSlot B b hash = some i ↔
    (impl.slot b i).hash = hash ∧ i < B.k ∧ ∀ i' < i, (impl.slot b i').hash ≠ hash := by
  rw [hashSlot]
  simp

theorem hashSlot_eq_none : impl.hashSlot B b hash = none ↔ ∀ i < B.k, (impl.slot b i).hash ≠ hash := by
  rw [hashSlot]
  simp

theorem findEmptySlot_eq_some : impl.findEmptySlotProtected B b = some i ↔
    (impl.slot b i).chain = [] ∧ i < B.k ∧ ∀ i' < i, (impl.slot b i').chain ≠ [] := by
  rw [findEmptySlotProtected]
  simp

theorem findEmptySlot_eq_none : impl.findEmptySlotProtected B b = none ↔ ∀ i < B.k, (impl.slot b i).chain ≠ [] := by
  rw [findEmptySlotProtected]
  simp

theorem findSlotProtected_eq_none :
    impl.findSlotProtected B b hash = none ↔ ∀ i < B.k, ¬impl.LiveAt hash b i := by
  rw [findSlotProtected, find?_range_eq_none]
  simp only [LiveAt, Bool.not_eq_true', Bool.and_eq_false_iff, decide_eq_false_iff_not, Bool.not_eq_false',
    List.isEmpty_iff]
  refine forall₂_congr fun i _ => ?_
  tauto

theorem findSlotProtected_some (h : impl.findSlotProtected B b hash = some i) : impl.LiveAt hash b i := by
  have := find?_some h
  simp only [Bool.and_eq_true, decide_eq_true_eq, Bool.not_eq_true', isEmpty_eq_false_iff] at this
  exact ⟨this.2, this.1⟩

/-! ## Lookup -/

namespace WF

variable (h : impl.WF B)
include h

section

variable (hlive : impl.LiveAt hash b i)
include hlive

theorem unique {b' i' : Nat} (hlive' : impl.LiveAt hash b' i') : b = b' ∧ i = i' := by
  by_cases hb : b = b'
  · subst hb
    rcases Nat.lt_trichotomy i i' with hlt | heq | hlt
    · exact absurd hlive.2 (h.first hlive' hlt)
    · exact ⟨rfl, heq⟩
    · exact absurd hlive'.2 (h.first hlive hlt)
  -- one of the two is in the second bucket only, and then the first bucket has no such slot
  by_cases hb1 : b = impl.bucket1 B hash
  · subst hb1
    exact absurd hlive.2 (h.only hlive' (Ne.symm hb) (h.slots hlive))
  have hb2 : b = impl.bucket2 B hash := (h.placed hlive).resolve_left hb1
  have hb1' : b' = impl.bucket1 B hash :=
    (h.placed hlive').resolve_right fun hb2' => hb (hb2.trans hb2'.symm)
  subst hb1'
  exact absurd hlive'.2 (h.only hlive hb1 (h.slots hlive'))

theorem hashSlot_of_live : impl.hashSlot B b hash = some i :=
  hashSlot_eq_some.2 ⟨hlive.2, h.slots hlive, fun _ hi' => h.first hlive hi'⟩

theorem findInBucket_of_live : impl.findInBucket B b hash = (impl.slot b i).chain := by
  rw [findInBucket, h.hashSlot_of_live hlive]

theorem findInBucket_bucket1 (hb : b ≠ impl.bucket1 B hash) :
    impl.findInBucket B (impl.bucket1 B hash) hash = [] := by
  rw [findInBucket, hashSlot_eq_none.2 fun i' hi' => h.only hlive hb hi']

theorem find_of_live : impl.find B hash = (impl.slot b i).chain := by
  have hchain := h.findInBucket_of_live hlive
  by_cases hb : b = impl.bucket1 B hash
  · obtain ⟨node, nodes, hcons⟩ := exists_cons_of_ne_nil hlive.1
    rw [find, ← hb, hchain, hcons]
  · rw [find, h.findInBucket_bucket1 hlive hb, ← (h.placed hlive).resolve_left hb]
    exact hchain

end

end WF

theorem live_of_mem_findInBucket {node : α} (hnode : node ∈ impl.findInBucket B b hash) : ∃ i, impl.LiveAt hash b i := by
  rw [findInBucket] at hnode
  split at hnode
  · next i hi => exact ⟨i, ne_nil_of_mem hnode, (hashSlot_eq_some.1 hi).1⟩
  · cases hnode

theorem findInBucket_eq_nil (hnone : ∀ i, ¬impl.LiveAt hash b i) : impl.findInBucket B b hash = [] := by
  rw [eq_nil_iff_forall_not_mem]
  intro node hnode
  obtain ⟨i, hlive⟩ := live_of_mem_findInBucket hnode
  exact hnone i hlive

theorem live_of_mem_find {node : α} (hnode : node ∈ impl.find B hash) : ∃ b i, impl.LiveAt hash b i := by
  rw [find] at hnode
  split at hnode
  · exact ⟨_, live_of_mem_findInBucket hnode⟩
  · next x xs hx => exact ⟨_, live_of_mem_findInBucket (hx ▸ hnode)⟩

theorem find_eq_nil (hnone : ∀ b i, ¬impl.LiveAt hash b i) : impl.find B hash = [] := by
  rw [eq_nil_iff_forall_not_mem]
  intro node hnode
  obtain ⟨b, i, hlive⟩ := live_of_mem_find hnode
  exact hnone b i hlive

/-- The writer's lookup finds what the readers' lookup finds unless it takes the wrong bucket for the second one. -/
theorem WF.findProtected_iff (h : impl.WF B) : (impl.findProtected B hash).head? = (impl.find B hash).head? ↔
    ∀ i, impl.LiveAt hash (impl.bucket2 B hash) i →
      impl.bucket2 B hash = impl.bucket1 B hash ∨ impl.index (otherHash hash) = impl.bucket2 B hash := by
  by_cases hlive : ∃ b i, impl.LiveAt hash b i
  · obtain ⟨b, i, hlive⟩ := hlive
    have hchain := h.findInBucket_of_live hlive
    obtain ⟨node, nodes, hcons⟩ := exists_cons_of_ne_nil hlive.1
    rw [h.find_of_live hlive]
    by_cases hb : b = impl.bucket1 B hash
    · rw [findProtected, ← hb, hchain, hcons]
      exact iff_of_true rfl fun i' hlive' => .inl (h.unique hlive' hlive).1
    have hb2 : b = impl.bucket2 B hash := (h.placed hlive).resolve_left hb
    rw [findProtected, h.findInBucket_bucket1 hlive hb]
    by_cases hindex : impl.index (otherHash hash) = b
    · grind
    rw [findInBucket_eq_nil fun i' hlive' => hindex (h.unique hlive' hlive).1, hcons]
    grind
  · push Not at hlive
    rw [find_eq_nil hlive, findProtected, findInBucket_eq_nil (hlive _), findInBucket_eq_nil (hlive _)]
    exact iff_of_true rfl fun i hi => absurd hi (hlive _ i)

theorem find_congr {impl' : Impl α} (h : impl.WF B) (h' : impl'.WF B) {hash : UInt32}
    (hsub : ∀ b i, impl.LiveAt hash b i → ∃ b' i', impl'.LiveAt hash b' i' ∧ impl'.slot b' i' = impl.slot b i)
    (hsub' : ∀ b i, impl'.LiveAt hash b i → ∃ b' i', impl.LiveAt hash b' i') : impl'.find B hash = impl.find B hash := by
  by_cases hlive : ∃ b i, impl.LiveAt hash b i
  · obtain ⟨b, i, hlive⟩ := hlive
    obtain ⟨b', i', hlive', heq⟩ := hsub b i hlive
    rw [h.find_of_live hlive, h'.find_of_live hlive', heq]
  · push Not at hlive
    rw [find_eq_nil hlive, find_eq_nil]
    grind

end Impl

end LinkerOvs.Cmap
