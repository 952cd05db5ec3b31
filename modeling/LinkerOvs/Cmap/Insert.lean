/-
Insertion where a slot is at hand: into the slot that has the hash already, or into an empty one.
-/
import LinkerOvs.Cmap.Buckets

namespace LinkerOvs.Cmap

variable {α : Type} {B : Build}

/-- `impl'` is `impl` with `nodes` in front of the chain of `hash`. -/
structure Inserted (B : Build) (impl : Impl α) (nodes : List α) (hash : UInt32) (impl' : Impl α) : Prop where
  wf : impl'.WF B
  n : impl'.n = impl.n
  bits : impl'.bits = impl.bits
  find : ∀ g, impl'.find B g = if g = hash then nodes ++ impl.find B hash else impl.find B g

namespace Impl

variable {impl : Impl α} {hash : UInt32} {b i : Nat}

theorem liveAt_setBucket {chain : List α} (hchain : chain ≠ []) {g : UInt32} {b' i' : Nat} :
    (impl.setBucket b i { hash := hash, chain := chain }).LiveAt g b' i' ↔
      (b' = b ∧ i' = i ∧ g = hash) ∨ (¬(b' = b ∧ i' = i) ∧ impl.LiveAt g b' i') := by
  rw [LiveAt, slot_setBucket]
  by_cases hat : b' = b ∧ i' = i
  · simp [hat, hchain, eq_comm]
  · simp only [hat, LiveAt]
    tauto

/-- A slot that no other hash uses can be given to a hash that is live nowhere else, if lookups for the hash
come to it. -/
theorem WF.put (h : impl.WF B) (chain : List α) (hchain : chain ≠ []) (hi : i < B.k)
    (hb : b = impl.bucket1 B hash ∨ b = impl.bucket2 B hash) (hfirst : ∀ i' < i, (impl.slot b i').hash ≠ hash)
    (honly : b ≠ impl.bucket1 B hash → ∀ i' < B.k, (impl.slot (impl.bucket1 B hash) i').hash ≠ hash)
    (hfree : ∀ g, impl.LiveAt g b i → g = hash) (hhome : ∀ b' i', impl.LiveAt hash b' i' → b' = b ∧ i' = i) :
    (impl.setBucket b i { hash := hash, chain := chain }).WF B ∧
      ∀ g, (impl.setBucket b i { hash := hash, chain := chain }).find B g
        = if g = hash then chain else impl.find B g := by
  -- another chain is live as before, and has another hash
  have hother : ∀ {g b' i'}, ¬(b' = b ∧ i' = i) → impl.LiveAt g b' i' → g ≠ hash := by
    grind
  have hslot : ∀ {g b' i'}, g ≠ hash → (impl.slot b' i').hash ≠ g →
      ((impl.setBucket b i { hash := hash, chain := chain }).slot b' i').hash ≠ g := by
    intro g b' i' hg hne
    rw [slot_setBucket]
    split
    · exact hg.symm
    · exact hne
  have hwf : (impl.setBucket b i { hash := hash, chain := chain }).WF B := by
    constructor
    · intro g b' i' hlive
      rcases (liveAt_setBucket hchain).1 hlive with ⟨-, rfl, -⟩ | ⟨-, hlive⟩
      · exact hi
      · exact h.slots hlive
    · intro g b' i' hlive
      rcases (liveAt_setBucket hchain).1 hlive with ⟨rfl, -, rfl⟩ | ⟨-, hlive⟩
      · exact hb
      · exact h.placed hlive
    · intro g b' i' i'' hlive hlt
      rcases (liveAt_setBucket hchain).1 hlive with ⟨rfl, rfl, rfl⟩ | ⟨hat, hlive⟩
      · rw [slot_setBucket_of_ne _ (by omega)]
        exact hfirst i'' hlt
      · exact hslot (hother hat hlive) (h.first hlive hlt)
    · intro g b' i' i'' hlive hne hlt
      rcases (liveAt_setBucket hchain).1 hlive with ⟨rfl, rfl, rfl⟩ | ⟨hat, hlive⟩
      · rw [slot_setBucket_of_ne _ fun hat => hne hat.1.symm]
        exact honly hne i'' hlt
      · exact hslot (hother hat hlive) (h.only hlive hne hlt)
  refine ⟨hwf, fun g => ?_⟩
  split
  · next hg =>
    subst hg
    have hlive : (impl.setBucket b i { hash := g, chain := chain }).LiveAt g b i :=
      (liveAt_setBucket hchain).2 (.inl ⟨rfl, rfl, rfl⟩)
    rw [hwf.find_of_live hlive, slot_setBucket_self]
  next hg =>
  refine find_congr h hwf (fun b' i' hlive => ?_) fun b' i' hlive => ?_
  · have hat : ¬(b' = b ∧ i' = i) := by
      grind
    exact ⟨b', i', (liveAt_setBucket hchain).2 (.inr ⟨hat, hlive⟩), slot_setBucket_of_ne _ hat⟩
  · rcases (liveAt_setBucket hchain).1 hlive with ⟨-, -, rfl⟩ | ⟨-, hlive⟩
    · exact absurd rfl hg
    · exact ⟨b', i', hlive⟩

theorem WF.not_liveAt (h : impl.WF B) (h1 : impl.hashSlot B (impl.bucket1 B hash) hash = none)
    (h2 : impl.hashSlot B (impl.bucket2 B hash) hash = none) (b i : Nat) : ¬impl.LiveAt hash b i := by
  intro hlive
  rcases h.placed hlive with rfl | rfl
  · exact hashSlot_eq_none.1 h1 i (h.slots hlive) hlive.2
  · exact hashSlot_eq_none.1 h2 i (h.slots hlive) hlive.2

theorem WF.insertDup (h : impl.WF B) {nodes : List α} (hnodes : nodes ≠ []) {impl' : Impl α}
    (hb : b = impl.bucket1 B hash ∨
      (b = impl.bucket2 B hash ∧ impl.hashSlot B (impl.bucket1 B hash) hash = none))
    (hinsert : impl.insertDup B nodes hash b = some impl') : Inserted B impl nodes hash impl' := by
  obtain ⟨i, hslot, rfl⟩ := Option.map_eq_some_iff.1 hinsert
  obtain ⟨hhash, hi, hfirst⟩ := hashSlot_eq_some.1 hslot
  have honly : b ≠ impl.bucket1 B hash → ∀ i' < B.k, (impl.slot (impl.bucket1 B hash) i').hash ≠ hash :=
    fun hne => hashSlot_eq_none.1 (hb.resolve_left hne).2
  -- wherever the hash is live, it is here
  have hhome : ∀ b' i', impl.LiveAt hash b' i' → b' = b ∧ i' = i := by
    intro b' i' hlive
    have hb' : b' = b := by
      by_contra hne
      rcases hb with rfl | ⟨rfl, hnone⟩
      · exact h.only hlive hne hi hhash
      · have hb1 := (h.placed hlive).resolve_right hne
        exact hashSlot_eq_none.1 hnone i' (h.slots hlive) (hb1 ▸ hlive.2)
    subst hb'
    exact ⟨rfl, Option.some.inj ((h.hashSlot_of_live hlive).symm.trans hslot)⟩
  have hchain : (impl.slot b i).chain = impl.find B hash := by
    by_cases hempty : (impl.slot b i).chain = []
    · rw [hempty, find_eq_nil]
      intro b' i' hlive
      obtain ⟨rfl, rfl⟩ := hhome b' i' hlive
      exact hlive.1 hempty
    · exact (h.find_of_live ⟨hempty, hhash⟩).symm
  have hput := h.put (nodes ++ (impl.slot b i).chain) (by simp [hnodes]) hi
    (hb.imp_right And.left) hfirst honly (fun g hg => hg.2.symm.trans hhash) hhome
  exact ⟨hput.1, rfl, rfl, by rw [← hchain]; exact hput.2⟩

theorem WF.insertBucket (h : impl.WF B) {nodes : List α} (hnodes : nodes ≠ []) {impl' : Impl α}
    (hb : b = impl.bucket1 B hash ∨ b = impl.bucket2 B hash)
    (h1 : impl.hashSlot B (impl.bucket1 B hash) hash = none)
    (h2 : impl.hashSlot B (impl.bucket2 B hash) hash = none)
    (hinsert : impl.insertBucket B nodes hash b = some impl') : Inserted B impl nodes hash impl' := by
  obtain ⟨i, hslot, rfl⟩ := Option.map_eq_some_iff.1 hinsert
  obtain ⟨hempty, hi, -⟩ := findEmptySlot_eq_some.1 hslot
  have hnone := h.not_liveAt h1 h2
  have hno : ∀ i' < B.k, (impl.slot b i').hash ≠ hash := by
    rcases hb with rfl | rfl
    · exact hashSlot_eq_none.1 h1
    · exact hashSlot_eq_none.1 h2
  have hput := h.put nodes hnodes hi hb (fun i' hi' => hno i' (by omega)) (fun _ => hashSlot_eq_none.1 h1)
    (fun g hg => absurd hempty hg.1) (fun b' i' hlive => absurd hlive (hnone b' i'))
  refine ⟨hput.1, rfl, rfl, ?_⟩
  rw [find_eq_nil hnone, List.append_nil]
  exact hput.2

end Impl

end LinkerOvs.Cmap
