/-
Insertion in all its cases, and rebuilding: a new table gets every chain of the old one, each inserted once.
-/
import LinkerOvs.Cmap.Displace

namespace LinkerOvs.Cmap

open List

variable {α : Type} {B : Build}

namespace Impl

variable {impl : Impl α} {hash : UInt32} {nodes : List α}

theorem searchInv_start {b1 b2 : Nat} {starts : List Path}
    (hstarts : ∀ p ∈ starts, p.slots = [] ∧ p.stop = p.start ∧ (p.start = b1 ∨ p.start = b2) ∧ impl.Full B p.start) :
    impl.SearchInv B b1 b2 [] starts := by
  have hlength : ∀ p ∈ starts, p.slots.length = 0 := fun p hp => by simp [(hstarts p hp).1]
  refine ⟨fun p hp => ?_, fun before p after heq => ?_, fun p rest heq q hq => ?_, forall_mem_nil _⟩
  · obtain ⟨hslots, hstop, hstart, hfull⟩ := hstarts p hp
    refine ⟨hstart, by simp [hslots, hstop], by simp [hslots], ?_⟩
    simpa [hslots, walk] using hfull
  · have hmem : ∀ q ∈ before ++ p :: after, q ∈ starts := fun q hq => by rwa [← heq] at hq
    obtain ⟨hslots, -⟩ := hstarts p (hmem p (by simp))
    refine ⟨by simp [hslots, walk], .inl (by simp [hslots, walk]), fun q hq => ?_⟩
    simp [*]
  · rw [hlength q hq]
    omega

theorem WF.insertBfs (h : impl.WF B) (hnodes : nodes ≠ []) {impl' : Impl α}
    (h1 : impl.hashSlot B (impl.bucket1 B hash) hash = none)
    (h2 : impl.hashSlot B (impl.bucket2 B hash) hash = none) (hf1 : impl.Full B (impl.bucket1 B hash))
    (hf2 : impl.Full B (impl.bucket2 B hash))
    (hinsert : impl.insertBfs B nodes hash (impl.bucket1 B hash) (impl.bucket2 B hash) = some impl') :
    Inserted B impl nodes hash impl' := by
  obtain ⟨found, hfound, rfl⟩ := Option.map_eq_some_iff.1 hinsert
  have hr : impl.Rearranges B (impl.bucket1 B hash) (impl.bucket2 B hash) found := by
    refine search_spec maxQueue (searchInv_start ?_) ?_ hfound
    · grind
    · rw [nil_append]
  cases hplaces : impl.places B found.path.start (found.path.slots ++ [found.i, found.j]) with
  | nil =>
    cases hslots : found.path.slots <;> simp [hslots, places] at hplaces
  | cons p ps =>
    exact (hr.displaced nodes hplaces).inserted h h1 h2 hnodes

/-- `cmap_try_insert` puts the nodes in front of the chain of their hash, and changes no other chain. -/
theorem WF.tryInsert (h : impl.WF B) (hnodes : nodes ≠ []) {impl' : Impl α}
    (hinsert : impl.tryInsert B nodes hash = some impl') : Inserted B impl nodes hash impl' := by
  rw [Impl.tryInsert, Option.or_eq_some_iff] at hinsert
  rcases hinsert with hdup | ⟨hnone, hinsert⟩
  · exact h.insertDup hnodes (.inl rfl) hdup
  have h1 := Option.map_eq_none_iff.1 hnone
  rw [Option.or_eq_some_iff] at hinsert
  rcases hinsert with hdup | ⟨hnone, hinsert⟩
  · exact h.insertDup hnodes (.inr ⟨rfl, h1⟩) hdup
  have h2 := Option.map_eq_none_iff.1 hnone
  rw [Option.or_eq_some_iff] at hinsert
  rcases hinsert with hempty | ⟨hnone, hinsert⟩
  · exact h.insertBucket hnodes (.inl rfl) h1 h2 hempty
  have hf1 := Option.map_eq_none_iff.1 hnone
  rw [Option.or_eq_some_iff] at hinsert
  rcases hinsert with hempty | ⟨hnone, hinsert⟩
  · exact h.insertBucket hnodes (.inr rfl) h1 h2 hempty
  have hf2 := Option.map_eq_none_iff.1 hnone
  exact h.insertBfs hnodes h1 h2 hf1 hf2 hinsert

/-! ## Rebuilding -/

def chainAt (impl : Impl α) (hash : UInt32) (p : Nat × Nat) : List α :=
  if (impl.slot p.1 p.2).hash = hash then (impl.slot p.1 p.2).chain else []

theorem chainAt_eq_nil {p : Nat × Nat} (h : ¬impl.LiveAt hash p.1 p.2) : impl.chainAt hash p = [] := by
  rw [chainAt]
  split
  · next hhash =>
    by_contra hchain
    exact h ⟨hchain, hhash⟩
  · rfl

theorem WF.mem_allPlaces (h : impl.WF B) {b i : Nat} (hlive : impl.LiveAt hash b i) : (b, i) ∈ impl.allPlaces B := by
  have hb : b < 2 ^ impl.bits := by
    rcases h.placed hlive with rfl | rfl <;> exact Nat.mod_lt _ (Nat.two_pow_pos _)
  exact pair_mem_product.2 ⟨mem_range.2 hb, mem_range.2 (h.slots hlive)⟩

theorem flatMap_eq_of_single {β : Type} {f : β → List α} {z : β} : ∀ {l : List β}, l.Nodup → z ∈ l →
    (∀ p ∈ l, p ≠ z → f p = []) → l.flatMap f = f z
  | p :: l, hnodup, hz, hother => by
    rw [flatMap_cons]
    by_cases hp : p = z
    · subst hp
      have hnil : l.flatMap f = [] := by
        refine flatMap_eq_nil_iff.2 fun q hq => hother q (mem_cons_of_mem _ hq) ?_
        grind
      rw [hnil, append_nil]
    · rw [hother p mem_cons_self hp]
      exact flatMap_eq_of_single (nodup_cons.1 hnodup).2 ((mem_cons.1 hz).resolve_left (Ne.symm hp))
        fun q hq => hother q (mem_cons_of_mem _ hq)

theorem WF.flatMap_chainAt (h : impl.WF B) (hash : UInt32) :
    (impl.allPlaces B).reverse.flatMap (impl.chainAt hash) = impl.find B hash := by
  have hnodup : (impl.allPlaces B).reverse.Nodup :=
    nodup_reverse.2 (nodup_range.product nodup_range)
  by_cases hlive : ∃ b i, impl.LiveAt hash b i
  · obtain ⟨b, i, hlive⟩ := hlive
    have hmem : (b, i) ∈ (impl.allPlaces B).reverse := mem_reverse.2 (h.mem_allPlaces hlive)
    rw [flatMap_eq_of_single hnodup hmem, h.find_of_live hlive, chainAt, if_pos hlive.2]
    intro p _ hp
    refine chainAt_eq_nil fun hlive' => hp ?_
    obtain ⟨rfl, rfl⟩ := h.unique hlive hlive'
    rfl
  · push Not at hlive
    rw [find_eq_nil hlive]
    exact flatMap_eq_nil_iff.2 fun p _ => chainAt_eq_nil (hlive p.1 p.2)

/-- Inserting the chains of some slots of `old`, one after the other. -/
theorem WF.insertChains {old : Impl α} : ∀ (ps : List (Nat × Nat)) {new new' : Impl α}, new.WF B →
    ps.foldlM
      (fun new p =>
        match (old.slot p.1 p.2).chain with
        | [] => some new
        | node :: nodes => new.tryInsert B (node :: nodes) (old.slot p.1 p.2).hash) new = some new' →
    new'.WF B ∧ new'.bits = new.bits ∧
      ∀ hash, new'.find B hash = ps.reverse.flatMap (old.chainAt hash) ++ new.find B hash
  | [], new, new', h, hfold => by
    simp_all
  | p :: ps, new, new', h, hfold => by
    rw [foldlM_cons] at hfold
    obtain ⟨mid, hmid, hfold⟩ := Option.bind_eq_some_iff.1 hfold
    have hstep : mid.WF B ∧ mid.bits = new.bits ∧
        ∀ hash, mid.find B hash = old.chainAt hash p ++ new.find B hash := by
      split at hmid
      · next hchain =>
        cases hmid
        refine ⟨h, rfl, fun hash => ?_⟩
        rw [chainAt_eq_nil fun hlive => hlive.1 hchain, nil_append]
      next node nodes hchain =>
      have hins := h.tryInsert (cons_ne_nil node nodes) hmid
      refine ⟨hins.wf, hins.bits, fun hash => ?_⟩
      rw [hins.find, chainAt, hchain]
      grind
    obtain ⟨hwf, hbits, hfind⟩ := WF.insertChains ps hstep.1 hfold
    simp [*]

theorem wf_create (bits : Nat) (basis : UInt32) : (cmapImplCreate bits basis : Impl α).WF B :=
  ⟨fun hlive => absurd rfl hlive.1, fun hlive => absurd rfl hlive.1, fun hlive => absurd rfl hlive.1,
    fun hlive => absurd rfl hlive.1⟩

theorem find_create (bits : Nat) (basis : UInt32) (hash : UInt32) :
    (cmapImplCreate bits basis : Impl α).find B hash = [] :=
  find_eq_nil fun _ _ hlive => hlive.1 rfl

/-- `new` answers lookups as `old` does, with `2 ^ bits` buckets. -/
structure Rebuilt (B : Build) (old : Impl α) (bits : Nat) (new : Impl α) : Prop where
  wf : new.WF B
  n : new.n = old.n
  bits : new.bits = bits
  find : ∀ hash, new.find B hash = old.find B hash

theorem WF.tryRehash {old new : Impl α} (h : old.WF B) {bits : Nat} {basis : UInt32}
    (hrehash : old.tryRehash B (cmapImplCreate bits basis) = some new) :
    Rebuilt B old bits { new with n := old.n } := by
  obtain ⟨hwf, hbits, hfind⟩ := WF.insertChains _ (wf_create bits basis) hrehash
  refine ⟨⟨hwf.slots, hwf.placed, hwf.first, hwf.only⟩, rfl, hbits, fun hash => ?_⟩
  have := hfind hash
  rwa [h.flatMap_chainAt, find_create, append_nil] at this

/-- The run that failed only lacked random numbers. -/
abbrev Unlucky (fault : Fault) : Prop := fault = .outOfBases

/-- Rebuilding for a number of nodes that the new size allows fails no assertion, and uses up a random number. -/
theorem WF.cmapRehash {old : Impl α} (h : old.WF B) {bits : Nat} (hn : old.n < calcMaxN B bits) (bases : List UInt32) :
    (old.cmapRehash B bits bases).Meets Unlucky fun r => Rebuilt B old bits r.1 ∧ r.2.length < bases.length := by
  rw [Impl.cmapRehash, if_pos hn]
  induction bases with
  | nil => rfl
  | cons basis bases ih =>
    rw [rehashLoop]
    split
    · next hrehash => exact ⟨h.tryRehash hrehash, Nat.lt_succ_self _⟩
    · exact ih.mono fun r hr => ⟨hr.1, Nat.lt_succ_of_lt hr.2⟩

end Impl

end LinkerOvs.Cmap
