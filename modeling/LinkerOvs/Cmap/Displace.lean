/-
Making room along a path: every chain on the path moves to the other bucket of its hash, and the new chain
takes the place of the first one. The buckets of the path are distinct and all but the last one full, so
each moved chain finds no slot with its hash where it arrives, and leaves none behind.
-/
import LinkerOvs.Cmap.Insert
import LinkerOvs.Cmap.Search

namespace LinkerOvs.Cmap

open List

variable {α : Type} {B : Build}

/-! ## Moving the contents of a list of places -/

/-- The content of `y` moves to `x`. -/
def MovesTo (ps : List (Nat × Nat)) (y x : Nat × Nat) : Prop := (y, x) ∈ ps.zip ps.tail

theorem movesTo_cons_cons {p q y x : Nat × Nat} {ps : List (Nat × Nat)} :
    MovesTo (p :: q :: ps) y x ↔ (y = p ∧ x = q) ∨ MovesTo (q :: ps) y x := by
  simp [MovesTo]

theorem MovesTo.mem {ps : List (Nat × Nat)} {y x : Nat × Nat} (h : MovesTo ps y x) : y ∈ ps ∧ x ∈ ps.tail :=
  of_mem_zip h

theorem slot_setBucket_place (impl : Impl α) (q : Nat × Nat) (s : Slot α) (x : Nat × Nat) :
    (impl.setBucket q.1 q.2 s).slot x.1 x.2 = if x = q then s else impl.slot x.1 x.2 := by
  rw [Impl.slot_setBucket]
  congr 1
  exact propext Prod.ext_iff.symm

theorem shift_slot_of_not_mem (impl : Impl α) : ∀ (ps : List (Nat × Nat)) {x : Nat × Nat}, x ∉ ps.tail →
    (shift impl ps).slot x.1 x.2 = impl.slot x.1 x.2
  | [], _, _ => rfl
  | [_], _, _ => rfl
  | p :: q :: ps, x, hx => by
    rw [tail_cons, mem_cons, not_or] at hx
    rw [shift, slot_setBucket_place, if_neg hx.1]
    exact shift_slot_of_not_mem impl (q :: ps) hx.2

theorem shift_slot_of_movesTo (impl : Impl α) : ∀ {ps : List (Nat × Nat)} {y x : Nat × Nat}, ps.Nodup →
    MovesTo ps y x → (shift impl ps).slot x.1 x.2 = impl.slot y.1 y.2
  | p :: q :: ps, y, x, hnodup, hmoves => by
    rw [nodup_cons] at hnodup
    rw [shift, slot_setBucket_place]
    rcases movesTo_cons_cons.1 hmoves with ⟨rfl, rfl⟩ | hmoves
    · rw [if_pos rfl]
      exact shift_slot_of_not_mem impl _ fun hmem => hnodup.1 (mem_of_mem_tail hmem)
    have hx : x ∈ ps := hmoves.mem.2
    have hne : x ≠ q := by
      grind
    rw [if_neg hne]
    exact shift_slot_of_movesTo impl hnodup.2 hmoves

theorem shift_bits (impl : Impl α) : ∀ ps, (shift impl ps).bits = impl.bits ∧ (shift impl ps).n = impl.n ∧
    (shift impl ps).basis = impl.basis
  | [] => ⟨rfl, rfl, rfl⟩
  | [_] => ⟨rfl, rfl, rfl⟩
  | _ :: q :: ps => shift_bits impl (q :: ps)

theorem exists_movesTo_to : ∀ (ps : List (Nat × Nat)) {x : Nat × Nat}, x ∈ ps.tail → ∃ y, MovesTo ps y x
  | p :: q :: ps, x, hx => by
    rcases mem_cons.1 hx with rfl | hx
    · exact ⟨p, movesTo_cons_cons.2 (.inl ⟨rfl, rfl⟩)⟩
    · obtain ⟨y, hy⟩ := exists_movesTo_to (q :: ps) hx
      exact ⟨y, movesTo_cons_cons.2 (.inr hy)⟩

theorem exists_movesTo_from (last : Nat × Nat) : ∀ (ps : List (Nat × Nat)) {y : Nat × Nat}, y ∈ ps →
    ∃ x, MovesTo (ps ++ [last]) y x
  | p :: [], y, hy => by
    cases mem_singleton.1 hy
    exact ⟨last, movesTo_cons_cons.2 (.inl ⟨rfl, rfl⟩)⟩
  | p :: q :: ps, y, hy => by
    rcases mem_cons.1 hy with rfl | hy
    · exact ⟨q, movesTo_cons_cons.2 (.inl ⟨rfl, rfl⟩)⟩
    · obtain ⟨x, hx⟩ := exists_movesTo_from last (q :: ps) hy
      exact ⟨x, movesTo_cons_cons.2 (.inr hx)⟩

theorem MovesTo.mem_dropLast : ∀ {ps : List (Nat × Nat)} {y x : Nat × Nat}, MovesTo ps y x → y ∈ ps.dropLast
  | p :: q :: ps, y, x, h => by
    rcases movesTo_cons_cons.1 h with ⟨rfl, rfl⟩ | h
    · exact mem_cons_self
    · exact mem_cons_of_mem _ h.mem_dropLast

theorem MovesTo.inj : ∀ {ps : List (Nat × Nat)} {y x x' : Nat × Nat}, ps.Nodup → MovesTo ps y x → MovesTo ps y x' → x = x'
  | p :: q :: ps, y, x, x', hnodup, h, h' => by
    rw [nodup_cons] at hnodup
    rcases movesTo_cons_cons.1 h with ⟨rfl, rfl⟩ | hm
    · rcases movesTo_cons_cons.1 h' with ⟨-, rfl⟩ | hm'
      · rfl
      · exact absurd hm'.mem.1 hnodup.1
    · rcases movesTo_cons_cons.1 h' with ⟨rfl, -⟩ | hm'
      · exact absurd hm.mem.1 hnodup.1
      · exact hm.inj hnodup.2 hm'

theorem MovesTo.fst_ne : ∀ {ps : List (Nat × Nat)} {y x : Nat × Nat}, (ps.map Prod.fst).Nodup → MovesTo ps y x → x.1 ≠ y.1
  | p :: q :: ps, y, x, hnodup, h => by
    rw [map_cons, nodup_cons] at hnodup
    rcases movesTo_cons_cons.1 h with ⟨rfl, rfl⟩ | h
    · exact fun heq => hnodup.1 (heq ▸ mem_map_of_mem mem_cons_self)
    · exact h.fst_ne hnodup.2

/-! ## The places along a path -/

namespace Impl

variable {impl : Impl α}

theorem places_append : ∀ (b : Nat) (is : List Nat) (j : Nat),
    impl.places B b (is ++ [j]) = impl.places B b is ++ [(is.foldl (impl.otherBucket B) b, j)]
  | _, [], _ => rfl
  | b, i :: is, j => by
    rw [cons_append, places, places_append (impl.otherBucket B b i) is j]
    rfl

theorem map_fst_places : ∀ (b : Nat) (is : List Nat) (j : Nat),
    (impl.places B b (is ++ [j])).map Prod.fst = impl.walk B b is
  | _, [], _ => rfl
  | b, i :: is, j => by
    rw [cons_append, places, map_cons, map_fst_places (impl.otherBucket B b i) is j]
    rfl

theorem fst_of_movesTo_places : ∀ (b : Nat) (is : List Nat) {y x : Nat × Nat}, MovesTo (impl.places B b is) y x →
    x.1 = impl.otherBucket B y.1 y.2
  | b, i :: i' :: is, y, x, h => by
    rcases movesTo_cons_cons.1 h with ⟨rfl, rfl⟩ | h
    · rfl
    · exact fst_of_movesTo_places _ (i' :: is) h

theorem snd_mem_of_mem_places : ∀ {b : Nat} {is : List Nat} {x : Nat × Nat}, x ∈ impl.places B b is → x.2 ∈ is
  | b, i :: is, x, hx => by
    rcases mem_cons.1 hx with rfl | hx
    · exact mem_cons_self
    · exact mem_cons_of_mem _ (snd_mem_of_mem_places hx)

end Impl

/-! ## The table afterwards -/

/-- `impl'` is `impl` with `nodes` at `p`, whose content has moved on, like that of every place from which
`Moves` leads. -/
structure Displaced (B : Build) (impl impl' : Impl α) (nodes : List α) (hash : UInt32) (p : Nat × Nat)
    (Moves : Nat × Nat → Nat × Nat → Prop) : Prop where
  n : impl'.n = impl.n
  bits : impl'.bits = impl.bits
  basis : impl'.basis = impl.basis
  new : impl'.slot p.1 p.2 = { hash := hash, chain := nodes }
  newBucket : p.1 = impl.bucket1 B hash ∨ p.1 = impl.bucket2 B hash
  newSlot : p.2 < B.k
  moved : ∀ {y x}, Moves y x → impl'.slot x.1 x.2 = impl.slot y.1 y.2
  kept : ∀ {x}, x ≠ p → (∀ y, ¬Moves y x) → impl'.slot x.1 x.2 = impl.slot x.1 x.2
  bucket : ∀ {y x}, Moves y x → x.1 = impl.otherBucket B y.1 y.2 ∧ x.1 ≠ y.1
  slot : ∀ {y x}, Moves y x → y.2 < B.k ∧ x.2 < B.k
  full : ∀ {y x}, Moves y x → ∀ i < B.k, (impl.slot y.1 i).chain ≠ []
  before : ∀ {y x}, Moves y x → ∀ i < x.2, (impl.slot x.1 i).chain ≠ []
  vacated : ∀ {y x}, Moves y x → y = p ∨ ∃ z, Moves z y
  inj : ∀ {y x x'}, Moves y x → Moves y x' → x = x'
  goes : ∀ {z}, (impl.slot z.1 z.2).chain ≠ [] → (z = p ∨ ∃ y, Moves y z) → ∃ x, Moves z x

namespace Displaced

variable {impl impl' : Impl α} {nodes : List α} {hash : UInt32} {p : Nat × Nat}
  {Moves : Nat × Nat → Nat × Nat → Prop} (h : Displaced B impl impl' nodes hash p Moves)
include h

theorem bucket1 (g : UInt32) : impl'.bucket1 B g = impl.bucket1 B g := by
  simp only [Impl.bucket1, Impl.index, Impl.rehash, h.bits, h.basis]

theorem bucket2 (g : UInt32) : impl'.bucket2 B g = impl.bucket2 B g := by
  simp only [Impl.bucket2, Impl.index, Impl.rehash, h.bits, h.basis]

theorem origin (x : Nat × Nat) : (∃ y, Moves y x ∧ impl'.slot x.1 x.2 = impl.slot y.1 y.2) ∨
    (x = p ∧ impl'.slot x.1 x.2 = { hash := hash, chain := nodes }) ∨
    (x ≠ p ∧ (∀ y, ¬Moves y x) ∧ impl'.slot x.1 x.2 = impl.slot x.1 x.2) := by
  by_cases hmoves : ∃ y, Moves y x
  · obtain ⟨y, hy⟩ := hmoves
    exact .inl ⟨y, hy, h.moved hy⟩
  have hnot : ∀ y, ¬Moves y x := fun y hy => hmoves ⟨y, hy⟩
  by_cases hp : x = p
  · subst hp
    exact .inr (.inl ⟨rfl, h.new⟩)
  · exact .inr (.inr ⟨hp, hnot, h.kept hp hnot⟩)

variable {x : Nat × Nat} {g : UInt32}

theorem live_of_moves {y : Nat × Nat} (hm : Moves y x) (hg : (impl.slot y.1 y.2).hash = g) : impl.LiveAt g y.1 y.2 :=
  ⟨h.full hm y.2 (h.slot hm).1, hg⟩

variable (hwf : impl.WF B) (h1 : impl.hashSlot B (impl.bucket1 B hash) hash = none)
  (h2 : impl.hashSlot B (impl.bucket2 B hash) hash = none)
include hwf h1 h2

/-- No slot of the two buckets of `hash` has it but the one it is given. -/
theorem hash_ne (hx : x ≠ p) (hslot : x.2 < B.k) (hbucket : x.1 = impl.bucket1 B hash ∨ x.1 = impl.bucket2 B hash) :
    (impl'.slot x.1 x.2).hash ≠ hash := by
  intro hhash
  rcases h.origin x with ⟨y, hy, heq⟩ | ⟨hp, -⟩ | ⟨-, -, heq⟩
  · rw [heq] at hhash
    exact hwf.not_liveAt h1 h2 y.1 y.2 (h.live_of_moves hy hhash)
  · exact hx hp
  · rw [heq] at hhash
    rcases hbucket with hb | hb
    · exact Impl.hashSlot_eq_none.1 h1 x.2 hslot (hb ▸ hhash)
    · exact Impl.hashSlot_eq_none.1 h2 x.2 hslot (hb ▸ hhash)

/-- Two places with one hash of the old table, if one of them holds a chain that was live. -/
theorem hash_ne_of_live {x' z : Nat × Nat} (hz : impl.LiveAt g z.1 z.2)
    (hfrom : Moves z x ∨ (z = x ∧ ∀ y, ¬Moves z y)) (hne : x' ≠ x) (hg : (impl'.slot x'.1 x'.2).hash = g) :
    x' ≠ p ∧ (∀ y, ¬Moves y x') ∧ (impl.slot x'.1 x'.2).hash = g := by
  rcases h.origin x' with ⟨y, hy, heq⟩ | ⟨-, heq⟩ | ⟨hp, hnot, heq⟩
  · -- the chain that moved to `x'` is the one at `x`
    rw [heq] at hg
    obtain ⟨hb, hi⟩ := hwf.unique (h.live_of_moves hy hg) hz
    have hyz : y = z := Prod.ext hb hi
    subst hyz
    rcases hfrom with hx | ⟨-, hnot⟩
    · exact absurd (h.inj hy hx) hne
    · exact absurd hy (hnot x')
  · rw [heq] at hg
    cases hg
    exact absurd hz (hwf.not_liveAt h1 h2 z.1 z.2)
  · exact ⟨hp, hnot, heq ▸ hg⟩

omit hwf h1 h2 in
theorem live_cases (hlive : impl'.LiveAt g x.1 x.2) : (x = p ∧ g = hash)
    ∨ ∃ z, impl.LiveAt g z.1 z.2 ∧ (Moves z x ∨ (z = x ∧ ∀ y, ¬Moves z y)) := by
  rcases h.origin x with ⟨y, hy, heq⟩ | ⟨hp, heq⟩ | ⟨hp, hnot, heq⟩
  · rw [Impl.LiveAt, heq] at hlive
    exact .inr ⟨y, hlive, .inl hy⟩
  · rw [Impl.LiveAt, heq] at hlive
    exact .inl ⟨hp, hlive.2.symm⟩
  · rw [Impl.LiveAt, heq] at hlive
    refine .inr ⟨x, hlive, .inr ⟨rfl, fun y hy => ?_⟩⟩
    rcases h.vacated hy with hp' | ⟨z, hz⟩
    · exact hp hp'
    · exact hnot z hz

omit h1 h2 in
theorem other_of_moves {z : Nat × Nat} (hz : impl.LiveAt g z.1 z.2) (hm : Moves z x) :
    (z.1 = impl.bucket1 B g ∧ x.1 = impl.bucket2 B g) ∨ (z.1 = impl.bucket2 B g ∧ x.1 = impl.bucket1 B g) := by
  have hx := (h.bucket hm).1
  rw [Impl.otherBucket, hz.2] at hx
  split at hx
  · next hb => exact .inl ⟨hb.symm, hx⟩
  · next hb => exact .inr ⟨(hwf.placed hz).resolve_left (Ne.symm hb), hx⟩

theorem first (hlive : impl'.LiveAt g x.1 x.2) {i : Nat} (hi : i < x.2) : (impl'.slot x.1 i).hash ≠ g := by
  have hne : (x.1, i) ≠ x := by
    grind
  intro hg
  rcases h.live_cases hlive with ⟨rfl, rfl⟩ | ⟨z, hz, hfrom⟩
  · exact h.hash_ne hwf h1 h2 hne (by have := h.newSlot; simp only; omega) h.newBucket hg
  obtain ⟨-, -, hg⟩ := h.hash_ne_of_live hwf h1 h2 hz hfrom hne hg
  rcases hfrom with hm | ⟨rfl, -⟩
  · -- the bucket it came to has live chains before it, none with its hash
    obtain ⟨hb, -⟩ := hwf.unique ⟨h.before hm i hi, hg⟩ hz
    exact (h.bucket hm).2 hb
  · exact hwf.first hz hi hg

theorem only (hlive : impl'.LiveAt g x.1 x.2) (hx : x.1 ≠ impl.bucket1 B g) {i : Nat} (hi : i < B.k) :
    (impl'.slot (impl.bucket1 B g) i).hash ≠ g := by
  have hne : (impl.bucket1 B g, i) ≠ x := fun heq => hx (congrArg Prod.fst heq).symm
  intro hg
  rcases h.live_cases hlive with ⟨rfl, rfl⟩ | ⟨z, hz, hfrom⟩
  · exact h.hash_ne hwf h1 h2 hne hi (.inl rfl) hg
  obtain ⟨hp, hnot, hg⟩ := h.hash_ne_of_live hwf h1 h2 hz hfrom hne hg
  rcases hfrom with hm | ⟨rfl, -⟩
  · -- it has left the first bucket, which was full, so that the slot would be the one it has left
    rcases h.other_of_moves hwf hz hm with ⟨hb, -⟩ | ⟨-, hb⟩
    · have hthere : impl.LiveAt g (impl.bucket1 B g) i := ⟨hb ▸ h.full hm i hi, hg⟩
      obtain ⟨-, hzi⟩ := hwf.unique hthere hz
      have hz' : (impl.bucket1 B g, i) = z := Prod.ext hb.symm hzi
      rcases h.vacated hm with hzp | ⟨y, hy⟩
      · exact hp (hz'.trans hzp)
      · exact hnot y (hz' ▸ hy)
    · exact hx hb
  · exact hwf.only hz hx hi hg

theorem wf : impl'.WF B := by
  constructor
  · intro g b i hlive
    rcases h.live_cases (x := (b, i)) hlive with ⟨hp, -⟩ | ⟨z, hz, hm | ⟨rfl, -⟩⟩
    · subst hp
      exact h.newSlot
    · exact (h.slot hm).2
    · exact hwf.slots hz
  · intro g b i hlive
    rw [h.bucket1, h.bucket2]
    rcases h.live_cases (x := (b, i)) hlive with ⟨hp, rfl⟩ | ⟨z, hz, hm | ⟨rfl, -⟩⟩
    · subst hp
      exact h.newBucket
    · rcases h.other_of_moves hwf hz hm with ⟨-, hb⟩ | ⟨-, hb⟩
      · exact .inr hb
      · exact .inl hb
    · exact hwf.placed hz
  · intro g b i i' hlive hi'
    exact h.first hwf h1 h2 (x := (b, i)) hlive hi'
  · intro g b i i' hlive hb hi'
    rw [h.bucket1] at hb ⊢
    exact h.only hwf h1 h2 (x := (b, i)) hlive hb hi'

theorem inserted (hnodes : nodes ≠ []) : Inserted B impl nodes hash impl' := by
  have hnone := hwf.not_liveAt h1 h2
  have hwf' := h.wf hwf h1 h2
  refine ⟨hwf', h.n, h.bits, fun g => ?_⟩
  split
  · next hg =>
    subst hg
    have hlive : impl'.LiveAt g p.1 p.2 := by
      rw [Impl.LiveAt, h.new]
      exact ⟨hnodes, rfl⟩
    rw [hwf'.find_of_live hlive, h.new, Impl.find_eq_nil hnone, append_nil]
  next hg =>
  refine Impl.find_congr hwf hwf' (fun b i hlive => ?_) fun b i hlive => ?_
  · by_cases hover : (b, i) = p ∨ ∃ y, Moves y (b, i)
    · obtain ⟨x, hx⟩ := h.goes (z := (b, i)) hlive.1 hover
      have hslot := h.moved hx
      refine ⟨x.1, x.2, ?_, hslot⟩
      rw [Impl.LiveAt, hslot]
      exact hlive
    · rw [not_or] at hover
      have hslot := h.kept hover.1 fun y hy => hover.2 ⟨y, hy⟩
      refine ⟨b, i, ?_, hslot⟩
      rw [Impl.LiveAt, hslot]
      exact hlive
  · rcases h.live_cases (x := (b, i)) hlive with ⟨-, hg'⟩ | ⟨z, hz, -⟩
    · exact absurd hg' hg
    · exact ⟨z.1, z.2, hz⟩

end Displaced

namespace Impl

variable {impl : Impl α} {hash : UInt32}

/-- What the search has found makes room for a chain of `hash`. -/
theorem Rearranges.displaced {found : FoundPath}
    (h : impl.Rearranges B (impl.bucket1 B hash) (impl.bucket2 B hash) found) (nodes : List α) {p : Nat × Nat}
    {ps : List (Nat × Nat)}
    (hplaces : impl.places B found.path.start (found.path.slots ++ [found.i, found.j]) = p :: ps) :
    Displaced B impl ((shift impl (p :: ps)).setBucket p.1 p.2 { hash := hash, chain := nodes }) nodes hash p
      (MovesTo (p :: ps)) := by
  obtain ⟨hempty, hj, hbefore⟩ := findEmptySlot_eq_some.1 h.empty
  -- all places but the last one are in the full buckets of the path
  have hlist : p :: ps = impl.places B found.path.start (found.path.slots ++ [found.i])
      ++ [(impl.otherBucket B found.path.stop found.i, found.j)] := by
    rw [← hplaces, h.path.stop, append_cons, places_append, foldl_append]
    rfl
  have hfull : ∀ y ∈ impl.places B found.path.start (found.path.slots ++ [found.i]), impl.Full B y.1 := by
    intro y hy
    refine h.path.full y.1 ?_
    rw [← map_fst_places found.path.start found.path.slots found.i]
    exact mem_map_of_mem hy
  have hslots : ∀ y ∈ impl.places B found.path.start (found.path.slots ++ [found.i]), y.2 < B.k := by
    intro y hy
    rcases mem_append.1 (snd_mem_of_mem_places hy) with hi | hi
    · exact h.path.slots _ hi
    · exact mem_singleton.1 hi ▸ h.slot
  have hmem : ∀ x ∈ p :: ps, x ∈ impl.places B found.path.start (found.path.slots ++ [found.i]) ∨
      x = (impl.otherBucket B found.path.stop found.i, found.j) := by
    simp [*]
  have hnext : impl.otherBucket B found.path.stop found.i ∉ impl.walk B found.path.start found.path.slots := by
    intro hb
    cases (h.path.full _ hb).symm.trans h.empty
  have hfst : ((p :: ps).map Prod.fst).Nodup := by
    rw [hlist, map_append, map_fst_places, nodup_append]
    refine ⟨h.nodup, nodup_singleton _, ?_⟩
    grind
  have hnodup : (p :: ps).Nodup := List.Nodup.of_map _ hfst
  have hsource : ∀ {y x}, MovesTo (p :: ps) y x →
      y ∈ impl.places B found.path.start (found.path.slots ++ [found.i]) := by
    intro y x hm
    have := hm.mem_dropLast
    rwa [hlist, dropLast_concat] at this
  have htarget : ∀ {x}, x ∈ (p :: ps).tail → x ≠ p := by
    grind
  obtain ⟨hbits, hn, hbasis⟩ := shift_bits impl (p :: ps)
  have hstart : p.1 = found.path.start ∧ p.2 < B.k := by
    cases hcase : found.path.slots with
    | nil =>
      rw [hcase] at hplaces
      cases hplaces
      exact ⟨rfl, h.slot⟩
    | cons i is =>
      rw [hcase] at hplaces
      cases hplaces
      exact ⟨rfl, h.path.slots i (by simp [hcase])⟩
  refine ⟨hn, hbits, hbasis, ?_, hstart.1 ▸ h.path.start, hstart.2, ?_, ?_, ?_, ?_, ?_, ?_, ?_, ?_, ?_⟩
  · rw [slot_setBucket_place, if_pos rfl]
  · intro y x hm
    rw [slot_setBucket_place, if_neg (htarget hm.mem.2)]
    exact shift_slot_of_movesTo impl hnodup hm
  · intro x hx hnot
    rw [slot_setBucket_place, if_neg hx]
    refine shift_slot_of_not_mem impl _ fun hmem => ?_
    obtain ⟨y, hy⟩ := exists_movesTo_to _ hmem
    exact hnot y hy
  · intro y x hm
    refine ⟨?_, hm.fst_ne hfst⟩
    rw [← hplaces] at hm
    exact fst_of_movesTo_places _ _ hm
  · intro y x hm
    refine ⟨hslots y (hsource hm), ?_⟩
    rcases hmem x (mem_of_mem_tail hm.mem.2) with hx | rfl
    · exact hslots x hx
    · exact hj
  · intro y x hm
    exact findEmptySlot_eq_none.1 (hfull y (hsource hm))
  · intro y x hm i hi
    rcases hmem x (mem_of_mem_tail hm.mem.2) with hx | rfl
    · exact findEmptySlot_eq_none.1 (hfull x hx) i (by have := hslots x hx; omega)
    · exact hbefore i hi
  · intro y x hm
    rcases mem_cons.1 hm.mem.1 with hy | hy
    · exact .inl hy
    · exact .inr (exists_movesTo_to (p :: ps) hy)
  · intro y x x' hm hm'
    exact hm.inj hnodup hm'
  · intro z hz hover
    have hzmem : z ∈ p :: ps := by
      rcases hover with rfl | ⟨y, hy⟩
      · exact mem_cons_self
      · exact mem_of_mem_tail hy.mem.2
    rcases hmem z hzmem with hz' | rfl
    · rw [hlist]
      exact exists_movesTo_from _ _ hz'
    · exact absurd hempty hz

end Impl

end LinkerOvs.Cmap
