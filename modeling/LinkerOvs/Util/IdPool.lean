/-
The pool of identifiers (lib/id-pool.c). The hint for the next id runs up to `base + n_ids`, one past the range,
where the search would not look, and `id_pool_free_id` leaves out the first id of the range.
-/
import LinkerOvs.Lib.Run

namespace LinkerOvs.IdPool

/-! ## The code -/

/-- `struct id_pool`; the map has the ids that are taken. -/
structure Pool where
  map : List Nat := []
  base : Nat
  nIds : Nat
  nextFreeId : Nat

def idPoolCreate (base nIds : Nat) : Pool := { base, nIds, nextFreeId := base }

variable (pool : Pool)

def idPoolFind (id : Nat) : Bool := pool.map.contains id

def idPoolAdd (id : Nat) : Pool := { pool with map := id :: pool.map }

/-- `pool->base + pool->n_ids`, as the 32-bit sum it is. -/
def Pool.limit : Nat := (pool.base + pool.nIds) % 2 ^ 32

/-- From the label `found_free_id` on. -/
def foundFreeId (id : Nat) : Option Nat × Pool :=
  (some id, { idPoolAdd pool id with nextFreeId := if id < pool.limit then (id + 1) % 2 ^ 32 else pool.base })

/-- The id and the pool, or no id. -/
def idPoolAllocId : Option Nat × Pool :=
  if pool.nIds = 0 then (none, pool)
  else if !idPoolFind pool pool.nextFreeId then foundFreeId pool pool.nextFreeId
  else match (List.range' pool.base (pool.limit - pool.base)).find? fun id => !idPoolFind pool id with
    | some id => foundFreeId pool id
    | none => (none, pool)

def idPoolFreeId (id : Nat) : Pool :=
  if pool.base < id ∧ id ≤ pool.limit then { pool with map := pool.map.erase id } else pool

/-! ## Runs -/

inductive Call
  | allocId
  | freeId (id : Nat)

/-- A pool, and the ids that were returned and not freed since. -/
structure State where
  pool : Pool
  allocated : List Nat := []

def State.next (s : State) : Call → State
  | .allocId => match idPoolAllocId s.pool with
    | (some id, pool) => ⟨pool, id :: s.allocated⟩
    | (none, pool) => ⟨pool, s.allocated⟩
  | .freeId id => ⟨idPoolFreeId s.pool id, s.allocated.filter (· ≠ id)⟩

def Step (s : State) (call : Call) (s' : State) : Prop := s' = s.next call

/-- The pools a run of `id_pool_create(base, n)` can reach: the hint and the ids taken are at most `base + n`. -/
structure Sound (base n : Nat) (pool : Pool) : Prop where
  base_eq : pool.base = base
  nIds_eq : pool.nIds = n
  hint : base ≤ pool.nextFreeId ∧ pool.nextFreeId ≤ base + n
  nodup : pool.map.Nodup
  within : ∀ id ∈ pool.map, base ≤ id ∧ id ≤ base + n

theorem Sound.freeId {base n : Nat} {pool : Pool} (h : Sound base n pool) (id : Nat) :
    Sound base n (idPoolFreeId pool id) := by
  unfold idPoolFreeId
  split
  · exact { h with
      nodup := h.nodup.erase id
      within := fun id' hid' => h.within id' (List.mem_of_mem_erase hid') }
  · exact h

section

variable {base n : Nat} {pool : Pool} (hfits : base + n < 2 ^ 32) (h : Sound base n pool)
include hfits h

theorem Sound.limit_eq : pool.limit = base + n := by
  rw [Pool.limit, h.base_eq, h.nIds_eq, Nat.mod_eq_of_lt hfits]

theorem Sound.foundFreeId {id : Nat} (hlow : base ≤ id) (hhigh : id ≤ base + n) (hnew : id ∉ pool.map) :
    Sound base n (foundFreeId pool id).2 := by
  refine ⟨h.base_eq, h.nIds_eq, ?_, List.nodup_cons.2 ⟨hnew, h.nodup⟩, ?_⟩
  · simp only [IdPool.foundFreeId, h.limit_eq hfits, h.base_eq]
    grind
  · rintro id' (_ | ⟨_, hid'⟩)
    · exact ⟨hlow, hhigh⟩
    · exact h.within id' hid'

/-- A call fails with the whole range taken, or takes an id that is free, in the range or at the hint. -/
theorem Sound.allocId :
    (idPoolAllocId pool = (none, pool) ∧ ∀ id, base ≤ id → id < base + n → id ∈ pool.map) ∨
    ∃ id, base ≤ id ∧ (id < base + n ∨ n ≠ 0 ∧ id = pool.nextFreeId) ∧ id ∉ pool.map ∧
      idPoolAllocId pool = IdPool.foundFreeId pool id := by
  unfold idPoolAllocId
  split
  next hn =>
    rw [h.nIds_eq] at hn
    exact .inl ⟨rfl, by omega⟩
  next hn =>
  rw [h.nIds_eq] at hn
  split
  next hfree => exact .inr ⟨_, h.hint.1, .inr ⟨hn, rfl⟩, by simpa [idPoolFind] using hfree, rfl⟩
  next =>
  rw [h.limit_eq hfits, h.base_eq, Nat.add_sub_cancel_left]
  split
  next id hid =>
    have hfree : id ∉ pool.map := by simpa [idPoolFind] using List.find?_some hid
    grind
  next hnone =>
    refine .inl ⟨rfl, fun id hlow hhigh => ?_⟩
    simpa [idPoolFind] using List.find?_eq_none.1 hnone id (List.mem_range'_1.2 ⟨hlow, hhigh⟩)

/-- Allocating again and again gives out every id of the range that is free. -/
theorem Sound.reaches {id : Nat} (hlow : base ≤ id) (hhigh : id < base + n) (hfree : id ∉ pool.map) :
    ∃ k, (idPoolAllocId ((fun p => (idPoolAllocId p).2)^[k] pool)).1 = some id := by
  -- every call that gives out another id leaves fewer of `[base, base + n]` free
  generalize hm : (Finset.Icc base (base + n) \ pool.map.toFinset).card = m
  induction m using Nat.strong_induction_on generalizing pool with
  | _ m ih =>
  rcases h.allocId hfits with ⟨_, hall⟩ | ⟨other, hother, hrange, hnew, halloc⟩
  · exact absurd (hall id hlow hhigh) hfree
  have hle : other ≤ base + n := by have := h.hint.2; omega
  by_cases hid : id = other
  · exact ⟨0, by rw [hid]; simp only [Function.iterate_zero, id_eq, halloc, IdPool.foundFreeId]⟩
  have hfewer : (Finset.Icc base (base + n) \ (other :: pool.map).toFinset).card < m := by
    rw [← hm]
    refine Finset.card_lt_card ⟨fun x hx => ?_, fun hsub => ?_⟩
    · simp_all
    · have hmem := hsub (Finset.mem_sdiff.2 ⟨Finset.mem_Icc.2 ⟨hother, hle⟩, by simpa using hnew⟩)
      simp at hmem
  have hnot : id ∉ (IdPool.foundFreeId pool other).2.map := by
    simp [IdPool.foundFreeId, idPoolAdd, hid, hfree]
  obtain ⟨k, hk⟩ := ih _ hfewer (h.foundFreeId hfits hother hle hnew) hnot rfl
  exact ⟨k + 1, by rwa [Function.iterate_succ_apply, halloc]⟩

end

/-! ## What callers see -/

/-- The hint is in the range where an id is asked for, and the first id of the range is not freed. -/
def KeepsRange (s : State) : Call → Prop
  | .allocId => s.pool.nIds = 0 ∨ s.pool.nextFreeId ≠ s.pool.base + s.pool.nIds
  | .freeId id => id = s.pool.base → id ∉ s.allocated

/-- The pool takes exactly the ids its callers have. -/
structure Inv (base n : Nat) (s : State) : Prop extends Sound base n s.pool where
  taken : ∀ id, id ∈ s.pool.map ↔ id ∈ s.allocated
  below : ∀ id ∈ s.allocated, id < base + n

section

variable {base n : Nat} {s : State} (hfits : base + n < 2 ^ 32) (h : Inv base n s)
include hfits h

theorem Inv.allocId (hkeeps : KeepsRange s .allocId) :
    (idPoolAllocId s.pool = (none, s.pool) ∧ ∀ id, base ≤ id → id < base + n → id ∈ s.allocated) ∨
    ∃ id, base ≤ id ∧ id < base + n ∧ id ∉ s.allocated ∧ idPoolAllocId s.pool = foundFreeId s.pool id := by
  simp only [KeepsRange, h.base_eq, h.nIds_eq] at hkeeps
  rcases h.toSound.allocId hfits with ⟨heq, hall⟩ | ⟨id, hlow, hrange, hnew, heq⟩
  · exact .inl ⟨heq, fun id hlow hhigh => (h.taken id).1 (hall id hlow hhigh)⟩
  · have := h.hint
    exact .inr ⟨id, hlow, by omega, fun hid => hnew ((h.taken id).2 hid), heq⟩

theorem Inv.next {call : Call} (hkeeps : KeepsRange s call) : Inv base n (s.next call) := by
  cases call with
  | allocId =>
    rcases h.allocId hfits hkeeps with ⟨heq, _⟩ | ⟨id, hlow, hhigh, hnew, heq⟩
    · simpa only [State.next, heq] using h
    · have hfound := h.foundFreeId hfits hlow hhigh.le fun hid => hnew ((h.taken id).1 hid)
      simp only [State.next, heq]
      refine { hfound with taken := fun id' => ?_, below := ?_ }
      · simp [foundFreeId, idPoolAdd, h.taken]
      · rintro id' (_ | ⟨_, hid'⟩)
        · exact hhigh
        · exact h.below id' hid'
  | freeId id =>
    refine { h.toSound.freeId id with taken := fun id' => ?_, below := fun id' hid' => ?_ }
    · simp only [State.next, idPoolFreeId, h.toSound.limit_eq hfits, h.base_eq]
      split
      next => simp [h.nodup.mem_erase_iff, h.taken, and_comm]
      next hout =>
        -- an id outside the part of the range that is searched is not allocated
        have hnot : id ∉ s.allocated := by
          intro hid
          have hwithin := h.within id ((h.taken id).2 hid)
          have hbelow := h.below id hid
          exact hkeeps (by rw [h.base_eq]; omega) hid
        rw [h.taken, List.mem_filter]
        grind
    · exact h.below id' (List.mem_filter.1 hid').1

end

/-- In a run that never asks with the hint at the end of the range and never frees its first id, a call fails exactly
when the range is allocated, else returns an id of the range that is not, and every id that is not can be returned. -/
theorem allocId_of_run {base n : Nat} (hfits : base + n < 2 ^ 32) {calls : List Call} {s : State}
    (h : Run.Meets Step KeepsRange { pool := idPoolCreate base n } calls s) :
    (KeepsRange s .allocId →
      ((idPoolAllocId s.pool).1 = none ↔ ∀ id, base ≤ id → id < base + n → id ∈ s.allocated) ∧
      ∀ id, (idPoolAllocId s.pool).1 = some id → base ≤ id ∧ id < base + n ∧ id ∉ s.allocated) ∧
    ∀ id, base ≤ id → id < base + n → id ∉ s.allocated →
      ∃ k, (idPoolAllocId ((fun p => (idPoolAllocId p).2)^[k] s.pool)).1 = some id := by
  have hcreate : Inv base n { pool := idPoolCreate base n } :=
    ⟨⟨rfl, rfl, ⟨le_refl _, Nat.le_add_right _ _⟩, List.nodup_nil, by rintro _ ⟨⟩⟩, fun _ => Iff.rfl, by rintro _ ⟨⟩⟩
  have hinv : Inv base n s := by
    refine h.invariant ?_ hcreate
    rintro s call _ hs hkeeps rfl
    exact hs.next hfits hkeeps
  refine ⟨fun hkeeps => ?_, fun id hlow hhigh hid =>
    hinv.reaches hfits hlow hhigh fun hmem => hid ((hinv.taken id).1 hmem)⟩
  rcases hinv.allocId hfits hkeeps with ⟨heq, hall⟩ | ⟨id, hlow, hhigh, hnew, heq⟩
  · simp only [heq, true_iff]
    exact ⟨hall, by rintro _ ⟨⟩⟩
  · simp only [heq, foundFreeId]
    refine ⟨⟨by rintro ⟨⟩, fun hall => absurd (hall id hlow hhigh) hnew⟩, ?_⟩
    rintro _ ⟨⟩
    exact ⟨hlow, hhigh, hnew⟩

/-- After two allocations, the second given back, and a third one, two of four ids are left, the freed one among them. -/
theorem allocId_of_run_freed : ∃ s : State, s.allocated = [2, 0] ∧
    Run.Meets Step KeepsRange { pool := idPoolCreate 0 4 } [.allocId, .allocId, .freeId 1, .allocId] s ∧
    (idPoolAllocId s.pool).1 ≠ none ∧ ∃ k, (idPoolAllocId ((fun p => (idPoolAllocId p).2)^[k] s.pool)).1 = some 1 := by
  have hrun : Run.Meets Step KeepsRange { pool := idPoolCreate 0 4 } [.allocId, .allocId, .freeId 1, .allocId]
      ⟨⟨[2, 0], 0, 4, 3⟩, [2, 0]⟩ :=
    .cons (.inr (by decide)) rfl <| .cons (.inr (by decide)) rfl <| .cons (fun h => absurd h (by decide)) rfl <|
      .cons (.inr (by decide)) rfl (.nil _)
  obtain ⟨hnext, hfree⟩ := allocId_of_run (by decide) hrun
  refine ⟨_, rfl, hrun, fun hnone => ?_, hfree 1 (by decide) (by decide) (by decide)⟩
  have hall := (hnext (.inr (by decide))).1.1 hnone 1
  simp at hall

/-- A pool of one id gives out a second one, and does not take the first one back. -/
theorem pool_of_one_gives_two :
    let pool := (idPoolAllocId (idPoolCreate 0 1)).2
    (idPoolAllocId pool).1 = some 1 ∧ idPoolFreeId pool 0 = pool :=
  ⟨rfl, rfl⟩

end LinkerOvs.IdPool
