/-
Conjunctive matches: the clause masks that `find_conjunctive_match` fills in, and the loop that looks for a rule
among the soft matches of one priority. A conjunction of at most 63 clauses is found exactly when all its
clauses are there, but the loop leaves a soft match as soon as one of its conjunctions is, whether there is a
rule for it or not.
-/
import LinkerOvs.Classifier.Megaflow

namespace LinkerOvs.Cls

open List hiding set

/-! ## Clause masks -/

/-- The conjunctions have at most 63 clauses, and those with one id have the same number. -/
@[mk_iff] structure Consistent (cs : Set ClsConjunction) : Prop where
  le : ∀ c ∈ cs, c.nClauses.toNat ≤ 63
  same : ∀ c ∈ cs, ∀ c' ∈ cs, c.id = c'.id → c.nClauses = c'.nClauses

instance (l : List ClsConjunction) : Decidable (Consistent {c | c ∈ l}) :=
  decidable_of_iff ((∀ c ∈ l, c.nClauses.toNat ≤ 63) ∧ ∀ c ∈ l, ∀ c' ∈ l, c.id = c'.id → c.nClauses = c'.nClauses)
    (consistent_iff _).symm

/-- A clause mask for the conjunctions in `done` that have the id of `c`. -/
def MaskFor (done : Set ClsConjunction) (c : ClsConjunction) (clauses : BitVec 64) : Prop :=
  ∀ k < 64, clauses.getLsbD k = true ↔ c.nClauses.toNat ≤ k ∨ ∃ c' ∈ done, c'.id = c.id ∧ c'.clause.toNat = k

/-- There is a `conjunctive_match` for each id in `done`, with the clauses that are there. -/
structure FoundOk (done : Set ClsConjunction) (found : List ConjunctiveMatch) : Prop where
  sound : ∀ cm ∈ found, ∃ c ∈ done, c.id = cm.id
  mask : ∀ cm ∈ found, ∀ c ∈ done, c.id = cm.id → MaskFor done c cm.clauses
  all : ∀ c ∈ done, ∃ cm ∈ found, cm.id = c.id

variable {done cs : Set ClsConjunction} {found : List ConjunctiveMatch} {c : ClsConjunction}

theorem FoundOk.init : FoundOk ∅ [] := ⟨nofun, nofun, nofun⟩

theorem matchClause_mask (h : FoundOk done found) (hcs : Consistent cs) (hdone : done ⊆ cs) (hc : c ∈ cs) :
    MaskFor (done ∪ {c}) c (matchClause found c).clauses := by
  intro k hk
  have hnew : (∃ c' ∈ done ∪ {c}, c'.id = c.id ∧ c'.clause.toNat = k) ↔
      (∃ c' ∈ done, c'.id = c.id ∧ c'.clause.toNat = k) ∨ c.clause.toNat = k := by
    grind
  unfold matchClause
  rw [BitVec.getLsbD_or, getLsbD_clause hk, Bool.or_eq_true, decide_eq_true_eq, hnew, ← or_assoc]
  refine or_congr_left ?_
  cases hfind : Keyed.find ConjunctiveMatch.id c.id found with
  | none =>
    have hnone : ¬∃ c' ∈ done, c'.id = c.id ∧ c'.clause.toNat = k := by
      rintro ⟨c', hc', hid, -⟩
      obtain ⟨cm, hcm, hcmid⟩ := h.all c' hc'
      exact Keyed.find_none hfind cm hcm (hcmid.trans hid)
    have hlt : c.nClauses.toNat < 64 := Nat.lt_succ_of_le (hcs.le c hc)
    rw [Nat.mod_eq_of_lt hlt, getLsbD_newClauses hk, decide_eq_true_eq, or_iff_left hnone]
  | some cm =>
    obtain ⟨hcm, hid⟩ := Keyed.find_some hfind
    obtain ⟨x, hx, hxid⟩ := h.sound cm hcm
    have hmask := h.mask cm hcm x hx hxid k hk
    rw [hcs.same x (hdone hx) c hc (hxid.trans hid), hxid, hid] at hmask
    exact hmask

theorem FoundOk.put (h : FoundOk done found) (hcs : Consistent cs) (hdone : done ⊆ cs) (hc : c ∈ cs) :
    FoundOk (done ∪ {c}) (putMatch found (matchClause found c)) := by
  have hmask := matchClause_mask h hcs hdone hc
  -- the masks of the others do not change
  have hother : ∀ cm ∈ found, cm.id ≠ c.id → ∀ x ∈ done ∪ {c}, x.id = cm.id → MaskFor (done ∪ {c}) x cm.clauses := by
    rintro cm hcm hne x (hx | rfl) hxid k hk
    · rw [h.mask cm hcm x hx hxid k hk]
      grind
    · exact absurd hxid.symm hne
  have hself : ∀ x ∈ done ∪ {c}, x.id = c.id → MaskFor (done ∪ {c}) x (matchClause found c).clauses := by
    intro x hx hxid k hk
    have hxcs : x ∈ cs := hx.elim (fun hx => hdone hx) fun hx => (Set.mem_singleton_iff.1 hx) ▸ hc
    rw [hcs.same x hxcs c hc hxid, hxid]
    exact hmask k hk
  refine ⟨fun cm hcm => ?_, fun cm hcm => ?_, fun x hx => ?_⟩
  · rcases mem_putMatch.1 hcm with rfl | ⟨hcm, -⟩
    · exact ⟨c, .inr rfl, rfl⟩
    · obtain ⟨x, hx, hxid⟩ := h.sound cm hcm
      exact ⟨x, .inl hx, hxid⟩
  · rcases mem_putMatch.1 hcm with rfl | ⟨hcm, hne⟩
    · exact hself
    · exact hother cm hcm hne
  · by_cases hxid : x.id = c.id
    · exact ⟨matchClause found c, mem_putMatch.2 (.inl rfl), hxid.symm⟩
    have hxdone : x ∈ done := hx.resolve_right fun heq => hxid (congrArg ClsConjunction.id heq)
    obtain ⟨cm, hcm, hcmid⟩ := h.all x hxdone
    exact ⟨cm, mem_putMatch.2 (.inr ⟨hcm, fun heq => hxid (hcmid.symm.trans heq)⟩), hcmid⟩

/-- All clauses of a conjunction with this id are among those in `cs`. -/
def Complete (cs : Set ClsConjunction) (id : UInt32) : Prop :=
  ∃ c ∈ cs, c.id = id ∧ ∀ k < c.nClauses.toNat, ∃ c' ∈ cs, c'.id = id ∧ c'.clause.toNat = k

instance (l : List ClsConjunction) (id : UInt32) : Decidable (Complete {c | c ∈ l} id) :=
  inferInstanceAs (Decidable (∃ c ∈ l, c.id = id ∧ ∀ k < c.nClauses.toNat, ∃ c' ∈ l, c'.id = id ∧ c'.clause.toNat = k))

theorem FoundOk.complete_of_full (h : FoundOk done found) (hcs : Consistent cs) (hdone : done ⊆ cs)
    {cm : ConjunctiveMatch} (hcm : cm ∈ found) (hfull : cm.clauses = BitVec.allOnes 64) : Complete cs cm.id := by
  obtain ⟨c, hc, hid⟩ := h.sound cm hcm
  refine ⟨c, hdone hc, hid, fun k hk => ?_⟩
  have hk64 : k < 64 := by have := hcs.le c (hdone hc); omega
  have hbit : cm.clauses.getLsbD k = true := by
    rw [hfull, BitVec.getLsbD_allOnes, decide_eq_true hk64]
  rcases (h.mask cm hcm c hc hid k hk64).1 hbit with hle | ⟨c', hc', hc'id, hclause⟩
  · omega
  · exact ⟨c', hdone hc', hc'id.trans hid, hclause⟩

theorem FoundOk.full_of_complete (h : FoundOk done found) {id : UInt32} (hcomplete : Complete cs id) (hall : ∀ c ∈ cs, c.id = id → c ∈ done) :
    ∃ cm ∈ found, cm.id = id ∧ cm.clauses = BitVec.allOnes 64 := by
  obtain ⟨c, hc, hid, hclauses⟩ := hcomplete
  obtain ⟨cm, hcm, hcmid⟩ := h.all c (hall c hc hid)
  refine ⟨cm, hcm, hcmid.trans hid, BitVec.eq_of_getLsbD_eq fun k hk => ?_⟩
  have hbit : cm.clauses.getLsbD k = true := by
    refine (h.mask cm hcm c (hall c hc hid) hcmid.symm k hk).2 ?_
    grind
  rw [hbit, BitVec.getLsbD_allOnes, decide_eq_true hk]

/-! ## The conjunctions of one rule -/

/-- No mask of an id in `R` is full. -/
def NoneFull (R : Set UInt32) (found : List ConjunctiveMatch) : Prop :=
  ∀ cm ∈ found, cm.id ∈ R → cm.clauses ≠ BitVec.allOnes 64

variable {R : Set UInt32} {n : Nat} {set : List ClsConjunction}

/-- What the loop over the conjunctions of a rule does: it goes through all of them that are not too long, or stops at
an id whose clauses are all there. -/
def SetDone (cs : Set ClsConjunction) (R : Set UInt32) (n : Nat) (set : List ClsConjunction) (done : Set ClsConjunction)
    (r : Option UInt32 × List ConjunctiveMatch) : Prop :=
  ∃ done', done ⊆ done' ∧ done' ⊆ cs ∧ FoundOk done' r.2 ∧
    ((r.1 = none ∧ NoneFull R r.2 ∧ ∀ c ∈ set, c.nClauses.toNat ≤ n → c ∈ done') ∨
      ∃ id, r.1 = some id ∧ Complete cs id ∧ (id ∉ R → NoneFull R r.2) ∧ ∃ c ∈ set, c.id = id)

theorem findConjunctiveMatchLoop_spec (hcs : Consistent cs) : ∀ {set : List ClsConjunction}
    {found : List ConjunctiveMatch} {done : Set ClsConjunction}, (∀ c ∈ set, c ∈ cs) → FoundOk done found → done ⊆ cs →
    NoneFull R found → SetDone cs R n set done (findConjunctiveMatchLoop n set found)
  | [], found, done, _, hfound, hdone, hfull =>
    ⟨done, Set.Subset.refl _, hdone, hfound, .inl ⟨rfl, hfull, nofun⟩⟩
  | c :: set, found, done, hset, hfound, hdone, hfull => by
    have hset' : ∀ x ∈ set, x ∈ cs := fun x hx => hset x (mem_cons_of_mem _ hx)
    -- what is left, after `c` has been passed over or put in the map
    have hrest : ∀ {found₁ done₁}, done ⊆ done₁ → done₁ ⊆ cs → FoundOk done₁ found₁ → NoneFull R found₁ →
        (c.nClauses.toNat ≤ n → c ∈ done₁) →
        SetDone cs R n (c :: set) done (findConjunctiveMatchLoop n set found₁) := by
      intro found₁ done₁ hsub hdone₁ hfound₁ hfull₁ hc
      obtain ⟨done', hsub', hdone', hfound', hcases⟩ := findConjunctiveMatchLoop_spec hcs hset' hfound₁ hdone₁ hfull₁
      refine ⟨done', hsub.trans hsub', hdone', hfound', hcases.imp ?_ ?_⟩
      · grind
      · grind
    rw [findConjunctiveMatchLoop]
    split
    · grind
    have hput := hfound.put hcs hdone (hset c mem_cons_self)
    have hdone₁ : done ∪ {c} ⊆ cs := Set.union_subset hdone (Set.singleton_subset_iff.2 (hset c mem_cons_self))
    dsimp only
    split
    · rename_i hall
      refine ⟨done ∪ {c}, Set.subset_union_left, hdone₁, hput, .inr ⟨c.id, rfl, ?_, ?_, c, mem_cons_self, rfl⟩⟩
      · exact hput.complete_of_full hcs hdone₁ (mem_putMatch.2 (.inl rfl)) hall
      · intro hR x hx hxR
        rcases mem_putMatch.1 hx with rfl | ⟨hx, -⟩
        · exact absurd hxR hR
        · exact hfull x hx hxR
    · rename_i hall
      refine hrest Set.subset_union_left hdone₁ hput ?_ fun _ => .inr rfl
      intro x hx hxR
      rcases mem_putMatch.1 hx with rfl | ⟨hx, -⟩
      · exact hall
      · exact hfull x hx hxR

theorem foldl_min_le : ∀ (set : List ClsConjunction) (m : Nat),
    set.foldl (fun n c => min n c.nClauses.toNat) m ≤ m ∧
      ∀ c ∈ set, set.foldl (fun n c => min n c.nClauses.toNat) m ≤ c.nClauses.toNat
  | [], m => ⟨le_refl m, nofun⟩
  | c :: set, m => by
    obtain ⟨hle, hall⟩ := foldl_min_le set (min m c.nClauses.toNat)
    simp_all

theorem minNClauses_le : ∀ {set : List ClsConjunction}, c ∈ set → minNClauses set ≤ c.nClauses.toNat
  | x :: set, hc => by
    obtain ⟨hle, hall⟩ := foldl_min_le set x.nClauses.toNat
    rcases mem_cons.1 hc with rfl | hc
    · exact hle
    · exact hall c hc

theorem findConjunctiveMatch_spec (hcs : Consistent cs) (hset : ∀ c ∈ set, c ∈ cs) (hfound : FoundOk done found)
    (hdone : done ⊆ cs) (hfull : NoneFull R found) : SetDone cs R n set done (findConjunctiveMatch set n found) := by
  unfold findConjunctiveMatch
  split
  · rename_i hlong
    refine ⟨done, Set.Subset.refl _, hdone, hfound, .inl ⟨rfl, hfull, fun c hc hle => ?_⟩⟩
    exact absurd ((minNClauses_le hc).trans hle) (Nat.not_le.2 hlong)
  · exact findConjunctiveMatchLoop_spec hcs hset hfound hdone hfull

/-! ## The soft matches of one priority -/

section Loop

variable {env : Env} {cls : Classifier} {v : Version} {f : Flow} {p : Int}

/-- The ids for which there is a rule. -/
def withRule (env : Env) (cls : Classifier) (v : Version) (f : Flow) : Set UInt32 :=
  {id | (lookupHard env cls v (f.setConjId id) none).1 ≠ none}

/-- The conjunctions of a soft match with an id that is complete but without a rule all have this id. -/
def Undisturbed (cs : Set ClsConjunction) (R : Set UInt32) (set : List ClsConjunction) : Prop :=
  ∀ c ∈ set, Complete cs c.id → c.id ∉ R → ∀ c' ∈ set, c'.id = c.id

/-- What the loop over soft matches does: a rule that it gives is for a complete conjunction; without one, the
conjunctions that have rules have been gone through and none was complete. -/
def SoftDone (env : Env) (cls : Classifier) (v : Version) (f : Flow) (p : Int) (n : Nat) (cs : Set ClsConjunction)
    (soft : List (List ClsMatch)) (done : Set ClsConjunction) (r : Option ClsRule) : Prop :=
  (∃ id rule, r = some rule ∧ Complete cs id ∧ (lookupHard env cls v (f.setConjId id) none).1 = some rule) ∨
    r = none ∧ ∃ done' found', done ⊆ done' ∧ done' ⊆ cs ∧ FoundOk done' found' ∧
      NoneFull (withRule env cls v f) found' ∧ ∀ s ∈ soft, softPriority s = p → ∀ c ∈ softConjSet s,
        c.nClauses.toNat ≤ n → c.id ∈ withRule env cls v f → c ∈ done'

theorem conjunctiveLoop_spec (h : cls.WF env.hash) (hcs : Consistent cs) : ∀ {soft : List (List ClsMatch)}
    {found : List ConjunctiveMatch} {done : Set ClsConjunction} (wc : Option Flow),
    (∀ s ∈ soft, softPriority s = p →
      (∀ c ∈ softConjSet s, c ∈ cs) ∧ Undisturbed cs (withRule env cls v f) (softConjSet s)) →
    FoundOk done found → done ⊆ cs → NoneFull (withRule env cls v f) found →
    SoftDone env cls v f p n cs soft done (conjunctiveLoop env cls v f p n soft found wc).1
  | [], found, done, wc, _, hfound, hdone, hfull =>
    .inr ⟨rfl, done, found, Set.Subset.refl _, hdone, hfound, hfull, nofun⟩
  | s :: soft, found, done, wc, hsoft, hfound, hdone, hfull => by
    -- the rest of the loop, once the conjunctions of `s` that have rules have been gone through
    have hrest : ∀ {found₁ done₁ wc₁}, done ⊆ done₁ → done₁ ⊆ cs → FoundOk done₁ found₁ →
        NoneFull (withRule env cls v f) found₁ → (softPriority s = p → ∀ c ∈ softConjSet s, c.nClauses.toNat ≤ n →
          c.id ∈ withRule env cls v f → c ∈ done₁) →
        SoftDone env cls v f p n cs (s :: soft) done (conjunctiveLoop env cls v f p n soft found₁ wc₁).1 := by
      intro found₁ done₁ wc₁ hsub hdone₁ hfound₁ hfull₁ hs
      refine (conjunctiveLoop_spec h hcs wc₁ (fun x hx => hsoft x (mem_cons_of_mem _ hx)) hfound₁ hdone₁ hfull₁).imp id ?_
      grind
    rw [conjunctiveLoop]
    split
    · rename_i hpri
      obtain ⟨hmem, hundisturbed⟩ := hsoft s mem_cons_self hpri
      obtain ⟨done₁, hsub₁, hdone₁, hfound₁, hcases⟩ :=
        findConjunctiveMatch_spec (R := withRule env cls v f) (n := n) hcs hmem hfound hdone hfull
      generalize findConjunctiveMatch (softConjSet s) n found = r at hfound₁ hcases ⊢
      obtain ⟨r, found₁⟩ := r
      dsimp only at hfound₁ hcases
      rcases hcases with ⟨rfl, hfull₁, hall⟩ | ⟨id, rfl, hcomplete, hfull₁, x, hx, hxid⟩
      · grind
      have hlookup := lookupHard_none (v := v) (f := f.setConjId id) h wc
      dsimp only
      rcases hr : lookupHard env cls v (f.setConjId id) wc with ⟨_ | rule, wc₁⟩
      · -- there is no rule for the id, so it is the only one in this soft match
        have hR : id ∉ withRule env cls v f := by
          unfold withRule
          simp [*]
        refine hrest hsub₁ hdone₁ hfound₁ (hfull₁ hR) fun _ c hc _ hcR => ?_
        have hcid : c.id = id := (hundisturbed x hx (hxid ▸ hcomplete) (hxid ▸ hR) c hc).trans hxid
        exact absurd (hcid ▸ hcR) hR
      · refine .inl ⟨id, rule, rfl, hcomplete, ?_⟩
        rw [hlookup, hr]
    · grind

end Loop

end LinkerOvs.Cls
