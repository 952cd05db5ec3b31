/-
The wildcards of a lookup. A lookup gives the same rule with and without them, and every flow that agrees with
the one that was looked up on the bits that are set at its end gets the same rule, as long as no stage hash
singles out a rule that the flow does not share the hashed bits with. The two runs go through the same
subtables and the same soft matches.
-/
import LinkerOvs.Classifier.SoftMatch

namespace LinkerOvs.Cls

open List hiding set

variable {env : Env} {cls : Classifier} {v : Version} {f : Flow} {allow : Bool} {hard : Option ClsMatch × Int}
  {soft : List (List ClsMatch)} {n : Nat}

/-! ## The main loop -/

/-- The main loop looks at a subtable: a rule without conjunctions that is first for the flow in a subtable before it
has a priority below its highest. -/
def Classifier.Visits (cls : Classifier) (v : Version) (f : Flow) (S : ClsSubtable) : Prop :=
  ∀ e ∈ cls.subtables.impl.vector.takeWhile fun e => e.ptr ≠ some S.mask, ∀ T ∈ e.ptr.bind cls.findSubtable,
    ∀ m ∈ (T.firstMatch v f).head?, m.conjSet = [] → m.priority < S.maxPriority

instance (cls : Classifier) (v : Version) (f : Flow) (S : ClsSubtable) : Decidable (cls.Visits v f S) :=
  inferInstanceAs (Decidable (∀ e ∈ _, ∀ T ∈ Option.bind _ _, ∀ m ∈ head? _, _))

/-- In no subtable that the main loop looks at does a stage hash single out a chain that differs from the flow in the
hashed bits, and if it has ports the final stage has only those. -/
def Classifier.Faithful (H : FlowHash) (cls : Classifier) (v : Version) (f : Flow) : Prop :=
  ∀ S ∈ cls.subtablesMap, cls.Visits v f S → S.NoFalseCandidate H f ∧ S.FinalPortsOnly

instance (H : FlowHash) (cls : Classifier) (v : Version) (f : Flow) : Decidable (cls.Faithful H v f) :=
  inferInstanceAs (Decidable (∀ S ∈ cls.subtablesMap, _))

theorem LookupState.found_hardPri (allow : Bool) (st : LookupState) (list : List ClsMatch) :
    st.hardPri ≤ (st.found allow list).hardPri ∧
      ∀ m ∈ list.head?, m.conjSet = [] → m.priority ≤ (st.found allow list).hardPri := by
  rcases list with _ | ⟨x, xs⟩
  · exact ⟨le_refl _, nofun⟩
  rw [LookupState.found]
  by_cases hle : x.priority ≤ st.hardPri
  · simp [*]
  rw [if_neg hle]
  by_cases hconj : x.conjSet = []
  · rw [if_pos hconj]
    refine ⟨(not_le.1 hle).le, ?_⟩
    simp
  · rw [if_neg hconj]
    refine ⟨by split <;> rfl, ?_⟩
    simp [*]

/-- The wildcards grow, and a flow that agrees on them at the end finds the same in every subtable. -/
theorem mainLoop_cert (h : cls.WF env.hash) (allow : Bool) : ∀ {front es : List (PvectorEntry Flow)},
    cls.subtables.impl.vector = front ++ es → ∀ {st : LookupState} {wc : Flow}, st.wc = some wc →
    (∀ e ∈ front, ∀ T ∈ e.ptr.bind cls.findSubtable, ∀ m ∈ (T.firstMatch v f).head?, m.conjSet = [] →
      m.priority ≤ st.hardPri) →
    ∃ wc', (mainLoop env cls v f allow es st).wc = some wc' ∧ wc.Sub wc' ∧
      (cls.Faithful env.hash v f → ∀ f', wc'.Agrees f f' →
        mainLoop env cls v f' allow es st.noWc = (mainLoop env cls v f allow es st).noWc)
  | _, [], _, st, wc, hwc, _ => ⟨wc, hwc, .refl wc, fun _ _ _ => rfl⟩
  | front, e :: es, hvector, st, wc, hwc, hfront => by
    obtain ⟨S, hS, rfl⟩ := h.mem_vector.1 (hvector ▸ mem_append_right front mem_cons_self)
    rw [mainLoop_entry h hS]
    split
    · rename_i hpri
      have hvisits : cls.Visits v f S := by
        intro e he T hT m hm hconj
        rw [hvector, takeWhile_append] at he
        refine (hfront e ?_ T hT m hm hconj).trans_lt hpri
        split at he
        · simpa [ClsSubtable.entry] using he
        · exact (takeWhile_sublist _).subset he
      obtain ⟨wc₁, hwc₁, hsub₁, hcert₁⟩ := (h.ready hS).findMatchWc_cert (v := v) (f := f) wc
      rw [hwc, hwc₁]
      obtain ⟨hmono, hfirst⟩ := LookupState.found_hardPri allow { st with wc := some wc₁ } (S.firstMatch v f)
      have hfront' : ∀ e ∈ front ++ [S.entry], ∀ T ∈ e.ptr.bind cls.findSubtable, ∀ m ∈ (T.firstMatch v f).head?,
          m.conjSet = [] → m.priority ≤ (LookupState.found allow { st with wc := some wc₁ } (S.firstMatch v f)).hardPri := by
        intro e he T hT m hm hconj
        rcases mem_append.1 he with he | he
        · exact (hfront e he T hT m hm hconj).trans hmono
        · obtain rfl := mem_singleton.1 he
          obtain rfl := Option.some.inj ((h.find_mask hS).symm.trans hT)
          exact hfirst m hm hconj
      obtain ⟨wc', hwc', hsub, hcert⟩ := mainLoop_cert h allow ((append_assoc front [S.entry] es).trans hvector.symm).symm
        (LookupState.found_wc allow { st with wc := some wc₁ } (S.firstMatch v f)) hfront'
      refine ⟨wc', hwc', hsub₁.trans hsub, fun hfaithful f' hf' => ?_⟩
      obtain ⟨hcandidate, hports⟩ := hfaithful S hS hvisits
      have hsame : S.firstMatch v f' = S.firstMatch v f := hcert₁ hcandidate hports f' (hf'.mono hsub)
      rw [mainLoop_entry h hS]
      refine (if_pos hpri).trans ?_
      rw [hsame, ← hcert hfaithful f' hf', LookupState.found_noWc]
      rfl
    · rename_i hpri
      refine ⟨wc, hwc, .refl wc, fun _ f' _ => ?_⟩
      exact if_neg hpri

theorem mainLoop_none (h : cls.WF env.hash) (allow : Bool) (wc : Option Flow) :
    mainLoop env cls v f allow cls.subtables.impl.vector { wc := none } =
      (mainLoop env cls v f allow cls.subtables.impl.vector { wc }).noWc :=
  (mainLoop_noWc h allow (fun _ he => he) { wc }).symm

theorem lookupHard_none (h : cls.WF env.hash) (wc : Option Flow) :
    lookupHard env cls v f none = ((lookupHard env cls v f wc).1, none) := by
  unfold lookupHard
  rw [mainLoop_none h false wc]
  rfl

/-- A search finds the same with wildcards, and a flow that agrees on those it leaves finds the same. -/
def Certified {α : Type} (search : Flow → Option Flow → α × Option Flow) (faithful : Prop) (f wc : Flow) : Prop :=
  ∃ wc', search f (some wc) = ((search f none).1, some wc') ∧ wc.Sub wc' ∧
    (faithful → ∀ f', wc'.Agrees f f' → search f' none = search f none)

theorem lookupHard_cert (h : cls.WF env.hash) (wc : Flow) :
    Certified (lookupHard env cls v) (cls.Faithful env.hash v f) f wc := by
  obtain ⟨wc', hwc', hsub, hcert⟩ := mainLoop_cert (v := v) (f := f) h false (nil_append _).symm
    (rfl : ({ wc := some wc } : LookupState).wc = some wc) (forall_mem_nil _)
  have hnone := lookupHard_none (v := v) (f := f) h (some wc)
  refine ⟨wc', ?_, hsub, fun hfaithful f' hf' => ?_⟩
  · rw [hnone]
    exact congrArg (Prod.mk _) hwc'
  · rw [hnone]
    have hsame := hcert hfaithful f' hf'
    unfold lookupHard
    dsimp only [LookupState.noWc] at hsame
    rw [hsame]

/-! ## Conjunctive matches -/

/-- All clauses of a conjunction with this id are among those in `cs`, as a shift by `n_clauses & 63` counts them. -/
def Completed (cs : Set ClsConjunction) (id : UInt32) : Prop :=
  ∃ c ∈ cs, c.id = id ∧ ∀ k < c.nClauses.toNat % 64, ∃ c' ∈ cs, c'.id = id ∧ c'.clause.toNat = k

instance (l : List ClsConjunction) (id : UInt32) : Decidable (Completed {c | c ∈ l} id) :=
  inferInstanceAs (Decidable (∃ c ∈ l, c.id = id ∧ ∀ k < c.nClauses.toNat % 64, ∃ c' ∈ l, c'.id = id ∧ c'.clause.toNat = k))

/-- The masks have only bits of clauses in `cs` below the number of clauses. -/
def MasksIn (cs : Set ClsConjunction) (found : List ConjunctiveMatch) : Prop :=
  ∀ cm ∈ found, ∃ c ∈ cs, c.id = cm.id ∧ ∀ k < c.nClauses.toNat % 64, cm.clauses.getLsbD k = true →
    ∃ c' ∈ cs, c'.id = cm.id ∧ c'.clause.toNat = k

theorem getLsbD_newClauses {n k : Nat} (hk : k < 64) :
    (BitVec.allOnes 64 <<< n).getLsbD k = decide (n ≤ k) := by
  rw [BitVec.getLsbD_shiftLeft, BitVec.getLsbD_allOnes]
  grind

theorem getLsbD_clause {n k : Nat} (hk : k < 64) : (1#64 <<< n).getLsbD k = decide (n = k) := by
  rw [BitVec.getLsbD_shiftLeft]
  grind

theorem mem_putMatch {cm x : ConjunctiveMatch} : x ∈ putMatch found cm ↔ x = cm ∨ x ∈ found ∧ x.id ≠ cm.id := by
  unfold putMatch
  split
  · rename_i hfind
    obtain ⟨y, hy⟩ := Option.isSome_iff_exists.1 hfind
    obtain ⟨hmem, hid⟩ := Keyed.find_some hy
    constructor
    · intro hx
      obtain ⟨z, hz, rfl⟩ := mem_map.1 hx
      grind
    · rintro (rfl | ⟨hx, hne⟩)
      · exact mem_map.2 ⟨y, hmem, if_pos hid⟩
      · exact mem_map.2 ⟨x, hx, if_neg hne⟩
  · rename_i hfind
    rw [Option.not_isSome_iff_eq_none] at hfind
    rw [mem_cons]
    exact or_congr_right ⟨fun hx => ⟨hx, Keyed.find_none hfind x hx⟩, fun hx => hx.1⟩

section

variable {cs : Set ClsConjunction} {found : List ConjunctiveMatch}

theorem MasksIn.put {c : ClsConjunction} (h : MasksIn cs found) (hc : c ∈ cs) :
    MasksIn cs (putMatch found (matchClause found c)) := by
  intro cm hcm
  rcases mem_putMatch.1 hcm with rfl | ⟨hcm, -⟩
  swap
  · exact h cm hcm
  unfold matchClause
  cases hfind : Keyed.find ConjunctiveMatch.id c.id found with
  | none =>
    refine ⟨c, hc, rfl, fun k hk hbit => ⟨c, hc, rfl, ?_⟩⟩
    grind
  | some cm =>
    obtain ⟨hcm, hid⟩ := Keyed.find_some hfind
    obtain ⟨x, hx, hxid, hbits⟩ := h cm hcm
    refine ⟨x, hx, hxid.trans hid, fun k hk hbit => ?_⟩
    rw [BitVec.getLsbD_or, getLsbD_clause (hk.trans (Nat.mod_lt _ (by decide))), Bool.or_eq_true, decide_eq_true_eq] at hbit
    grind

theorem MasksIn.completed {cm : ConjunctiveMatch} (h : MasksIn cs found) (hcm : cm ∈ found)
    (hfull : cm.clauses = BitVec.allOnes 64) : Completed cs cm.id := by
  obtain ⟨c, hc, hid, hbits⟩ := h cm hcm
  refine ⟨c, hc, hid, fun k hk => hbits k hk ?_⟩
  rw [hfull, BitVec.getLsbD_allOnes, decide_eq_true (hk.trans (Nat.mod_lt _ (by decide)))]

theorem findConjunctiveMatchLoop_completed {maxNClauses : Nat} : ∀ {set : List ClsConjunction}
    {found : List ConjunctiveMatch}, (∀ c ∈ set, c ∈ cs) → MasksIn cs found →
    MasksIn cs (findConjunctiveMatchLoop maxNClauses set found).2 ∧
      ∀ id ∈ (findConjunctiveMatchLoop maxNClauses set found).1, Completed cs id
  | [], _, _, h => ⟨h, nofun⟩
  | c :: set, found, hset, h => by
    obtain ⟨hc, hset⟩ := forall_mem_cons.1 hset
    rw [findConjunctiveMatchLoop]
    split
    · exact findConjunctiveMatchLoop_completed hset h
    dsimp only
    split
    · rename_i hfull
      refine ⟨h.put hc, ?_⟩
      rintro id ⟨⟩
      exact (h.put hc).completed (mem_putMatch.2 (.inl rfl)) hfull
    · exact findConjunctiveMatchLoop_completed hset (h.put hc)

theorem findConjunctiveMatch_completed (maxNClauses : Nat) {set : List ClsConjunction} (hset : ∀ c ∈ set, c ∈ cs)
    (h : MasksIn cs found) : MasksIn cs (findConjunctiveMatch set maxNClauses found).2 ∧
      ∀ id ∈ (findConjunctiveMatch set maxNClauses found).1, Completed cs id := by
  unfold findConjunctiveMatch
  split
  · exact ⟨h, nofun⟩
  · exact findConjunctiveMatchLoop_completed hset h

end

theorem conjunctiveLoop_none (h : cls.WF env.hash) (softPri : Int) (nSoftPri : Nat) :
    ∀ (soft : List (List ClsMatch)) (found : List ConjunctiveMatch) (wc : Option Flow),
    conjunctiveLoop env cls v f softPri nSoftPri soft found none =
      ((conjunctiveLoop env cls v f softPri nSoftPri soft found wc).1, none)
  | [], _, _ => rfl
  | s :: soft, found, wc => by
    have ih := conjunctiveLoop_none h softPri nSoftPri soft
    rw [conjunctiveLoop, conjunctiveLoop]
    split
    · rcases findConjunctiveMatch (softConjSet s) nSoftPri found with ⟨_ | id, found⟩
      · exact ih found wc
      dsimp only
      rw [lookupHard_none h wc]
      grind
    · exact ih found wc

/-- The hashes are faithful for the flow with the ids that `cs` completes. -/
def FaithfulFor (H : FlowHash) (cls : Classifier) (v : Version) (f : Flow) (cs : Set ClsConjunction) : Prop :=
  ∀ id, Completed cs id → cls.Faithful H v (f.setConjId id)

theorem conjunctiveLoop_cert (h : cls.WF env.hash) (cs : Set ClsConjunction) (softPri : Int) (nSoftPri : Nat) :
    ∀ (soft : List (List ClsMatch)) (found : List ConjunctiveMatch) (wc : Flow),
    (∀ s ∈ soft, softPriority s = softPri → ∀ c ∈ softConjSet s, c ∈ cs) → MasksIn cs found →
    Certified (conjunctiveLoop env cls v · softPri nSoftPri soft found) (FaithfulFor env.hash cls v f cs) f wc
  | [], _, wc, _, _ => ⟨wc, rfl, .refl wc, fun _ _ _ => rfl⟩
  | s :: soft, found, wc, hsoft, hfound => by
    obtain ⟨hs, hsoft⟩ := forall_mem_cons.1 hsoft
    -- the rest of the loop, from where it goes on
    have hrest := fun found wc => conjunctiveLoop_cert h cs softPri nSoftPri soft found wc hsoft
    simp only [Certified, conjunctiveLoop]
    split
    · rename_i hpri
      have hmatch := findConjunctiveMatch_completed nSoftPri (hs hpri) hfound
      generalize findConjunctiveMatch (softConjSet s) nSoftPri found = matched at hmatch ⊢
      rcases matched with ⟨_ | id, found₁⟩
      · exact hrest found₁ wc hmatch.1
      obtain ⟨wc₁, hlookup, hsub₁, hcert₁⟩ := lookupHard_cert (v := v) (f := f.setConjId id) h wc
      obtain ⟨rule, hr⟩ : ∃ rule, lookupHard env cls v (f.setConjId id) none = (rule, none) :=
        ⟨_, lookupHard_none h none⟩
      have hinner : FaithfulFor env.hash cls v f cs → ∀ f', wc₁.Agrees f f' →
          lookupHard env cls v (f'.setConjId id) none = (rule, none) := fun hfaithful f' hf' =>
        (hcert₁ (hfaithful id (hmatch.2 id rfl)) _ (hf'.setConjId id)).trans hr
      dsimp only
      rw [hlookup, hr]
      rcases rule with _ | rule
      · obtain ⟨wc', heq, hsub, hcert⟩ := hrest found₁ wc₁ hmatch.1
        refine ⟨wc', heq, hsub₁.trans hsub, fun hfaithful f' hf' => ?_⟩
        rw [hinner hfaithful f' (hf'.mono hsub)]
        exact hcert hfaithful f' hf'
      · grind
    · exact hrest found wc hfound

/-! ## The soft match loop -/

/-- The hashes are faithful for the flow with each id that is completed at a priority the lookup can come to. -/
def Classifier.FaithfulConjunctions (H : FlowHash) (cls : Classifier) (v : Version) (f : Flow) : Prop :=
  ∀ m ∈ seen cls.clsMatches v f, AboveHard cls.clsMatches v f m.priority → ∀ c ∈ m.conjSet,
    Completed {c | c ∈ conjunctionsAt cls.clsMatches v f m.priority} c.id → cls.Faithful H v (f.setConjId c.id)

instance (H : FlowHash) (cls : Classifier) (v : Version) (f : Flow) : Decidable (cls.FaithfulConjunctions H v f) :=
  inferInstanceAs (Decidable (∀ m ∈ seen cls.clsMatches v f, _))

theorem Classifier.FaithfulConjunctions.faithfulFor {H : FlowHash} {p : Int} (h : cls.FaithfulConjunctions H v f)
    (habove : AboveHard cls.clsMatches v f p) : FaithfulFor H cls v f {c | c ∈ conjunctionsAt cls.clsMatches v f p} := by
  rintro id ⟨c, hc, rfl, hclauses⟩
  obtain ⟨m, hm, rfl, hcm⟩ := mem_conjunctionsAt.1 hc
  exact h m hm habove c hcm ⟨c, hc, rfl, hclauses⟩

theorem softLoop_none (h : cls.WF env.hash) : ∀ (n : Nat) (hard : Option ClsMatch × Int) (soft : List (List ClsMatch))
    (wc : Option Flow),
    softLoop env cls v f n hard soft none = (softLoop env cls v f n hard soft wc).map fun r => (r.1, none)
  | 0, _, _, _ => rfl
  | n + 1, hard, soft, wc => by
    rw [softLoop, softLoop]
    dsimp only
    split
    · rfl
    · rw [conjunctiveLoop_none h _ _ _ _ wc]
      rcases conjunctiveLoop env cls v f _ _ (deleteSoft hard.2 soft.length soft) [] wc with ⟨_ | rule, wc₁⟩
      · exact softLoop_none h n _ _ wc₁
      · rfl

/-- The loop in lockstep for two flows. -/
theorem softLoop_cert (h : cls.WF env.hash) : ∀ {n : Nat} {hard : Option ClsMatch × Int} {soft : List (List ClsMatch)}
    {wc : Flow} {r : Option ClsRule × Option Flow}, SoftState cls v f hard soft →
    softLoop env cls v f n hard soft (some wc) = some r →
    ∃ wc', r.2 = some wc' ∧ wc.Sub wc' ∧ (cls.FaithfulConjunctions env.hash v f → ∀ f', wc'.Agrees f f' →
      softLoop env cls v f' n hard soft none = some (r.1, none))
  | 0, _, _, _, _, _, hr => nomatch hr
  | n + 1, hard, soft, wc, r, hsoft, hr => by
    have hstate := hsoft.delete h
    have hstays : ∀ s ∈ deleteSoft hard.2 soft.length soft, s ≠ [] ∧ hard.2 < softPriority s := fun s hs =>
      (mem_deleteSoft.1 hs).2
    simp only [softLoop] at hr ⊢
    generalize deleteSoft hard.2 soft.length soft = left at hstate hstays hr ⊢
    split at hr
    · rename_i hempty
      cases hr
      exact ⟨wc, rfl, .refl wc, fun _ f' _ => if_pos hempty⟩
    rename_i hempty
    simp only [if_neg hempty]
    obtain ⟨hle, ⟨top, htop, hpri⟩, -⟩ := highestSoft_spec hempty fun s hs => (hsoft.intMin_le h).trans_lt (hstays s hs).2
    have habove := hstate.aboveHard h (hpri ▸ (hstays top htop).2) hle
    have hconjs : ∀ s ∈ left, softPriority s = (highestSoft left).1 → ∀ c ∈ softConjSet s,
        c ∈ {c | c ∈ conjunctionsAt cls.clsMatches v f (highestSoft left).1} := by
      intro s hs hp c hc
      have hsoft := hstate.softMatch s hs (hstays s hs).1
      obtain ⟨x, xs, rfl, -⟩ := hsoft.cons
      exact mem_conjunctionsAt.2 ⟨x, hsoft.seen_head h, hp, hc⟩
    obtain ⟨wc₁, heq, hsub₁, hcert₁⟩ := conjunctiveLoop_cert (v := v) (f := f) h _ (highestSoft left).1
      (highestSoft left).2 left [] wc hconjs nofun
    obtain ⟨rule, hc⟩ : ∃ rule, conjunctiveLoop env cls v f _ _ left [] none = (rule, none) :=
      ⟨_, conjunctiveLoop_none h (highestSoft left).1 (highestSoft left).2 left [] none⟩
    simp only [hc] at heq hcert₁
    rw [heq] at hr
    rcases rule with _ | rule
    · obtain ⟨wc', hwc', hsub, hcert⟩ := softLoop_cert h (hstate.lower h _) hr
      refine ⟨wc', hwc', hsub₁.trans hsub, fun hfaithful f' hf' => ?_⟩
      rw [hcert₁ (hfaithful.faithfulFor habove) f' (hf'.mono hsub)]
      exact hcert hfaithful f' hf'
    · cases hr
      refine ⟨wc₁, rfl, hsub₁, fun hfaithful f' hf' => ?_⟩
      rw [hcert₁ (hfaithful.faithfulFor habove) f' hf']

/-! ## The end of the lookup -/

theorem softLoop_more {r : Option ClsRule × Option Flow} : ∀ {n : Nat} {hard : Option ClsMatch × Int}
    {soft : List (List ClsMatch)} {wc : Option Flow} (_ : softLoop env cls v f n hard soft wc = some r) {turns : Nat},
    n ≤ turns → softLoop env cls v f turns hard soft wc = some r
  | 0, _, _, _, hr, _, _ => nomatch hr
  | n + 1, hard, soft, wc, hr, 0, hle => absurd hle (Nat.not_succ_le_zero n)
  | n + 1, hard, soft, wc, hr, turns + 1, hle => by
    rw [softLoop] at hr ⊢
    dsimp only at hr ⊢
    split at hr
    · simp [*]
    rename_i hempty
    rw [if_neg hempty]
    generalize conjunctiveLoop env cls v f _ _ (deleteSoft hard.2 soft.length soft) [] wc = c at hr ⊢
    rcases c with ⟨_ | rule, wc₁⟩
    · exact softLoop_more hr (Nat.le_of_succ_le_succ hle)
    · exact hr

/-- The loop ends, since each turn leaves fewer matches. -/
theorem softLoop_ends : ∀ {n : Nat} {hard : Option ClsMatch × Int} {soft : List (List ClsMatch)} {wc : Option Flow},
    intMin ≤ hard.2 → softSize soft < n → ∃ r, softLoop env cls v f n hard soft wc = some r
  | 0, _, _, _, _, hsize => absurd hsize (Nat.not_lt_zero _)
  | n + 1, hard, soft, wc, hmin, hsize => by
    rw [softLoop]
    dsimp only
    split
    · exact ⟨_, rfl⟩
    rename_i hempty
    rcases conjunctiveLoop env cls v f _ _ (deleteSoft hard.2 soft.length soft) [] wc with ⟨_ | rule, wc₁⟩
    · obtain ⟨-, ⟨s, hs, hpri⟩, -⟩ := highestSoft_spec hempty fun s hs => hmin.trans_lt (mem_deleteSoft.1 hs).2.2
      refine softLoop_ends (hmin.trans (lowerSoft_snd v _ _ hard).1) ?_
      rw [lowerSoft_fst]
      calc softSize _ < softSize (deleteSoft hard.2 soft.length soft) :=
            softSize_lower_lt ⟨s, hs, (mem_deleteSoft.1 hs).2.1, hpri⟩
        _ ≤ softSize soft := softSize_deleteSoft_le hard.2 soft
        _ ≤ n := Nat.le_of_lt_succ hsize
    · exact ⟨_, rfl⟩

section

variable (h : cls.WF env.hash)
include h

/-- A lookup ends, and more turns change nothing. -/
theorem classifierLookup_ends (v : Version) (f : Flow) (wc : Option Flow) :
    ∃ n r, ∀ turns ≥ n, classifierLookup env cls turns v f wc = some r := by
  have hmin := (mainLoop_softState (v := v) (f := f) h wc).intMin_le h
  unfold classifierLookup
  generalize mainLoop env cls v f true cls.subtables.impl.vector { wc } = st at hmin
  by_cases hle : st.hardPri ≥ st.softPri
  · exact ⟨0, (ClsMatch.ruleOf st.hard, st.wc), fun turns _ => if_pos hle⟩
  · have hends : ∃ r, softLoop env cls v f (softSize st.soft + 1) (st.hard, st.hardPri) st.soft st.wc = some r :=
      softLoop_ends hmin (Nat.lt_succ_self _)
    obtain ⟨r, hr⟩ := hends
    exact ⟨softSize st.soft + 1, r, fun turns hturns => (if_neg hle).trans (softLoop_more hr hturns)⟩

theorem classifierLookup_none (n : Nat) (wc : Option Flow) :
    classifierLookup env cls n v f none = (classifierLookup env cls n v f wc).map fun r => (r.1, none) := by
  unfold classifierLookup
  rw [mainLoop_none h true wc]
  dsimp only [LookupState.noWc]
  split
  · rfl
  · exact softLoop_none h n _ _ _

theorem classifierLookup_of_none {r : Option ClsRule} (hnone : classifierLookup env cls n v f none = some (r, none))
    (wc : Option Flow) : ∃ wc', classifierLookup env cls n v f wc = some (r, wc') := by
  rw [classifierLookup_none h n wc] at hnone
  obtain ⟨⟨r', wc'⟩, hlookup, heq⟩ := Option.map_eq_some_iff.1 hnone
  cases heq
  exact ⟨wc', hlookup⟩

theorem classifierLookup_cert (hf : cls.Faithful env.hash v f)
    (hconj : cls.FaithfulConjunctions env.hash v f) {w : Flow} {r : Option ClsRule × Option Flow}
    (hr : classifierLookup env cls n v f (some w) = some r) :
    ∃ w', r.2 = some w' ∧ ∀ f', w'.Agrees f f' → classifierLookup env cls n v f' none = some (r.1, none) := by
  obtain ⟨wc₁, hwc₁, -, hcert₁⟩ := mainLoop_cert (v := v) (f := f) h true (nil_append _).symm
    (rfl : ({ wc := some w } : LookupState).wc = some w) (forall_mem_nil _)
  have hmain : ∀ f', wc₁.Agrees f f' → _ := hcert₁ hf
  dsimp only [LookupState.noWc] at hmain
  unfold classifierLookup at hr
  dsimp only at hr
  split at hr
  · rename_i hle
    cases hr
    refine ⟨wc₁, hwc₁, fun f' hf' => ?_⟩
    unfold classifierLookup
    simp [*]
  · rename_i hle
    rw [hwc₁] at hr
    obtain ⟨w', hw', hsub, hcert⟩ := softLoop_cert h (mainLoop_softState h (some w)) hr
    refine ⟨w', hw', fun f' hf' => ?_⟩
    unfold classifierLookup
    rw [hmain f' (hf'.mono hsub)]
    exact (if_neg hle).trans (hcert hconj f' hf')

end

/-- A flow in which only one word is not zero. -/
def wordFlow (word : Nat) (x : BitVec 64) : Flow := fun i => if i.val = word then x else 0

/-- A rule that matches on one word. -/
def wordRule (id word : Nat) (x mask : BitVec 64) (priority : Int) : ClsRule where
  id
  flow := wordFlow word (x &&& mask)
  mask := wordFlow word mask
  priority
  masked i := by
    unfold wordFlow
    split
    · rw [BitVec.and_assoc, BitVec.and_self]
    · rfl

def flowWildcardsInitCatchall : Flow := fun _ => 0

/-- A flow with `metadata`, and a rule that matches on it. -/
def metadataFlow (metadata : BitVec 64) : Flow := wordFlow 42 metadata

def metadataRule (id : Nat) (metadata : BitVec 64) : ClsRule := wordRule id 42 metadata (BitVec.allOnes 64) 1

/-- Two rules with different stage hashes. -/
def metadataRules : List Op := [.insert (metadataRule 1 1) 1 [], .insert (metadataRule 2 4) 1 []]

def metadataTable : Option Classifier :=
  Run.exec (Classifier.exec Env.portable) (classifierInit (some flowSegmentU64s)) metadataRules

/-- A flow with the stage hash of the first rule and other `metadata`. -/
def collisionFlow : Flow := metadataFlow 0x85ad2b5500000002

/-- Every lookup ends, and whether wildcards are collected, and on top of which, does not change the rule. -/
theorem classifierLookup_any_wc {flowSegments : Option (List Nat)} (hle : (flowSegments.getD []).Pairwise (· ≤ ·))
    {ops : List Op} (hrun : Run (Classifier.Step env) (classifierInit flowSegments) ops cls) (v : Version) (f : Flow) :
    ∃ n r, ∀ turns ≥ n, ∀ wc, ∃ wc', classifierLookup env cls turns v f wc = some (r, wc') := by
  have h : cls.WF env.hash := (run_spec (classifierInit_wf hle) hrun).1
  obtain ⟨n, r, hends⟩ := classifierLookup_ends h v f none
  refine ⟨n, r.1, fun turns hturns wc => classifierLookup_of_none h ?_ wc⟩
  rw [classifierLookup_none h turns none, hends turns hturns]
  rfl

theorem classifierLookup_any_wc_metadata : ∃ cls n r, ∀ turns ≥ n, ∀ wc, ∃ wc',
    classifierLookup Env.portable cls turns (some 1) (metadataFlow 1) wc = some (r, wc') := by
  obtain ⟨cls, hcls⟩ := Option.isSome_iff_exists.1 (by decide +kernel : metadataTable.isSome)
  exact ⟨cls, classifierLookup_any_wc (by decide) (run_of_exec hcls) (some 1) (metadataFlow 1)⟩

end LinkerOvs.Cls
