/-
The main loop of a lookup. What it finds does not depend on the wildcards, and is what is first in each
subtable: the hard match is the highest of those without conjunctions, although the loop ends before it has
looked at every subtable, and the soft matches above it are all there.
-/
import LinkerOvs.Classifier.FindMatch
import LinkerOvs.Classifier.SoftLoop

namespace LinkerOvs.Cls

open List

variable {env : Env} {H : FlowHash} {cls : Classifier} {S S' : ClsSubtable} {v : Version} {f : Flow} {allow : Bool}
  {st : LookupState} {m : ClsMatch}

/-! ## The subtables of the vector -/

namespace Classifier

theorem WF.ready (h : cls.WF env.hash) (hS : S ∈ cls.subtablesMap) : S.Ready env.hash cls.tries where
  wf := (h.listed S hS).wf
  plen := by
    rw [(h.listed S hS).plen, Classifier.fields, map_map]
    rfl
  holds t ht := ⟨_, h.tries t ht, fun _ hp => mem_flatMap.2 ⟨S, hS, hp⟩⟩

theorem WF.mem_vector (h : cls.WF H) {e : PvectorEntry Flow} :
    e ∈ cls.subtables.impl.vector ↔ ∃ S ∈ cls.subtablesMap, S.entry = e := by
  rw [h.vector.perm.mem_iff, mem_map]

theorem WF.find_mask (h : cls.WF H) (hS : S ∈ cls.subtablesMap) : cls.findSubtable S.mask = some S :=
  Keyed.find_of_mem h.masks hS

theorem WF.eq_of_entry (h : cls.WF H) (hS : S ∈ cls.subtablesMap) (hS' : S' ∈ cls.subtablesMap)
    (heq : S.entry = S'.entry) : S = S' := by
  have hmask : S.mask = S'.mask := Option.some.inj (congrArg PvectorEntry.ptr heq)
  exact inj_on_of_nodup_map h.masks hS hS' hmask

end Classifier

/-! ## What a flow meets in a subtable -/

theorem mem_visibleFrom {list : List ClsMatch} (hm : m ∈ list) (hvisible : m.visibleIn v = true) :
    m ∈ visibleFrom v list := by
  have hsplit := takeWhile_append_dropWhile (p := fun m : ClsMatch => !m.visibleIn v) (l := list)
  rw [← hsplit] at hm
  rcases mem_append.1 hm with hm | hm
  · have hnot := all_eq_true.1 all_takeWhile m hm
    simp_all
  · exact hm

theorem visible_of_visibleFrom {list next : List ClsMatch} (h : visibleFrom v list = m :: next) :
    m.visibleIn v = true := by
  have hnot := head?_dropWhile_not (p := fun m : ClsMatch => !m.visibleIn v) (l := list)
  unfold visibleFrom at h
  simp_all

namespace ClsSubtable

theorem WF.firstMatch_chain (h : S.WF H) (hm : m ∈ S.firstMatch v f) :
    ∃ c ∈ S.rules, S.mask.Agrees c.flow f ∧ S.firstMatch v f = visibleFrom v c.list := by
  by_cases hmatch : ∃ c ∈ S.rules, S.mask.Agrees c.flow f
  · obtain ⟨c, hc, hagrees⟩ := hmatch
    exact ⟨c, hc, hagrees, h.firstMatch_eq hc hagrees⟩
  · push Not at hmatch
    rw [firstMatch_eq_nil hmatch] at hm
    cases hm

theorem WF.mem_of_firstMatch (h : S.WF H) (hm : m ∈ S.firstMatch v f) :
    m ∈ S.clsMatches ∧ m.rule.mask = S.mask ∧ m.rule.mask.Agrees m.rule.flow f := by
  obtain ⟨c, hc, hagrees, hfirst⟩ := h.firstMatch_chain hm
  rw [hfirst] at hm
  have hmem : m ∈ c.list := (visibleFrom_sublist v c.list).subset hm
  obtain ⟨hflow, hmask⟩ := (h.chains c hc).same m hmem
  refine ⟨mem_clsMatches.2 ⟨c, hc, hmem⟩, hmask, ?_⟩
  simp [*]

theorem WF.firstMatch_sorted (h : S.WF H) : (S.firstMatch v f).Pairwise fun a b => b.priority ≤ a.priority := by
  rcases hfirst : S.firstMatch v f with _ | ⟨m, next⟩
  · exact .nil
  · obtain ⟨c, hc, -, heq⟩ := h.firstMatch_chain (hfirst ▸ mem_cons_self : m ∈ S.firstMatch v f)
    rw [← hfirst, heq]
    exact (h.chains c hc).sorted.sublist (visibleFrom_sublist v c.list)

theorem WF.firstMatch_visible (h : S.WF H) {next : List ClsMatch} (hfirst : S.firstMatch v f = m :: next) :
    m.visibleIn v = true := by
  obtain ⟨c, -, -, heq⟩ := h.firstMatch_chain (hfirst ▸ mem_cons_self : m ∈ S.firstMatch v f)
  exact visible_of_visibleFrom (heq ▸ hfirst)

end ClsSubtable

theorem Classifier.WF.seen_of_firstMatch (h : cls.WF H) (hS : S ∈ cls.subtablesMap) (hm : m ∈ S.firstMatch v f)
    (hvisible : m.visibleIn v = true) : m ∈ seen cls.clsMatches v f := by
  obtain ⟨hmem, -, hagrees⟩ := (h.listed S hS).wf.mem_of_firstMatch hm
  exact mem_seen.2 ⟨mem_flatMap.2 ⟨S, hS, hmem⟩, hvisible, hagrees⟩

theorem Classifier.WF.firstMatch_of_seen (h : cls.WF H) (hm : m ∈ seen cls.clsMatches v f) :
    ∃ S ∈ cls.subtablesMap, m ∈ S.firstMatch v f := by
  obtain ⟨hm, hvisible, hagrees⟩ := mem_seen.1 hm
  obtain ⟨S, hS, hmem⟩ := mem_flatMap.1 hm
  obtain ⟨c, hc, hmc⟩ := ClsSubtable.mem_clsMatches.1 hmem
  have hwf := (h.listed S hS).wf
  obtain ⟨hflow, hmask⟩ := (hwf.chains c hc).same m hmc
  refine ⟨S, hS, ?_⟩
  rw [hwf.firstMatch_eq hc (hflow ▸ hmask ▸ hagrees)]
  exact mem_visibleFrom hmc hvisible

/-! ## The loop, entry by entry -/

theorem mainLoop_entry (h : cls.WF env.hash) (hS : S ∈ cls.subtablesMap) (es : List (PvectorEntry Flow))
    (st : LookupState) : mainLoop env cls v f allow (S.entry :: es) st =
      if S.maxPriority > st.hardPri then mainLoop env cls v f allow es
          (LookupState.found allow { st with wc := (findMatchWc env cls.tries S v f st.wc).2 } (S.firstMatch v f))
      else st := by
  have hfind : S.entry.ptr.bind cls.findSubtable = some S := h.find_mask hS
  rw [mainLoop, hfind]
  dsimp only
  rw [(h.ready hS).findMatchWc_fst]
  rfl

/-- The variables of a lookup but the wildcards. -/
def LookupState.noWc (st : LookupState) : LookupState := { st with wc := none }

theorem LookupState.found_wc (allow : Bool) (st : LookupState) : ∀ list : List ClsMatch, (st.found allow list).wc = st.wc
  | [] => rfl
  | m :: next => by
    simp only [LookupState.found, apply_ite LookupState.wc, ite_self]

theorem LookupState.found_noWc (st : LookupState) : ∀ list : List ClsMatch,
    (st.found allow list).noWc = st.noWc.found allow list
  | [] => rfl
  | m :: next => by
    simp only [LookupState.found, apply_ite LookupState.noWc]
    rfl

theorem mainLoop_noWc (h : cls.WF env.hash) (allow : Bool) : ∀ {es : List (PvectorEntry Flow)},
    (∀ e ∈ es, e ∈ cls.subtables.impl.vector) → ∀ st : LookupState,
    (mainLoop env cls v f allow es st).noWc = mainLoop env cls v f allow es st.noWc
  | [], _, _ => rfl
  | e :: es, hes, st => by
    obtain ⟨S, hS, rfl⟩ := h.mem_vector.1 (hes e mem_cons_self)
    rw [mainLoop_entry h hS, mainLoop_entry h hS]
    have hpri : st.noWc.hardPri = st.hardPri := rfl
    rw [hpri]
    split
    · rw [mainLoop_noWc h allow fun e he => hes e (mem_cons_of_mem _ he), LookupState.found_noWc]
      rfl
    · rfl

/-! ## What the loop finds -/

/-- What is known after some subtables have been looked at. -/
structure Scanned (v : Version) (f : Flow) (allow : Bool) (done : Set ClsSubtable) (st : LookupState) : Prop where
  hard : st.hard = none ∧ st.hardPri = intMin ∨ ∃ S ∈ done, ∃ m next, S.firstMatch v f = m :: next ∧ m.conjSet = [] ∧
    st.hard = some m ∧ st.hardPri = m.priority
  all : ∀ S ∈ done, ∀ m next, S.firstMatch v f = m :: next →
    m.priority ≤ st.hardPri ∨ m.conjSet ≠ [] ∧ (allow = true → m :: next ∈ st.soft)
  soft : ∀ s ∈ st.soft, ∃ S ∈ done, s = S.firstMatch v f ∧ softConjSet s ≠ []
  softPri : ∀ s ∈ st.soft, softPriority s ≤ st.softPri

theorem Scanned.init (wc : Option Flow) : Scanned v f allow ∅ { wc } := ⟨.inl ⟨rfl, rfl⟩, nofun, nofun, nofun⟩

theorem Scanned.congr_wc {done : Set ClsSubtable} (h : Scanned v f allow done st) (wc : Option Flow) :
    Scanned v f allow done { st with wc } := ⟨h.hard, h.all, h.soft, h.softPri⟩

/-- A subtable in which nothing is above the hard match. -/
theorem Scanned.skip {done rest : Set ClsSubtable} (h : Scanned v f allow done st)
    (hle : ∀ S ∈ rest, ∀ m ∈ S.firstMatch v f, m.priority ≤ st.hardPri) : Scanned v f allow (done ∪ rest) st where
  hard := h.hard.imp id fun ⟨S, hS, hrest⟩ => ⟨S, .inl hS, hrest⟩
  all S hS m next hfirst := by
    rcases hS with hS | hS
    · exact h.all S hS m next hfirst
    · exact .inl (hle S hS m (hfirst ▸ mem_cons_self))
  soft s hs := by
    obtain ⟨S, hS, hrest⟩ := h.soft s hs
    exact ⟨S, .inl hS, hrest⟩
  softPri := h.softPri

theorem Scanned.found {done : Set ClsSubtable} (h : Scanned v f allow done st) (S : ClsSubtable) :
    Scanned v f allow (done ∪ {S}) (st.found allow (S.firstMatch v f)) := by
  rcases hfirst : S.firstMatch v f with _ | ⟨m, next⟩
  · apply h.skip
    simp [*]
  -- what is first in a subtable, old or new
  have hcases : ∀ T ∈ done ∪ {S}, ∀ x xs, T.firstMatch v f = x :: xs → T ∈ done ∨ x = m ∧ xs = next := by
    grind
  have hhard := h.hard.imp_right (Exists.imp fun T hT => (⟨.inl hT.1, hT.2⟩ : T ∈ done ∪ {S} ∧ _))
  have hsoft : ∀ s ∈ st.soft, ∃ T ∈ done ∪ {S}, s = T.firstMatch v f ∧ softConjSet s ≠ [] :=
    fun s hs => (h.soft s hs).imp fun T hT => ⟨.inl hT.1, hT.2⟩
  rw [LookupState.found]
  by_cases hle : m.priority ≤ st.hardPri
  · rw [if_pos hle]
    exact ⟨hhard,
      fun T hT x xs hx => (hcases T hT x xs hx).elim (fun hT => h.all T hT x xs hx) fun hx => .inl (hx.1 ▸ hle),
      hsoft, h.softPri⟩
  rw [if_neg hle]
  by_cases hconj : m.conjSet = []
  · rw [if_pos hconj]
    refine ⟨.inr ⟨S, .inr rfl, m, next, hfirst, hconj, rfl, rfl⟩, fun T hT x xs hx => ?_, hsoft,
      h.softPri⟩
    rcases hcases T hT x xs hx with hT | ⟨rfl, -⟩
    · exact (h.all T hT x xs hx).imp (fun hlow => hlow.trans (not_le.1 hle).le) id
    · exact .inl (le_refl _)
  rw [if_neg hconj]
  by_cases hallow : allow = true
  · rw [if_pos hallow]
    refine ⟨hhard, fun T hT x xs hx => ?_, ?_, ?_⟩
    · rcases hcases T hT x xs hx with hT | ⟨rfl, rfl⟩
      · exact (h.all T hT x xs hx).imp id fun hx => ⟨hx.1, fun ha => mem_append_left _ (hx.2 ha)⟩
      · simp [*]
    · intro s hs
      rcases mem_append.1 hs with hs | hs
      · exact hsoft s hs
      · obtain rfl := mem_singleton.1 hs
        exact ⟨S, .inr rfl, hfirst.symm, hconj⟩
    · intro s hs
      have hmax : st.softPri ≤ (if st.softPri < m.priority then m.priority else st.softPri) ∧
          m.priority ≤ (if st.softPri < m.priority then m.priority else st.softPri) := by
        split <;> omega
      rcases mem_append.1 hs with hs | hs
      · exact (h.softPri s hs).trans hmax.1
      · obtain rfl := mem_singleton.1 hs
        exact hmax.2
  · rw [if_neg hallow]
    refine ⟨hhard, fun T hT x xs hx => ?_, hsoft,
      h.softPri⟩
    rcases hcases T hT x xs hx with hT | ⟨rfl, rfl⟩
    · exact h.all T hT x xs hx
    · exact .inr ⟨hconj, fun ha => absurd ha hallow⟩

theorem mainLoop_scanned (h : cls.WF env.hash) (allow : Bool) : ∀ {es : List (PvectorEntry Flow)} {done : Set ClsSubtable}
    {st : LookupState}, (∀ e ∈ es, e ∈ cls.subtables.impl.vector) → pvectorSorted es → Scanned v f allow done st →
    Scanned v f allow (done ∪ {S | S ∈ cls.subtablesMap ∧ S.entry ∈ es}) (mainLoop env cls v f allow es st)
  | [], done, st, _, _, hst => by
    apply hst.skip
    simp
  | e :: es, done, st, hes, hsorted, hst => by
    obtain ⟨S, hS, rfl⟩ := h.mem_vector.1 (hes e mem_cons_self)
    obtain ⟨hfirst, hsorted⟩ := pairwise_cons.1 hsorted
    rw [mainLoop_entry h hS]
    split
    · have hnext := (hst.congr_wc (findMatchWc env cls.tries S v f st.wc).2).found S
      have hrest := mainLoop_scanned h allow (fun e he => hes e (mem_cons_of_mem _ he)) hsorted hnext
      have hset : done ∪ {S} ∪ {T | T ∈ cls.subtablesMap ∧ T.entry ∈ es} =
          done ∪ {T | T ∈ cls.subtablesMap ∧ T.entry ∈ S.entry :: es} := by
        rw [Set.union_assoc]
        congr 1
        ext T
        simp only [Set.mem_ofPred_eq, mem_cons]
        constructor
        · grind
        · rintro ⟨hT, heq | hmem⟩
          · exact .inl (h.eq_of_entry hT hS heq)
          · exact .inr ⟨hT, hmem⟩
      exact hset ▸ hrest
    · -- the other subtables are no higher than this one
      rename_i hle
      apply hst.skip
      rintro T ⟨hT, hmem⟩ m hm
      have hbound : T.maxPriority ≤ S.maxPriority := by
        rcases mem_cons.1 hmem with heq | hmem
        · rw [h.eq_of_entry hT hS heq]
        · exact hfirst T.entry hmem
      calc m.priority ≤ T.maxPriority := (h.listed T hT).le m ((h.listed T hT).wf.mem_of_firstMatch hm).1
        _ ≤ S.maxPriority := hbound
        _ ≤ st.hardPri := not_lt.1 hle

theorem mainLoop_spec (h : cls.WF env.hash) (v : Version) (f : Flow) (allow : Bool) (wc : Option Flow) :
    Scanned v f allow {S | S ∈ cls.subtablesMap} (mainLoop env cls v f allow cls.subtables.impl.vector { wc }) := by
  have hscanned := mainLoop_scanned (v := v) (f := f) h allow (fun _ he => he) h.vector.sorted (Scanned.init wc)
  have hset : ∅ ∪ {S | S ∈ cls.subtablesMap ∧ S.entry ∈ cls.subtables.impl.vector} = {S | S ∈ cls.subtablesMap} := by
    ext S
    simp only [Set.empty_union]
    exact ⟨fun hS => hS.1, fun hS => ⟨hS, h.mem_vector.2 ⟨S, hS, rfl⟩⟩⟩
  exact hset ▸ hscanned

end LinkerOvs.Cls
