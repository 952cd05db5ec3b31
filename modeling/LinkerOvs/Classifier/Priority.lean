/-
What a lookup is for: the rules of the table in order of priority, where a complete conjunction stands for the
highest rule that the flow matches with the conjunction's id. A lookup in a classifier that a run makes gives
a rule of this reference, as long as the rules that the flow meets are plain: the soft match loop goes down the
priorities, and at each one its soft matches are all the rules that the flow meets there.
-/
import LinkerOvs.Classifier.Conjunction

namespace LinkerOvs.Cls

open List

/-! ## The reference -/

section Reference

variable (t : List ClsMatch) (v : Version) (f : Flow)

/-- `r` is the highest rule without conjunctions that the flow meets. -/
def TopHard (r : ClsRule) : Prop :=
  ∃ m ∈ seen t v f, m.conjSet = [] ∧ m.rule = r ∧ ∀ m' ∈ seen t v f, m'.conjSet = [] → m'.priority ≤ m.priority

/-- The reference gives `r` at priority `p`: a rule without conjunctions, or, if there is none, a rule for a
conjunction with all its clauses. -/
def ReferenceAt (p : Int) (r : ClsRule) : Prop :=
  (∃ m ∈ seen t v f, m.conjSet = [] ∧ m.priority = p ∧ m.rule = r) ∨
    (∀ m ∈ seen t v f, m.conjSet = [] → m.priority ≠ p) ∧
      ∃ id, Complete {c | c ∈ conjunctionsAt t v f p} id ∧ TopHard t v (f.setConjId id) r

/-- The reference gives what it gives at the highest priority where it gives a rule. -/
def Reference : Option ClsRule → Prop
  | some r => ∃ p, ReferenceAt t v f p r ∧ ∀ q > p, ∀ r', ¬ReferenceAt t v f q r'
  | none => ∀ p r, ¬ReferenceAt t v f p r

/-- The rules that the flow meets at priority `p` have nothing that the lookup treats in another way:
a conjunctive rule has no twin, the conjunctions are consistent, where one is complete there are at least as many
conjunctive rules as it has clauses, one that is complete without a rule does not share a rule with others, and
no rule for a complete one is behind a conjunctive twin. -/
@[mk_iff] structure PlainAt (p : Int) : Prop where
  single : ∀ m ∈ seen t v f, m.conjSet ≠ [] → m.priority = p → ∀ m' ∈ seen t v f, m'.rule.mask = m.rule.mask →
    m'.priority = p → m' = m
  consistent : Consistent {c | c ∈ conjunctionsAt t v f p}
  enough : ∀ c ∈ conjunctionsAt t v f p, Complete {c | c ∈ conjunctionsAt t v f p} c.id →
    c.nClauses.toNat ≤ ((seen t v f).filter fun m => m.priority = p).length
  undisturbed : ∀ m ∈ seen t v f, m.priority = p → ∀ c ∈ m.conjSet, Complete {c | c ∈ conjunctionsAt t v f p} c.id →
    (∀ m' ∈ seen t v (f.setConjId c.id), m'.conjSet ≠ []) → ∀ c' ∈ m.conjSet, c'.id = c.id
  unhidden : ∀ c ∈ conjunctionsAt t v f p, Complete {c | c ∈ conjunctionsAt t v f p} c.id →
    ∀ m ∈ seen t v (f.setConjId c.id), m.conjSet = [] → ∀ m' ∈ seen t v (f.setConjId c.id), m'.conjSet ≠ [] →
      m'.rule.mask = m.rule.mask → m'.priority < m.priority

instance (p : Int) : Decidable (PlainAt t v f p) := decidable_of_iff _ (plainAt_iff t v f p).symm

/-- No conjunction above priority `p` has all its clauses and a rule. -/
def NoneComplete (p : Int) : Prop :=
  ∀ m ∈ seen t v f, p < m.priority → ∀ c ∈ m.conjSet, Complete {c | c ∈ conjunctionsAt t v f m.priority} c.id →
    ∀ m' ∈ seen t v (f.setConjId c.id), m'.conjSet ≠ []

instance (p : Int) : Decidable (NoneComplete t v f p) := inferInstanceAs (Decidable (∀ m ∈ seen t v f, _))

/-- The rules that the flow meets are plain at the priorities that the lookup comes to. -/
def Plain : Prop :=
  ∀ m ∈ seen t v f, AboveHard t v f m.priority → NoneComplete t v f m.priority → PlainAt t v f m.priority

instance : Decidable (Plain t v f) := inferInstanceAs (Decidable (∀ m ∈ seen t v f, _))

instance (r : ClsRule) : Decidable (TopHard t v f r) := inferInstanceAs (Decidable (∃ m ∈ seen t v f, _))

end Reference

variable {env : Env} {cls : Classifier} {t : List ClsMatch} {v : Version} {f g : Flow} {p : Int} {m : ClsMatch}
  {c : ClsConjunction} {r : ClsRule} {id : UInt32}

/-- The reference gives nothing at a priority that no rule which the flow meets has. -/
theorem exists_seen_of_referenceAt (h : ReferenceAt t v f p r) : ∃ m ∈ seen t v f, m.priority = p := by
  rcases h with ⟨m, hm, -, hpri, -⟩ | ⟨-, id, ⟨c, hc, -⟩, -⟩
  · exact ⟨m, hm, hpri⟩
  · obtain ⟨m, hm, hpri, -⟩ := mem_conjunctionsAt.1 hc
    exact ⟨m, hm, hpri⟩

theorem exists_topHard {g : Flow} (hm : m ∈ seen t v g) (hconj : m.conjSet = []) : ∃ r, TopHard t v g r := by
  have hmem : ∀ {m}, m ∈ (seen t v g).filter (fun m => m.conjSet = []) ↔ m ∈ seen t v g ∧ m.conjSet = [] := by
    simp only [mem_filter, decide_eq_true_eq, implies_true]
  obtain ⟨top, htop⟩ := Option.ne_none_iff_exists'.1
    (mt argmax_eq_none.1 (ne_nil_of_mem (hmem.2 ⟨hm, hconj⟩)) : argmax ClsMatch.priority _ ≠ none)
  obtain ⟨hseen, hhard⟩ := hmem.1 (argmax_mem htop)
  exact ⟨top.rule, top, hseen, hhard, rfl, fun m' hm' hconj' => le_of_mem_argmax (hmem.2 ⟨hm', hconj'⟩) htop⟩

theorem PlainAt.unhidden_of_complete (h : PlainAt t v f p) (hcomplete : Complete {c | c ∈ conjunctionsAt t v f p} id) :
    ∀ m ∈ seen t v (f.setConjId id), m.conjSet = [] → ∀ m' ∈ seen t v (f.setConjId id), m'.conjSet ≠ [] →
      m'.rule.mask = m.rule.mask → m'.priority < m.priority := by
  obtain ⟨c, hc, rfl, hclauses⟩ := hcomplete
  exact h.unhidden c hc ⟨c, hc, rfl, hclauses⟩

/-! ## No match is there twice -/

theorem ClsSubtable.WF.nodup_clsMatches {H : FlowHash} {S : ClsSubtable} (h : S.WF H) : S.clsMatches.Nodup := by
  refine List.Nodup.of_map (fun m => m.rule.id) ?_
  rw [ClsSubtable.clsMatches, map_flatMap]
  exact h.ids

section

variable (h : cls.WF env.hash)
include h

theorem Classifier.WF.nodup_clsMatches : cls.clsMatches.Nodup := by
  refine nodup_flatMap.2 ⟨fun S hS => (h.listed S hS).wf.nodup_clsMatches, ?_⟩
  refine List.Nodup.pairwise_of_forall_ne (List.Nodup.of_map _ h.masks) ?_
  intro S hS T hT hne m hmS hmT
  obtain ⟨c, hc, hmc⟩ := ClsSubtable.mem_clsMatches.1 hmS
  obtain ⟨d, hd, hmd⟩ := ClsSubtable.mem_clsMatches.1 hmT
  have hSmask := (((h.listed S hS).wf.chains c hc).same m hmc).2
  have hTmask := (((h.listed T hT).wf.chains d hd).same m hmd).2
  exact hne (inj_on_of_nodup_map h.masks hS hT (hSmask.symm.trans hTmask))

/-! ## Lookups without conjunctions -/

/-- A lookup without conjunctive matches finds the highest rule without conjunctions, if no such rule is behind a
conjunctive twin. -/
theorem lookupHard_spec
    (hunhidden : ∀ m ∈ seen cls.clsMatches v g, m.conjSet = [] → ∀ m' ∈ seen cls.clsMatches v g, m'.conjSet ≠ [] →
      m'.rule.mask = m.rule.mask → m'.priority < m.priority) :
    (∀ r, (lookupHard env cls v g none).1 = some r → TopHard cls.clsMatches v g r) ∧
      ((lookupHard env cls v g none).1 = none → ∀ m ∈ seen cls.clsMatches v g, m.conjSet ≠ []) := by
  have hscanned := mainLoop_spec h v g false none
  unfold lookupHard
  dsimp only
  generalize mainLoop env cls v g false cls.subtables.impl.vector { wc := none } = st at hscanned
  have hle : ∀ m ∈ seen cls.clsMatches v g, m.conjSet = [] → m.priority ≤ st.hardPri := by
    intro m hm hconj
    obtain ⟨S, hS, x, xs, hfirst, -, hx, hmasks, hpri⟩ := h.first_of_seen hm
    rcases hscanned.all S hS x xs hfirst with hlow | ⟨hsoft, -⟩
    · exact hpri.trans hlow
    · grind
  rcases hscanned.hard with ⟨hnone, hmin⟩ | ⟨S, hS, m, next, hfirst, hconj, hsome, hpri⟩
  · refine ⟨fun r hr => ?_, fun _ m hm hconj => ?_⟩
    · rw [hnone] at hr
      cases hr
    · exact absurd (h.above_of_seen hm) (not_lt.2 (hmin ▸ hle m hm hconj))
  have hwf := (h.listed S hS).wf
  have hm : m ∈ seen cls.clsMatches v g :=
    h.seen_of_firstMatch hS (hfirst ▸ mem_cons_self) (hwf.firstMatch_visible hfirst)
  refine ⟨fun r hr => ?_, fun hr => ?_⟩
  · rw [hsome] at hr
    exact ⟨m, hm, hconj, Option.some.inj hr, fun m' hm' hconj' => hpri ▸ hle m' hm' hconj'⟩
  · rw [hsome] at hr
    cases hr

/-- For a complete conjunction, there is a rule exactly if the lookup finds one. -/
theorem PlainAt.withRule_iff (hplain : PlainAt cls.clsMatches v f p)
    (hcomplete : Complete {c | c ∈ conjunctionsAt cls.clsMatches v f p} id) :
    id ∈ withRule env cls v f ↔ ∃ m ∈ seen cls.clsMatches v (f.setConjId id), m.conjSet = [] := by
  obtain ⟨hsome, hnone⟩ := lookupHard_spec h (hplain.unhidden_of_complete hcomplete)
  constructor
  · intro hr
    obtain ⟨r, hr⟩ := Option.ne_none_iff_exists'.1 hr
    obtain ⟨m, hm, hconj, -⟩ := hsome r hr
    exact ⟨m, hm, hconj⟩
  · rintro ⟨m, hm, hconj⟩ hr
    exact hnone hr m hm hconj

end

/-! ## The invariant of the soft match loop -/

variable {s : List ClsMatch}

theorem SoftMatch.nodup (hwf : cls.WF env.hash) (h : SoftMatch cls v f s) : s.Nodup := by
  obtain ⟨x, xs, rfl, -⟩ := h.cons
  obtain ⟨S, hS, hsuffix⟩ := h.suffix
  have hS' := (hwf.listed S hS).wf
  obtain ⟨c, hc, -, hfirst⟩ := hS'.firstMatch_chain (hsuffix.subset mem_cons_self)
  have hlist : c.list.Nodup := (nodup_flatMap.1 hS'.nodup_clsMatches).1 c hc
  exact hlist.sublist (hsuffix.sublist.trans (hfirst ▸ visibleFrom_sublist v c.list))

/-- What also holds before each turn: every rule that the flow meets above the hard match is in a soft match or above
them all, and there the reference gives nothing. -/
structure SoftInv (cls : Classifier) (v : Version) (f : Flow) (hard : Option ClsMatch × Int)
    (soft : List (List ClsMatch)) : Prop extends SoftState cls v f hard soft where
  all : ∀ m ∈ seen cls.clsMatches v f, hard.2 < m.priority →
    (∀ s ∈ soft, softPriority s < m.priority) ∨ ∃ s ∈ soft, m ∈ s
  above : ∀ q, hard.2 < q → (∀ s ∈ soft, softPriority s < q) → ∀ r, ¬ReferenceAt cls.clsMatches v f q r

variable {hard : Option ClsMatch × Int} {soft : List (List ClsMatch)}

/-- The loop is at its end when no soft match is above the hard match, and the hard match is the answer. -/
theorem SoftInv.reference (hwf : cls.WF env.hash) (h : SoftInv cls v f hard soft)
    (hsoft : ∀ s ∈ soft, softPriority s ≤ hard.2) : Reference cls.clsMatches v f (ClsMatch.ruleOf hard.1) := by
  have habove : ∀ q, hard.2 < q → ∀ r, ¬ReferenceAt cls.clsMatches v f q r :=
    fun q hq => h.above q hq fun s hs => (hsoft s hs).trans_lt hq
  rcases h.hardSeen with rfl | ⟨m, hm, hconj, rfl⟩
  · intro q r hr
    obtain ⟨m, hm, rfl⟩ := exists_seen_of_referenceAt hr
    exact habove m.priority (hwf.above_of_seen hm) r hr
  · exact ⟨m.priority, .inl ⟨m, hm, hconj, rfl, rfl⟩, habove⟩

theorem SoftInv.delete (hwf : cls.WF env.hash) (h : SoftInv cls v f hard soft) :
    SoftInv cls v f hard (deleteSoft hard.2 soft.length soft) := by
  refine ⟨h.toSoftState.delete hwf, fun m hm hpri => ?_, fun q hq hlow => ?_⟩
  · rcases h.all m hm hpri with hlow | ⟨s, hs, hms⟩
    · exact .inl fun s hs => hlow s (mem_deleteSoft.1 hs).1
    · have hle := (h.softMatch s hs (ne_nil_of_mem hms)).le hwf hms
      exact .inr ⟨s, h.mem_delete hwf hs hpri hle, hms⟩
  · refine h.above q hq fun s hs => ?_
    by_contra hge
    exact hge (hlow s (h.mem_delete hwf hs hq (not_lt.1 hge)))

/-! ## One turn -/

/-- The soft matches at the start of a turn: all above the hard match, and `p` is the highest. -/
structure Turn (cls : Classifier) (v : Version) (f : Flow) (hard : Option ClsMatch × Int) (soft : List (List ClsMatch))
    (p : Int) : Prop where
  inv : SoftInv cls v f hard soft
  stays : ∀ s ∈ soft, s ≠ [] ∧ hard.2 < softPriority s
  le : ∀ s ∈ soft, softPriority s ≤ p
  attained : ∃ s ∈ soft, softPriority s = p

theorem SoftInv.turn (hwf : cls.WF env.hash) (h : SoftInv cls v f hard soft)
    (hne : deleteSoft hard.2 soft.length soft ≠ []) :
    Turn cls v f hard (deleteSoft hard.2 soft.length soft) (highestSoft (deleteSoft hard.2 soft.length soft)).1 := by
  have hstays : ∀ s ∈ deleteSoft hard.2 soft.length soft, s ≠ [] ∧ hard.2 < softPriority s := fun s hs =>
    (mem_deleteSoft.1 hs).2
  obtain ⟨hle, hattained, -⟩ := highestSoft_spec hne fun s hs => (h.intMin_le hwf).trans_lt (hstays s hs).2
  exact ⟨h.delete hwf, hstays, hle, hattained⟩

namespace Turn

variable (hwf : cls.WF env.hash) (hplain : PlainAt cls.clsMatches v f p) (h : Turn cls v f hard soft p)

include h in
theorem hard_lt : hard.2 < p := by
  obtain ⟨s, hs, rfl⟩ := h.attained
  exact (h.stays s hs).2

include h in
theorem softMatch {s : List ClsMatch} (hs : s ∈ soft) : SoftMatch cls v f s := h.inv.softMatch s hs (h.stays s hs).1

include hwf h in
/-- The lookup comes to the highest priority, since the reference gives nothing above it. -/
theorem plainAt (hplain : Plain cls.clsMatches v f) : PlainAt cls.clsMatches v f p := by
  have habove := h.inv.aboveHard hwf h.hard_lt h.le
  obtain ⟨s, hs, rfl⟩ := h.attained
  have hsoft := h.softMatch hs
  obtain ⟨x, xs, rfl, -⟩ := hsoft.cons
  refine hplain x (hsoft.seen_head hwf) habove fun m hm hlt c hc hcomplete m' hm' hconj => ?_
  obtain ⟨r, hr⟩ := exists_topHard hm' hconj
  have hnone : ∀ y ∈ seen cls.clsMatches v f, y.conjSet = [] → y.priority ≠ m.priority := by
    intro y hy hyconj heq
    rcases habove y hy hyconj with hy | ⟨hy, -⟩
    · exact absurd hlt (not_lt.2 (heq ▸ hy.le))
    · exact absurd hlt (not_lt.2 (heq ▸ hy.le))
  exact h.inv.above m.priority (h.hard_lt.trans hlt) (fun s hs => (h.le s hs).trans_lt hlt) r
    (.inr ⟨hnone, c.id, hcomplete, hr⟩)

include hwf hplain h in
/-- The rules that the flow meets at the highest priority are the heads of soft matches. -/
theorem head_of_seen (hm : m ∈ seen cls.clsMatches v f) (hpri : m.priority = p) :
    ∃ next, m :: next ∈ soft ∧ m.conjSet ≠ [] := by
  obtain ⟨s, hs, hms⟩ : ∃ s ∈ soft, m ∈ s := by
    refine (h.inv.all m hm (hpri ▸ h.hard_lt)).resolve_left fun hlow => ?_
    obtain ⟨s, hs, hsp⟩ := h.attained
    exact (hlow s hs).ne (hsp.trans hpri.symm)
  have hsoft := h.softMatch hs
  obtain ⟨x, xs, rfl, hconj⟩ := hsoft.cons
  have hxp : x.priority = p := le_antisymm (h.le _ hs) (hpri ▸ hsoft.le hwf hms)
  have hmask : m.rule.mask = x.rule.mask := hsoft.mask_eq hwf hms mem_cons_self
  obtain rfl : m = x := hplain.single x (hsoft.seen_head hwf) hconj hxp m hm hmask hpri
  exact ⟨xs, hs, hconj⟩

include hwf hplain h in
theorem no_hard : ∀ m ∈ seen cls.clsMatches v f, m.conjSet = [] → m.priority ≠ p := by
  intro m hm hconj hpri
  obtain ⟨-, -, hne⟩ := h.head_of_seen hwf hplain hm hpri
  exact hne hconj

include hwf hplain h in
theorem mem_conjunctions :
    c ∈ conjunctionsAt cls.clsMatches v f p ↔ ∃ s ∈ soft, softPriority s = p ∧ c ∈ softConjSet s := by
  rw [mem_conjunctionsAt]
  constructor
  · rintro ⟨m, hm, hpri, hc⟩
    obtain ⟨next, hs, -⟩ := h.head_of_seen hwf hplain hm hpri
    exact ⟨m :: next, hs, hpri, hc⟩
  · rintro ⟨s, hs, hpri, hc⟩
    have hsoft := h.softMatch hs
    obtain ⟨x, xs, rfl, -⟩ := hsoft.cons
    exact ⟨x, hsoft.seen_head hwf, hpri, hc⟩

end Turn

namespace Turn

variable (hwf : cls.WF env.hash) (hplain : PlainAt cls.clsMatches v f p) (h : Turn cls v f hard soft p)
include hwf hplain h

/-- There are as many soft matches of the highest priority as rules that the flow meets there. -/
theorem count_le : ((seen cls.clsMatches v f).filter fun m => m.priority = p).length ≤
      (soft.filter fun s => softPriority s = p).length := by
  have hnodup : ((seen cls.clsMatches v f).filter fun m => m.priority = p).Nodup :=
    (hwf.nodup_clsMatches.filter _).filter _
  have hsub : ((seen cls.clsMatches v f).filter fun m => m.priority = p).map some ⊆
      (soft.filter fun s => softPriority s = p).map List.head? := by
    intro x hx
    obtain ⟨m, hm, rfl⟩ := mem_map.1 hx
    obtain ⟨hm, hpri⟩ := mem_filter.1 hm
    obtain ⟨next, hs, -⟩ := h.head_of_seen hwf hplain hm (of_decide_eq_true hpri)
    exact mem_map.2 ⟨m :: next, mem_filter.2 ⟨hs, hpri⟩, rfl⟩
  have hle := (subperm_of_subset (hnodup.map (Option.some_injective _)) hsub).length_le
  simpa using hle

/-- The loop over the soft matches of the highest priority gives a rule of the reference, or there is none at this
priority. -/
theorem conjunctiveLoop_reference {n : Nat} (hn : n = (soft.filter fun s => softPriority s = p).length)
    (wc : Option Flow) :
    (∃ r, (conjunctiveLoop env cls v f p n soft [] wc).1 = some r ∧ ReferenceAt cls.clsMatches v f p r) ∨
      (conjunctiveLoop env cls v f p n soft [] wc).1 = none ∧ ∀ r, ¬ReferenceAt cls.clsMatches v f p r := by
  have hsets : ∀ s ∈ soft, softPriority s = p →
      (∀ c ∈ softConjSet s, c ∈ {c | c ∈ conjunctionsAt cls.clsMatches v f p}) ∧
        Undisturbed {c | c ∈ conjunctionsAt cls.clsMatches v f p} (withRule env cls v f) (softConjSet s) := by
    intro s hs hpri
    refine ⟨fun c hc => (h.mem_conjunctions hwf hplain).2 ⟨s, hs, hpri, hc⟩, fun c hc hcomplete hR => ?_⟩
    have hsoft := h.softMatch hs
    obtain ⟨x, xs, rfl, -⟩ := hsoft.cons
    refine hplain.undisturbed x (hsoft.seen_head hwf) hpri c hc hcomplete fun m hm hconj => ?_
    exact hR ((hplain.withRule_iff hwf hcomplete).2 ⟨m, hm, hconj⟩)
  rcases conjunctiveLoop_spec (n := n) hwf hplain.consistent wc hsets FoundOk.init (Set.empty_subset _) nofun with
    ⟨id, r, hr, hcomplete, hlookup⟩ | ⟨hr, done, found, -, hdone, hfound, hfull, hall⟩
  · have htop := (lookupHard_spec hwf (hplain.unhidden_of_complete hcomplete)).1 r hlookup
    exact .inl ⟨r, hr, .inr ⟨h.no_hard hwf hplain, id, hcomplete, htop⟩⟩
  refine .inr ⟨hr, fun r hreference => ?_⟩
  rcases hreference with ⟨m, hm, hconj, hpri, -⟩ | ⟨-, id, hcomplete, m, hm, hconj, -⟩
  · exact h.no_hard hwf hplain m hm hconj hpri
  -- all its clauses have been put in the map, so its mask is full
  have hR : id ∈ withRule env cls v f := (hplain.withRule_iff hwf hcomplete).2 ⟨m, hm, hconj⟩
  have hin : ∀ c ∈ {c | c ∈ conjunctionsAt cls.clsMatches v f p}, c.id = id → c ∈ done := by
    intro c hc hid
    obtain ⟨s, hs, hpri, hcs⟩ := (h.mem_conjunctions hwf hplain).1 hc
    refine hall s hs hpri c hcs ?_ (hid ▸ hR)
    exact hn ▸ (hplain.enough c hc (hid ▸ hcomplete)).trans (h.count_le hwf hplain)
  obtain ⟨cm, hcm, hcmid, hones⟩ := hfound.full_of_complete hcomplete hin
  exact hfull cm hcm (hcmid ▸ hR) hones

theorem lowerOne_lt {s : List ClsMatch} (hs : s ∈ soft) : softPriority (lowerOne v p s) < p := by
  have hsoft := h.softMatch hs
  rcases lowerOne_cases v p s with ⟨hpri, heq⟩ | ⟨-, -, heq⟩ | ⟨hpri, y, ys, hnext, -, heq⟩
  · exact heq.symm ▸ lt_of_le_of_ne (h.le s hs) hpri
  · exact heq.symm ▸ (h.inv.intMin_le hwf).trans_lt h.hard_lt
  obtain ⟨x, xs, rfl, hconj⟩ := hsoft.cons
  have hy : y ∈ xs := (visibleFrom_sublist v xs).subset (hnext ▸ mem_cons_self)
  have hle : y.priority ≤ x.priority := hsoft.le hwf (mem_cons_of_mem x hy)
  have hne : y.priority ≠ x.priority := by
    intro heq
    have hseen := hsoft.seen_of_mem hwf (mem_cons_of_mem x hy) (visible_of_visibleFrom hnext)
    have hmask := hsoft.mask_eq hwf (mem_cons_of_mem x hy) mem_cons_self
    obtain rfl := hplain.single x (hsoft.seen_head hwf) hconj hpri y hseen hmask (heq.trans hpri)
    exact (nodup_cons.1 (hsoft.nodup hwf)).1 hy
  rw [heq]
  exact (lt_of_le_of_ne hle hne).trans_eq hpri

/-- The step down keeps the invariant, if the reference gives nothing at the highest priority. -/
theorem lower (hnone : ∀ r, ¬ReferenceAt cls.clsMatches v f p r) :
    SoftInv cls v f (lowerSoft v p soft hard).2 (lowerSoft v p soft hard).1 := by
  have hlower := h.inv.toSoftState.lower hwf p
  obtain ⟨hle, -, hbehind⟩ := lowerSoft_snd v p soft hard
  rw [lowerSoft_fst] at hlower ⊢
  generalize (lowerSoft v p soft hard).2 = hard' at hle hbehind hlower
  -- a rule between the hard match and `p` is still there
  have hkept : ∀ m ∈ seen cls.clsMatches v f, hard'.2 < m.priority → m.priority < p →
      ∃ s ∈ soft.map (lowerOne v p), m ∈ s := by
    intro m hm hlow hlt
    obtain ⟨s, hs, hms⟩ : ∃ s ∈ soft, m ∈ s := by
      refine (h.inv.all m hm (hle.trans_lt hlow)).resolve_left fun habove => ?_
      obtain ⟨s, hs, hsp⟩ := h.attained
      exact absurd (habove s hs) (not_lt.2 (hsp ▸ hlt.le))
    have hsoft := h.softMatch hs
    have htail : softPriority s = p → m ∈ s.tail := by
      intro hpri
      obtain ⟨x, xs, rfl, -⟩ := hsoft.cons
      refine (mem_cons.1 hms).resolve_left ?_
      rintro rfl
      exact absurd hpri hlt.ne
    rcases hsoft.mem_lowerOne hwf hms (mem_seen.1 hm).2.1 htail with hin | ⟨y, hy, hmy⟩
    · exact ⟨lowerOne v p s, mem_map_of_mem hs, hin⟩
    · grind
  refine ⟨hlower, fun m hm hpri => ?_, fun q hq hlow r hr => ?_⟩
  · by_cases hlt : m.priority < p
    · exact .inr (hkept m hm hpri hlt)
    · refine .inl fun s hs => ?_
      obtain ⟨x, hx, rfl⟩ := mem_map.1 hs
      exact (h.lowerOne_lt hwf hplain hx).trans_le (not_lt.1 hlt)
  · rcases lt_trichotomy q p with hqp | rfl | hqp
    · obtain ⟨m, hm, rfl⟩ := exists_seen_of_referenceAt hr
      obtain ⟨s, hs, hms⟩ := hkept m hm hq hqp
      exact absurd (hlow s hs) (not_lt.2 ((hlower.softMatch s hs (ne_nil_of_mem hms)).le hwf hms))
    · exact hnone r hr
    · exact h.inv.above q (hle.trans_lt hq) (fun s hs => (h.le s hs).trans_lt hqp) r hr

end Turn

/-! ## Lookups -/

theorem softLoop_reference (hwf : cls.WF env.hash) (hplain : Plain cls.clsMatches v f) : ∀ {n : Nat}
    {hard : Option ClsMatch × Int} {soft : List (List ClsMatch)} {wc : Option Flow} {r : Option ClsRule × Option Flow},
    SoftInv cls v f hard soft → softLoop env cls v f n hard soft wc = some r → Reference cls.clsMatches v f r.1
  | 0, _, _, _, _, _, hr => nomatch hr
  | n + 1, hard, soft, wc, r, h, hr => by
    rw [softLoop] at hr
    dsimp only at hr
    split at hr
    · rename_i hempty
      cases hr
      exact (h.delete hwf).reference hwf (hempty ▸ forall_mem_nil _)
    rename_i hempty
    have hturn := h.turn hwf hempty
    have hplainAt := hturn.plainAt hwf hplain
    have hcount := (highestSoft_spec hempty fun s hs => (h.intMin_le hwf).trans_lt (hturn.stays s hs).2).2.2
    rcases hturn.conjunctiveLoop_reference hwf hplainAt hcount wc with ⟨rule, hrule, hat⟩ | ⟨hnone, hno⟩
    · rcases hc : conjunctiveLoop env cls v f _ _ _ [] wc with ⟨_ | rule', wc₁⟩
      · rw [hc] at hrule
        cases hrule
      rw [hc] at hrule hr
      cases hrule
      cases hr
      refine ⟨_, hat, fun q hq => ?_⟩
      exact hturn.inv.above q (hturn.hard_lt.trans hq) fun s hs => (hturn.le s hs).trans_lt hq
    · rcases hc : conjunctiveLoop env cls v f _ _ _ [] wc with ⟨_ | rule', wc₁⟩
      · rw [hc] at hr
        exact softLoop_reference hwf hplain (hturn.lower hwf hplainAt hno) hr
      · rw [hc] at hnone
        cases hnone

theorem mainLoop_softInv (hwf : cls.WF env.hash) (wc : Option Flow) :
    SoftInv cls v f ((mainLoop env cls v f true cls.subtables.impl.vector { wc }).hard,
      (mainLoop env cls v f true cls.subtables.impl.vector { wc }).hardPri)
      (mainLoop env cls v f true cls.subtables.impl.vector { wc }).soft := by
  have hstate := mainLoop_softState (v := v) (f := f) hwf wc
  have hscanned := mainLoop_spec hwf v f true wc
  generalize mainLoop env cls v f true cls.subtables.impl.vector { wc } = st at hstate hscanned
  have hall : ∀ m ∈ seen cls.clsMatches v f, st.hardPri < m.priority → ∃ s ∈ st.soft, m ∈ s := by
    intro m hm hpri
    obtain ⟨S, hS, x, xs, hfirst, hmem, -, -, hle⟩ := hwf.first_of_seen hm
    rcases hscanned.all S hS x xs hfirst with hlow | ⟨-, hin⟩
    · exact absurd (hle.trans hlow) (not_le.2 hpri)
    · exact ⟨x :: xs, hin rfl, hmem⟩
  refine ⟨hstate, fun m hm hpri => .inr (hall m hm hpri), fun q hq hlow r hr => ?_⟩
  obtain ⟨m, hm, rfl⟩ := exists_seen_of_referenceAt hr
  obtain ⟨s, hs, hms⟩ := hall m hm hq
  exact absurd (hlow s hs) (not_lt.2 ((hstate.softMatch s hs (ne_nil_of_mem hms)).le hwf hms))

/-- Two rules on `metadata` and on the first registers, with conjunctions, and a rule for the conjunction with id 2. -/
def conjunctionRules (metadata registers : List ClsConjunction) : List Op :=
  [.insert (wordRule 1 42 1 (BitVec.allOnes 64) 10) 1 metadata,
    .insert (wordRule 2 43 1 (BitVec.allOnes 64) 10) 1 registers,
    .insert (wordRule 3 conjIdU64 2 0xffffffff 10) 1 []]

def conjunctionTable (metadata registers : List ClsConjunction) : Option Classifier :=
  Run.exec (Classifier.exec Env.portable) (classifierInit (some flowSegmentU64s)) (conjunctionRules metadata registers)

/-- A flow that meets both conjunctive rules. -/
def conjunctionFlow : Flow := fun i => if i.val = 42 ∨ i.val = 43 then 1 else 0

/-- A rule for the conjunction with id 7, and for each bit of `tun_id` a rule with the first of its 64 clauses. -/
def clauseRules : List Op :=
  .insert (wordRule 0 conjIdU64 7 0xffffffff 10) 1 [] ::
    (range 64).map fun i => .insert (wordRule (i + 1) 5 (1 <<< i) (1 <<< i) 10) 1 [⟨7, 0, 64⟩]

/-- A flow that meets all the conjunctive rules. -/
def clauseFlow : Flow := fun i => if i.val = 5 then BitVec.allOnes 64 else 0

end LinkerOvs.Cls
