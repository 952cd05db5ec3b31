/-
The soft matches over the turns of a lookup: each is what is left of what the flow meets in a subtable, from a
conjunctive rule on. No rule without conjunctions is lost behind them, so a turn at a priority only comes if
the rules without conjunctions that the flow meets are below it, but for twins of conjunctive rules.
-/
import LinkerOvs.Classifier.MainLoop

namespace LinkerOvs.Cls

open List

/-! ## The rules that a flow meets -/

section

variable (t : List ClsMatch) (v : Version) (f : Flow)

/-- The conjunctions of the rules that the flow meets at a priority. -/
def conjunctionsAt (p : Int) : List ClsConjunction :=
  ((seen t v f).filter fun m => m.priority = p).flatMap ClsMatch.conjSet

/-- Every rule without conjunctions that the flow meets is below priority `p`, or at `p` the twin of a conjunctive
rule. -/
def AboveHard (p : Int) : Prop :=
  ∀ m ∈ seen t v f, m.conjSet = [] → m.priority < p ∨ m.priority = p ∧
    ∃ m' ∈ seen t v f, m'.conjSet ≠ [] ∧ m'.rule.mask = m.rule.mask ∧ m'.priority = p

instance (p : Int) : Decidable (AboveHard t v f p) := inferInstanceAs (Decidable (∀ m ∈ seen t v f, _))

end

variable {env : Env} {cls : Classifier} {t : List ClsMatch} {v : Version} {f : Flow} {p : Int} {m : ClsMatch}
  {c : ClsConjunction} {s : List ClsMatch} {hard : Option ClsMatch × Int} {soft : List (List ClsMatch)}

theorem mem_conjunctionsAt : c ∈ conjunctionsAt t v f p ↔ ∃ m ∈ seen t v f, m.priority = p ∧ c ∈ m.conjSet := by
  simp only [conjunctionsAt, mem_flatMap, mem_filter, decide_eq_true_eq, and_assoc]

section

variable (h : cls.WF env.hash)
include h

theorem Classifier.WF.above_of_seen (hm : m ∈ seen cls.clsMatches v f) : intMin < m.priority := by
  obtain ⟨S, hS, hmem⟩ := mem_flatMap.1 (mem_seen.1 hm).1
  obtain ⟨c, hc, hmc⟩ := ClsSubtable.mem_clsMatches.1 hmem
  exact (((h.listed S hS).wf.chains c hc).above m hmc)

theorem Classifier.WF.first_of_seen (hm : m ∈ seen cls.clsMatches v f) :
    ∃ S ∈ cls.subtablesMap, ∃ x xs, S.firstMatch v f = x :: xs ∧ m ∈ x :: xs ∧ x ∈ seen cls.clsMatches v f ∧
      x.rule.mask = m.rule.mask ∧ m.priority ≤ x.priority := by
  obtain ⟨S, hS, hmem⟩ := h.firstMatch_of_seen hm
  have hwf := (h.listed S hS).wf
  rcases hfirst : S.firstMatch v f with _ | ⟨x, xs⟩
  · simp_all
  have hx : x ∈ S.firstMatch v f := hfirst ▸ mem_cons_self
  have hmasks : x.rule.mask = m.rule.mask :=
    (hwf.mem_of_firstMatch hx).2.1.trans (hwf.mem_of_firstMatch hmem).2.1.symm
  refine ⟨S, hS, x, xs, hfirst, hfirst ▸ hmem, h.seen_of_firstMatch hS hx (hwf.firstMatch_visible hfirst), hmasks, ?_⟩
  have hsorted := hwf.firstMatch_sorted (v := v) (f := f)
  rw [hfirst] at hsorted hmem
  exact le_of_sorted hsorted hmem

end

/-! ## Soft matches -/

/-- A soft match: what is left of what the flow meets in a subtable, from a conjunctive rule on. -/
structure SoftMatch (cls : Classifier) (v : Version) (f : Flow) (s : List ClsMatch) : Prop where
  conj : softConjSet s ≠ []
  suffix : ∃ S ∈ cls.subtablesMap, s <:+ S.firstMatch v f
  visible : ∀ m ∈ s.head?, m.visibleIn v = true

theorem SoftMatch.cons (h : SoftMatch cls v f s) : ∃ x xs, s = x :: xs ∧ x.conjSet ≠ [] := by
  rcases s with _ | ⟨x, xs⟩
  · exact absurd rfl h.conj
  · exact ⟨x, xs, rfl, h.conj⟩

section

variable (hwf : cls.WF env.hash)
include hwf

namespace SoftMatch

theorem sorted (h : SoftMatch cls v f s) : s.Pairwise fun a b => b.priority ≤ a.priority := by
  obtain ⟨S, hS, hsuffix⟩ := h.suffix
  exact (hwf.listed S hS).wf.firstMatch_sorted.sublist hsuffix.sublist

theorem le (h : SoftMatch cls v f s) (hm : m ∈ s) : m.priority ≤ softPriority s := by
  obtain ⟨x, xs, rfl, -⟩ := h.cons
  exact le_of_sorted (h.sorted hwf) hm

theorem mask_eq (h : SoftMatch cls v f s) {m' : ClsMatch} (hm : m ∈ s) (hm' : m' ∈ s) :
    m.rule.mask = m'.rule.mask := by
  obtain ⟨S, hS, hsuffix⟩ := h.suffix
  have hS' := (hwf.listed S hS).wf
  exact (hS'.mem_of_firstMatch (hsuffix.subset hm)).2.1.trans (hS'.mem_of_firstMatch (hsuffix.subset hm')).2.1.symm

theorem seen_of_mem (h : SoftMatch cls v f s) (hm : m ∈ s) (hvisible : m.visibleIn v = true) :
    m ∈ seen cls.clsMatches v f := by
  obtain ⟨S, hS, hsuffix⟩ := h.suffix
  exact hwf.seen_of_firstMatch hS (hsuffix.subset hm) hvisible

theorem seen_head {x : ClsMatch} {xs : List ClsMatch} (h : SoftMatch cls v f (x :: xs)) :
    x ∈ seen cls.clsMatches v f :=
  h.seen_of_mem hwf mem_cons_self (h.visible x rfl)

/-- What is behind a soft match of priority `p` is still there after the step down, or behind a rule without
conjunctions. -/
theorem mem_lowerOne (h : SoftMatch cls v f s) (hm : m ∈ s) (hvisible : m.visibleIn v = true)
    (htail : softPriority s = p → m ∈ s.tail) :
    m ∈ lowerOne v p s ∨ ∃ y, HardBehind v p s y ∧ m.priority ≤ y.priority := by
  rcases lowerOne_cases v p s with ⟨-, heq⟩ | ⟨hpri, hnext | ⟨y, hy⟩, -⟩ | ⟨hpri, y, ys, hnext, -, heq⟩
  · exact .inl (heq.symm ▸ hm)
  · have hmv := mem_visibleFrom (htail hpri) hvisible
    simp_all
  · obtain ⟨ys, hnext⟩ := hy.2.2
    have hmv := mem_visibleFrom (htail hpri) hvisible
    have hsorted := (h.sorted hwf).sublist ((visibleFrom_sublist v s.tail).trans (tail_sublist s))
    rw [hnext] at hsorted hmv
    exact .inr ⟨y, hy, le_of_sorted hsorted hmv⟩
  · exact .inl (heq.symm ▸ hnext ▸ mem_visibleFrom (htail hpri) hvisible)

end SoftMatch

/-! ## The turns -/

/-- What holds before each turn: the hard match is a rule that the flow meets, and the other rules without conjunctions
are no higher or in a soft match. -/
structure SoftState (cls : Classifier) (v : Version) (f : Flow) (hard : Option ClsMatch × Int)
    (soft : List (List ClsMatch)) : Prop where
  hardSeen : hard = (none, intMin) ∨ ∃ m ∈ seen cls.clsMatches v f, m.conjSet = [] ∧ hard = (some m, m.priority)
  softMatch : ∀ s ∈ soft, s ≠ [] → SoftMatch cls v f s
  hardIn : ∀ m ∈ seen cls.clsMatches v f, m.conjSet = [] → m.priority ≤ hard.2 ∨ ∃ s ∈ soft, m ∈ s

theorem mainLoop_softState (wc : Option Flow) :
    SoftState cls v f ((mainLoop env cls v f true cls.subtables.impl.vector { wc }).hard,
      (mainLoop env cls v f true cls.subtables.impl.vector { wc }).hardPri)
      (mainLoop env cls v f true cls.subtables.impl.vector { wc }).soft := by
  have hscanned := mainLoop_spec hwf v f true wc
  generalize mainLoop env cls v f true cls.subtables.impl.vector { wc } = st at hscanned
  refine ⟨?_, fun s hs _ => ?_, fun m hm hconj => ?_⟩
  · rcases hscanned.hard with ⟨hnone, hmin⟩ | ⟨S, hS, m, next, hfirst, hconj, hsome, hpri⟩
    · exact .inl (Prod.ext hnone hmin)
    · have hseen := hwf.seen_of_firstMatch hS (hfirst ▸ mem_cons_self) ((hwf.listed S hS).wf.firstMatch_visible hfirst)
      exact .inr ⟨m, hseen, hconj, Prod.ext hsome hpri⟩
  · obtain ⟨S, hS, rfl, hconj⟩ := hscanned.soft s hs
    refine ⟨hconj, ⟨S, hS, suffix_refl _⟩, fun m hm => ?_⟩
    obtain ⟨next, hfirst⟩ := head?_eq_some_iff.1 hm
    exact (hwf.listed S hS).wf.firstMatch_visible hfirst
  · obtain ⟨S, hS, x, xs, hfirst, hmem, -, -, hle⟩ := hwf.first_of_seen hm
    rcases hscanned.all S hS x xs hfirst with hlow | ⟨-, hin⟩
    · exact .inl (hle.trans hlow)
    · exact .inr ⟨x :: xs, hin rfl, hmem⟩

namespace SoftState

variable (h : SoftState cls v f hard soft)
include h

theorem intMin_le : intMin ≤ hard.2 := by
  rcases h.hardSeen with rfl | ⟨m, hm, -, rfl⟩
  · exact le_refl _
  · exact (hwf.above_of_seen hm).le

theorem mem_delete (hs : s ∈ soft) {q : Int} (hq : hard.2 < q) (hle : q ≤ softPriority s) :
    s ∈ deleteSoft hard.2 soft.length soft := by
  refine mem_deleteSoft.2 ⟨hs, ?_, hq.trans_le hle⟩
  rintro rfl
  exact absurd (hq.trans_le hle) (not_lt.2 (h.intMin_le hwf))

theorem delete : SoftState cls v f hard (deleteSoft hard.2 soft.length soft) := by
  refine ⟨h.hardSeen, fun s hs => h.softMatch s (mem_deleteSoft.1 hs).1, fun m hm hconj => ?_⟩
  rcases h.hardIn m hm hconj with hle | ⟨s, hs, hms⟩
  · exact .inl hle
  · refine (le_or_gt m.priority hard.2).imp id fun hlt => ⟨s, h.mem_delete hwf hs hlt ?_, hms⟩
    exact (h.softMatch s hs (ne_nil_of_mem hms)).le hwf hms

/-- A turn at priority `p`. -/
theorem aboveHard (hlt : hard.2 < p) (hle : ∀ s ∈ soft, softPriority s ≤ p) : AboveHard cls.clsMatches v f p := by
  intro m hm hconj
  rcases h.hardIn m hm hconj with hm' | ⟨s, hs, hms⟩
  · exact .inl (hm'.trans_lt hlt)
  have hsoft := h.softMatch s hs (ne_nil_of_mem hms)
  obtain ⟨x, xs, rfl, hx⟩ := hsoft.cons
  refine (((hsoft.le hwf hms).trans (hle _ hs)).lt_or_eq).imp id fun hpri => ⟨hpri, x, hsoft.seen_head hwf, hx, ?_⟩
  exact ⟨hsoft.mask_eq hwf mem_cons_self hms, le_antisymm (hle _ hs) (hpri ▸ hsoft.le hwf hms)⟩

theorem lower (p : Int) : SoftState cls v f (lowerSoft v p soft hard).2 (lowerSoft v p soft hard).1 := by
  obtain ⟨hle, hfrom, hbehind⟩ := lowerSoft_snd v p soft hard
  rw [lowerSoft_fst]
  refine ⟨?_, fun s hs hne => ?_, fun m hm hconj => ?_⟩
  · rcases hfrom with heq | ⟨s, hs, m, ⟨-, hconj, next, hnext⟩, heq⟩
    · exact heq.symm ▸ h.hardSeen
    · have hmem : m ∈ visibleFrom v s.tail := hnext ▸ mem_cons_self
      have hms := mem_of_mem_tail ((visibleFrom_sublist v s.tail).subset hmem)
      have hsoft := h.softMatch s hs (ne_nil_of_mem hms)
      exact .inr ⟨m, hsoft.seen_of_mem hwf hms (visible_of_visibleFrom hnext), hconj, heq⟩
  · obtain ⟨x, hx, rfl⟩ := mem_map.1 hs
    have hsoft := h.softMatch x hx fun hnil => hne (sublist_nil.1 (hnil ▸ lowerOne_sublist v p x))
    rcases lowerOne_cases v p x with ⟨-, heq⟩ | ⟨-, -, heq⟩ | ⟨-, y, ys, hnext, hconj, heq⟩
    · exact heq.symm ▸ hsoft
    · exact absurd heq hne
    obtain ⟨S, hS, hsuffix⟩ := hsoft.suffix
    have htail : visibleFrom v x.tail <:+ x.tail := dropWhile_suffix _
    rw [heq]
    refine ⟨hconj, ⟨S, hS, hnext ▸ (htail.trans (tail_suffix x)).trans hsuffix⟩, ?_⟩
    rintro m ⟨⟩
    exact visible_of_visibleFrom hnext
  · rcases h.hardIn m hm hconj with hm' | ⟨s, hs, hms⟩
    · exact .inl (hm'.trans hle)
    have hsoft := h.softMatch s hs (ne_nil_of_mem hms)
    -- the head of a soft match has conjunctions
    have htail : m ∈ s.tail := by
      obtain ⟨x, xs, rfl, hx⟩ := hsoft.cons
      grind
    rcases hsoft.mem_lowerOne hwf hms (mem_seen.1 hm).2.1 fun _ => htail with hin | ⟨y, hy, hmy⟩
    · exact .inr ⟨_, mem_map_of_mem hs, hin⟩
    · exact .inl (hmy.trans (hbehind s hs y hy))

end SoftState

end

end LinkerOvs.Cls
