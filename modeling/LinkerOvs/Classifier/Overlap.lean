/-
The overlap check (`classifier_rule_overlaps`): it leaves the vector of subtables early and compares two rules only in
the bits that both their masks have, and still finds a rule of the same priority that matches a flow of the other
one whenever there is one.
-/
import LinkerOvs.Classifier.Megaflow

namespace LinkerOvs.Cls

open List

def minimaskCombine (a b : Flow) : Flow := fun i => a i &&& b i

/-- The test of a rule of a subtable against `target`. -/
def overlapsRule (target : ClsRule) (v : Version) (subtableMask : Flow) (m : ClsMatch) : Bool :=
  m.priority = target.priority && (minimaskCombine target.mask subtableMask).Agrees target.flow m.rule.flow &&
    m.visibleIn v

/-- The loop over the entries of the vector above the priority just below that of `target`. -/
def ruleOverlapsLoop (cls : Classifier) (target : ClsRule) (v : Version) : List (PvectorEntry Flow) → Bool
  | [] => false
  | e :: es =>
    if e.priority > target.priority - 1 then
      match e.ptr.bind cls.findSubtable with
      | some S => S.clsMatches.any (overlapsRule target v S.mask) || ruleOverlapsLoop cls target v es
      | none => false
    else false

def classifierRuleOverlaps (cls : Classifier) (target : ClsRule) (v : Version) : Bool :=
  ruleOverlapsLoop cls target v cls.subtables.impl.vector

variable {env : Env} {H : FlowHash} {cls : Classifier} {target : ClsRule} {v : Version}

/-- Two rules overlap when the classifier's mask intersection does not tell them apart. -/
theorem agrees_combine_iff (r r' : ClsRule) : (minimaskCombine r.mask r'.mask).Agrees r.flow r'.flow ↔
    ∃ f, r.mask.Agrees r.flow f ∧ r'.mask.Agrees r'.flow f := by
  have hmasked : ∀ (r : ClsRule) i j, (r.flow i).getLsbD j = true → (r.mask i).getLsbD j = true := by
    intro r i j hj
    rw [← r.masked i, BitVec.getLsbD_and, Bool.and_eq_true] at hj
    exact hj.2
  simp only [Flow.agrees_iff, minimaskCombine, BitVec.getLsbD_and, Bool.and_eq_true]
  constructor
  · -- the flow with the bits of both rules, which have none outside their masks
    intro h
    refine ⟨fun i => r.flow i ||| r'.flow i, fun i j hj => ?_, fun i j hj => ?_⟩
    · grind
    · grind
  · grind

theorem ruleOverlapsLoop_iff (h : cls.WF H) : ∀ {es : List (PvectorEntry Flow)},
    (∀ e ∈ es, e ∈ cls.subtables.impl.vector) → pvectorSorted es → (ruleOverlapsLoop cls target v es = true ↔
      ∃ S ∈ cls.subtablesMap, S.entry ∈ es ∧ ∃ m ∈ S.clsMatches, overlapsRule target v S.mask m = true)
  | [], _, _ => by simp [ruleOverlapsLoop]
  | e :: es, hes, hsorted => by
    obtain ⟨S, hS, rfl⟩ := h.mem_vector.1 (hes e mem_cons_self)
    obtain ⟨hfirst, hsorted⟩ := pairwise_cons.1 hsorted
    have ih := ruleOverlapsLoop_iff h (fun e he => hes e (mem_cons_of_mem _ he)) hsorted
    have hfind : S.entry.ptr.bind cls.findSubtable = some S := h.find_mask hS
    unfold ruleOverlapsLoop
    split
    · rw [hfind, Bool.or_eq_true, any_eq_true, ih]
      constructor
      · grind
      · rintro ⟨T, hT, hmem, hm⟩
        rcases mem_cons.1 hmem with heq | hmem
        · exact .inl (h.eq_of_entry hT hS heq ▸ hm)
        · exact .inr ⟨T, hT, hmem, hm⟩
    · -- no rule of this subtable or of those behind it is as high as `target`
      rename_i hle
      refine iff_of_false Bool.false_ne_true ?_
      rintro ⟨T, hT, hmem, m, hm, hoverlaps⟩
      have hbound : T.maxPriority ≤ S.maxPriority := by
        rcases mem_cons.1 hmem with heq | hmem
        · rw [h.eq_of_entry hT hS heq]
        · exact hfirst T.entry hmem
      have hpri : m.priority = target.priority := by
        simp only [overlapsRule, Bool.and_eq_true, decide_eq_true_eq] at hoverlaps
        exact hoverlaps.1.1
      have hmle := (h.listed T hT).le m hm
      have hSle : S.maxPriority ≤ target.priority - 1 := not_lt.1 hle
      omega

/-- In every classifier that a run makes, the check finds whether a rule of the same priority that is visible in the
version matches a flow that the given rule matches. -/
theorem classifierRuleOverlaps_iff {flowSegments : Option (List Nat)}
    (hsegments : (flowSegments.getD []).Pairwise (· ≤ ·)) {ops : List Op}
    (hrun : Run (Classifier.Step env) (classifierInit flowSegments) ops cls) (target : ClsRule) (v : Version) :
    classifierRuleOverlaps cls target v = true ↔ ∃ m ∈ cls.clsMatches, m.visibleIn v = true ∧
      m.priority = target.priority ∧ ∃ f, target.mask.Agrees target.flow f ∧ m.rule.mask.Agrees m.rule.flow f := by
  have h := (run_spec (classifierInit_wf hsegments) hrun).1
  have hmask : ∀ S ∈ cls.subtablesMap, ∀ m ∈ S.clsMatches, m.rule.mask = S.mask := by
    intro S hS m hm
    obtain ⟨c, hc, hmc⟩ := ClsSubtable.mem_clsMatches.1 hm
    exact (((h.listed S hS).wf.chains c hc).same m hmc).2
  rw [classifierRuleOverlaps, ruleOverlapsLoop_iff h (fun _ he => he) h.vector.sorted]
  constructor
  · rintro ⟨S, hS, -, m, hm, hoverlaps⟩
    simp only [overlapsRule, Bool.and_eq_true, decide_eq_true_eq, ← hmask S hS m hm, agrees_combine_iff] at hoverlaps
    exact ⟨m, mem_flatMap.2 ⟨S, hS, hm⟩, hoverlaps.2, hoverlaps.1⟩
  · rintro ⟨m, hm, hvisible, hpri, hflow⟩
    obtain ⟨S, hS, hm⟩ := mem_flatMap.1 hm
    refine ⟨S, hS, h.mem_vector.2 ⟨S, hS, rfl⟩, m, hm, ?_⟩
    simp only [overlapsRule, Bool.and_eq_true, decide_eq_true_eq, ← hmask S hS m hm, agrees_combine_iff]
    exact ⟨⟨hpri, hflow⟩, hvisible⟩

/-- A rule on another word overlaps the rules of the table. -/
theorem classifierRuleOverlaps_metadata :
    ∃ cls, Run (Classifier.Step Env.portable) (classifierInit (some flowSegmentU64s)) metadataRules cls ∧
      ∃ m ∈ cls.clsMatches, m.visibleIn (some 1) = true ∧ m.priority = 1 ∧ ∃ f,
        (wordRule 3 43 1 1 1).mask.Agrees (wordRule 3 43 1 1 1).flow f ∧ m.rule.mask.Agrees m.rule.flow f := by
  have hcheck : metadataTable.map (classifierRuleOverlaps · (wordRule 3 43 1 1 1) (some 1)) = some true := by
    decide +kernel
  obtain ⟨cls, hcls, heq⟩ := Option.map_eq_some_iff.1 hcheck
  exact ⟨cls, run_of_exec hcls, (classifierRuleOverlaps_iff (by decide) (run_of_exec hcls) _ _).1 heq⟩

end LinkerOvs.Cls
