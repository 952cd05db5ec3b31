/-
The operations of the classifier's writer: none of them fails an assertion other than those on its
arguments, each keeps the invariant, and each does to the rules of the classifier what it does to a table
of rules. So every run is a run of such a table.
-/
import LinkerOvs.Lib.Loop
import LinkerOvs.Classifier.Invariant

namespace LinkerOvs.Cls

open List

open ClsSubtable (clsMatches entry prefixes)

variable {env : Env} {H : FlowHash} {cls cls' : Classifier} {S S' : ClsSubtable} {rest : List ClsSubtable}
  {tries : List ClsTrie}

/-! ## The changed subtable in its place -/

theorem Focus.real (hf : Focus H cls S rest) : ∀ e ∈ rest.map entry, e.Real := by
  intro e he
  obtain ⟨T, hT, rfl⟩ := mem_map.1 he
  exact (hf.others T hT).above

theorem Focus.ptr_ne (hf : Focus H cls S rest) : ∀ e ∈ rest.map entry, e.ptr ≠ some S.mask := by
  intro e he heq
  obtain ⟨T, hT, rfl⟩ := mem_map.1 he
  have hmask : T.mask = S.mask := Option.some.inj heq
  exact (nodup_cons.1 hf.masks).1 (hmask ▸ mem_map_of_mem hT)

/-- The subtable `S` has become `S'`, and the tries hold the prefixes of its chains. -/
structure Changed (H : FlowHash) (cls : Classifier) (S S' : ClsSubtable) (rest : List ClsSubtable)
    (tries : List ClsTrie) : Prop where
  focus : Focus H cls S rest
  keeps : S.Keeps S'
  wf : S'.WF H
  fields : tries.map ClsTrie.field = cls.fields
  holds : ∀ t ∈ tries, t.root.Holds ((S' :: rest).flatMap (prefixes t.field))

/-- A change that leaves the flows of the chains as they are. -/
theorem Focus.changed (hf : Focus H cls S rest) (hkeeps : S.Keeps S') (hwf : S'.WF H)
    (hflows : S'.rules.map Chain.flow = S.rules.map Chain.flow) : Changed H cls S S' rest cls.tries := by
  refine ⟨hf, hkeeps, hwf, rfl, fun t ht => ?_⟩
  rw [flatMap_cons, prefixes_congr _ hkeeps.mask hflows]
  exact hf.tries t ht

/-- A change of the flows, which the tries follow. -/
theorem Focus.changed_updateTries (hf : Focus H cls S rest) (hkeeps : S.Keeps S') (hwf : S'.WF H)
    (update : ClsTrie → Flow → Nat → ClsTrie) (flow : Flow) (hfield : ∀ t n, (update t flow n).field = t.field)
    (hupdate : ∀ (t : ClsTrie) l, t.root.Holds (S.prefixes t.field ++ l) →
      (if t.field.prefixLen S.mask ≠ 0 then update t flow (t.field.prefixLen S.mask) else t).root.Holds
        (S'.prefixes t.field ++ l)) :
    Changed H cls S S' rest (updateTries update flow cls.tries S'.triePlen) := by
  have hfield' : ∀ t : ClsTrie,
      (if t.field.prefixLen S.mask ≠ 0 then update t flow (t.field.prefixLen S.mask) else t).field = t.field := by
    grind
  rw [hkeeps.triePlen, hf.plen, Classifier.fields, updateTries_eq]
  refine ⟨hf, hkeeps, hwf, ?_, ?_⟩
  · rw [map_map]
    exact map_congr_left fun t _ => hfield' t
  · intro t' ht'
    obtain ⟨t, ht, rfl⟩ := mem_map.1 ht'
    rw [hfield']
    exact hupdate t _ (hf.tries t ht)

namespace Changed

variable {p : Int} {n : Nat} {subtables : Pvector Flow}

theorem finish (h : Changed H cls S S' rest tries) (nRules : Nat) (hne : S'.rules ≠ []) (hpri : intMin < p)
    (hle : ∀ m ∈ S'.clsMatches, m.priority ≤ p) (hn : 0 < n)
    (hvector : subtables.Holds (⟨p, some S'.mask⟩ :: rest.map entry)) :
    let S'' := { S' with maxPriority := p, maxCount := n }
    Classifier.WF H { cls.setSubtable S'' with tries, subtables, nRules } ∧
      (cls.setSubtable S'').clsMatches.Perm (S'.clsMatches ++ rest.flatMap clsMatches) := by
  intro S''
  have hf := h.focus
  have hperm : (cls.setSubtable S'').subtablesMap.Perm (S'' :: rest) := hf.set S'' h.keeps.mask
  refine ⟨Classifier.WF.of_perm hperm hf.segments hf.segments_le ?_ ?_ h.holds hvector, hperm.flatMap_right clsMatches⟩
  · have hmasks := hf.masks
    rw [map_cons, ← h.keeps.mask] at hmasks
    exact hmasks
  · show ∀ T ∈ S'' :: rest, T.Listed H (tries.map ClsTrie.field)
    rw [h.fields]
    rintro T (_ | ⟨_, hT⟩)
    · refine ⟨{ h.wf with }, hne, hpri, hle, hn, ?_⟩
      rw [h.keeps.triePlen, h.keeps.mask]
      exact hf.plen
    · exact hf.others T hT

theorem listed (h : Changed H cls S S' rest tries) (hne : S.rules ≠ []) :
    intMin < S'.maxPriority ∧ (∀ m ∈ S.clsMatches, m.priority ≤ S'.maxPriority) ∧ 0 < S'.maxCount ∧
      cls.subtables.Holds (⟨S'.maxPriority, some S'.mask⟩ :: rest.map entry) := by
  obtain ⟨hnil, -⟩ | ⟨hlisted, hholds⟩ := h.focus.vector
  · exact absurd hnil hne
  rw [h.keeps.maxPriority, h.keeps.maxCount, h.keeps.mask]
  exact ⟨hlisted.above, hlisted.le, hlisted.count, hholds⟩

theorem ptr_ne (h : Changed H cls S S' rest tries) : ∀ e ∈ rest.map entry, e.ptr ≠ some S'.mask :=
  h.keeps.mask ▸ h.focus.ptr_ne

end Changed

/-- The maximum priority and the vector have been brought up to date. -/
def Settles (env : Env) (S' : ClsSubtable) (rest : List ClsSubtable) (x : Option Classifier) : Prop :=
  ∃ cls', x = some cls' ∧ (∀ nRules, Classifier.WF env.hash { publish env cls' with nRules }) ∧
    cls'.clsMatches.Perm (S'.clsMatches ++ rest.flatMap clsMatches)

theorem Changed.settles {p : Int} {n : Nat} {subtables : Pvector Flow} (h : Changed env.hash cls S S' rest tries)
    (hne : S'.rules ≠ []) (hpri : intMin < p) (hle : ∀ m ∈ S'.clsMatches, m.priority ≤ p) (hn : 0 < n)
    (hvector : (pvectorPublish env.qsort subtables).Holds (⟨p, some S'.mask⟩ :: rest.map entry)) :
    Settles env S' rest (some { Classifier.setSubtable { cls with tries }
      { S' with maxPriority := p, maxCount := n } with subtables }) :=
  ⟨_, rfl, fun nRules => (h.finish nRules hne hpri hle hn hvector).1, (h.finish 0 hne hpri hle hn hvector).2⟩

theorem Changed.updateMaxPriority (h : Changed env.hash cls S S' rest tries) (hne : S'.rules ≠ []) {new : ClsMatch}
    (hmatches : S'.clsMatches.Perm (new :: S.clsMatches)) (hpri : intMin < new.priority) {nRules : Nat}
    (hn : nRules = 1 ↔ S.rules = []) :
    Settles env S' rest (updateMaxPriority { cls with tries } S' new.priority nRules) := by
  have hle : ∀ {p : Int}, new.priority ≤ p → (∀ m ∈ S.clsMatches, m.priority ≤ p) →
      ∀ m ∈ S'.clsMatches, m.priority ≤ p := by
    grind
  unfold Cls.updateMaxPriority
  by_cases hnil : S.rules = []
  · -- the first match of a new subtable
    have hholds := (h.focus.vector.resolve_right fun hS => hS.1.nonempty hnil).2
    rw [if_pos (hn.2 hnil)]
    refine h.settles hne hpri (hle (le_refl _) ?_) Nat.one_pos
      (pvectorInsert_holds env.qsort hholds h.focus.real S'.mask hpri)
    simp [clsMatches, hnil]
  obtain ⟨habove, hS, hcount, hholds⟩ := h.listed hnil
  rw [if_neg fun h1 => hnil (hn.1 h1)]
  by_cases heq : new.priority = S'.maxPriority
  · rw [if_pos heq]
    exact h.settles hne habove (hle heq.le hS) (Nat.succ_pos _) (pvectorPublish_of_holds env.qsort hholds)
  rw [if_neg heq]
  by_cases hgt : new.priority > S'.maxPriority
  · obtain ⟨subtables, hchange, hholds'⟩ :=
      pvectorChangePriority_holds env.qsort hholds h.focus.real h.ptr_ne hpri
    rw [if_pos hgt, hchange]
    exact h.settles hne hpri (hle (le_refl _) fun m hm => (hS m hm).trans hgt.le) Nat.one_pos hholds'
  · rw [if_neg hgt]
    exact h.settles hne habove (hle (not_lt.1 hgt) hS) hcount (pvectorPublish_of_holds env.qsort hholds)

/-! ## Insertion -/

/-- The match of a rule that is put in. -/
def ClsRule.newMatch (rule : ClsRule) (version : Nat) (conjs : List ClsConjunction) : ClsMatch :=
  { rule, versions := { addVersion := version, removeVersion := none }, conjSet := conjs }

theorem Focus.not_displacedBy (hf : Focus H cls S rest) {rule : ClsRule} (hmask : S.mask = rule.mask)
    (h : ∀ m ∈ S.clsMatches, ¬m.DisplacedBy rule) :
    ∀ m ∈ S.clsMatches ++ rest.flatMap clsMatches, ¬m.DisplacedBy rule := by
  intro m hm hdisplaced
  rcases mem_append.1 hm with hm | hm
  · exact h m hm hdisplaced
  obtain ⟨T, hT, hm⟩ := mem_flatMap.1 hm
  obtain ⟨c, hc, hmc⟩ := ClsSubtable.mem_clsMatches.1 hm
  have hTmask : T.mask = S.mask := by
    rw [← (((hf.others T hT).wf.chains c hc).same m hmc).2, hdisplaced.2.1, hmask]
  exact (nodup_cons.1 hf.masks).1 (hTmask ▸ mem_map_of_mem hT)

theorem classifierReplace_spec (h : cls.WF env.hash) {rule : ClsRule} (hrule : cls.Accepts rule) (version : Nat)
    (conjs : List ClsConjunction) :
    ∃ cls' old, classifierReplace env cls rule version conjs = some (cls', old) ∧ cls'.WF env.hash ∧
      ((old = none ∧ (∀ m ∈ cls.clsMatches, ¬m.DisplacedBy rule) ∧
          cls'.clsMatches.Perm (rule.newMatch version conjs :: cls.clsMatches)) ∨
        ∃ m others, old = some m.rule ∧ m.DisplacedBy rule ∧ cls.clsMatches.Perm (m :: others) ∧
          cls'.clsMatches.Perm (rule.newMatch version conjs :: others)) := by
  obtain ⟨rest, hf, hmask, hperm⟩ := findOrInsertSubtable_spec h rule.mask
  unfold classifierReplace
  dsimp only
  rw [← ClsRule.newMatch]
  generalize findOrInsertSubtable cls rule.mask = found at hf hmask hperm ⊢
  obtain ⟨cls₁, S⟩ := found
  have hid : ∀ m ∈ S.clsMatches, m.rule.id ≠ (rule.newMatch version conjs).rule.id :=
    fun m hm => hrule.1 m (hperm.symm.subset (mem_append_left _ hm))
  obtain ⟨hwf, hkeeps, hspec⟩ := hf.wf.insert_spec (rule.newMatch version conjs) hmask.symm hid hrule.2
  generalize S.insert env.hash (rule.newMatch version conjs) = inserted at hwf hkeeps hspec ⊢
  obtain ⟨S', inserted⟩ := inserted
  have hadded : ∀ {cls' : Classifier}, S'.clsMatches.Perm (rule.newMatch version conjs :: S.clsMatches) →
      cls'.clsMatches.Perm (S'.clsMatches ++ rest.flatMap clsMatches) →
      cls'.clsMatches.Perm (rule.newMatch version conjs :: cls.clsMatches) :=
    fun hmatches hperm' => hperm'.trans ((hmatches.append_right _).trans (hperm.symm.cons _))
  cases hspec with
  | head hflows hmatches hnone =>
    have hchanged := hf.changed_updateTries hkeeps hwf trieInsert rule.flow (fun _ _ => rfl)
      fun t l ht => trieInsert_holds ht hkeeps.mask hflows
    have hne : S'.rules ≠ [] := fun hnil => by simp [hnil] at hflows
    have hn : S.rules.length + 1 = 1 ↔ S.rules = [] := by simp
    obtain ⟨cls', hupdate, hwf', hperm'⟩ := hchanged.updateMaxPriority hne hmatches hrule.2 hn
    exact ⟨_, none, congrArg (Option.map _) hupdate, hwf' _,
      .inl ⟨rfl, fun m hm => hf.not_displacedBy hmask hnone m (hperm.subset hm), hadded hmatches hperm'⟩⟩
  | chained hflows hne hmatches hnone =>
    have hne' : S'.rules ≠ [] := fun hnil => hne (by simpa [hnil] using hflows.symm)
    have hn : 0 = 1 ↔ S.rules = [] := by simp [hne]
    obtain ⟨cls', hupdate, hwf', hperm'⟩ :=
      (hf.changed hkeeps hwf hflows).updateMaxPriority hne' hmatches hrule.2 hn
    exact ⟨_, none, congrArg (Option.map _) hupdate, hwf' _,
      .inl ⟨rfl, fun m hm => hf.not_displacedBy hmask hnone m (hperm.subset hm), hadded hmatches hperm'⟩⟩
  | @replaced old others hflows hne hold hnew hdisplaced =>
    have hne' : S'.rules ≠ [] := fun hnil => hne (by simpa [hnil] using hflows.symm)
    obtain ⟨habove, hS, hcount, hholds⟩ := (hf.changed hkeeps hwf hflows).listed hne
    have hle : ∀ m ∈ S'.clsMatches, m.priority ≤ S'.maxPriority := by
      intro m hm
      rcases mem_cons.1 (hnew.subset hm) with rfl | hm
      · exact hdisplaced.2.2.1.ge.trans (hS old (hold.symm.subset mem_cons_self))
      · exact hS m (hold.symm.subset (mem_cons_of_mem _ hm))
    obtain ⟨hwf', hperm'⟩ := (hf.changed hkeeps hwf hflows).finish cls₁.nRules hne' habove hle hcount hholds
    refine ⟨_, _, rfl, hwf', .inr ⟨old, others ++ rest.flatMap clsMatches, rfl, hdisplaced, ?_, ?_⟩⟩
    · exact hperm.trans (hold.append_right _)
    · exact hperm'.trans (hnew.append_right _)

/-! ## Removal -/

theorem recount_spec (hwf : S.WF H) (hne : S.rules ≠ []) :
    intMin < (recount S.rules 0).1 ∧ (∀ m ∈ S.clsMatches, m.priority ≤ (recount S.rules 0).1) ∧
      0 < (recount S.rules 0).2 := by
  have habove : ∀ c ∈ S.rules, intMin < c.head.priority := fun c hc => (hwf.chains c hc).above _ c.head_mem
  obtain ⟨hall, ⟨c, hc, hpri⟩, hcount⟩ := foldl_countMax_of_lt (fun c : Chain => c.head.priority) hne habove
  refine ⟨(habove c hc).trans_eq hpri, fun m hm => ?_, hcount ▸ length_pos_of_mem (mem_filter.2 ⟨hc, ?_⟩)⟩
  · obtain ⟨x, hx, hmx⟩ := ClsSubtable.mem_clsMatches.1 hm
    exact ((hwf.chains x hx).le_head hmx).trans (hall x hx)
  · exact decide_eq_true hpri

theorem Changed.checkPriority (h : Changed env.hash cls S S' rest tries) (hne : S.rules ≠ []) (hne' : S'.rules ≠ [])
    (hmem : ∀ m ∈ S'.clsMatches, m ∈ S.clsMatches) (priority : Int) :
    Settles env S' rest (checkPriority { cls with tries } S' priority) := by
  obtain ⟨habove, hS, hcount, hholds⟩ := h.listed hne
  have hle : ∀ m ∈ S'.clsMatches, m.priority ≤ S'.maxPriority := fun m hm => hS m (hmem m hm)
  unfold Cls.checkPriority
  split
  · split
    · obtain ⟨hpri, hall, hpos⟩ := recount_spec h.wf hne'
      obtain ⟨subtables, hchange, hholds'⟩ := pvectorChangePriority_holds env.qsort hholds h.focus.real h.ptr_ne hpri
      dsimp only
      rw [hchange]
      exact h.settles hne' hpri hall hpos hholds'
    · rename_i hpos
      exact h.settles hne' habove hle (Nat.pos_of_ne_zero hpos) (pvectorPublish_of_holds env.qsort hholds)
  · exact h.settles hne' habove hle hcount (pvectorPublish_of_holds env.qsort hholds)

/-- The end of `classifier_remove` for a subtable that has no rules any more. -/
theorem Changed.destroySubtable (h : Changed env.hash cls S S' rest tries)
    (hrest : rest = Keyed.erase ClsSubtable.mask S.mask cls.subtablesMap) (hne : S.rules ≠ []) (hnil : S'.rules = []) :
    Settles env S' rest (destroySubtable { cls with tries } S') := by
  have hf := h.focus
  obtain ⟨-, -, -, hholds⟩ := h.listed hne
  have hports : S'.portsTrie = .nil := by
    have hempty : S'.portsPrefixes = [] := by
      unfold ClsSubtable.portsPrefixes
      simp [*]
    exact (hempty ▸ h.wf.ports).eq_nil
  rw [← h.keeps.mask] at hrest
  obtain ⟨subtables, hremove, hholds'⟩ := pvectorRemove_holds env.qsort hholds hf.real h.ptr_ne
  have hdestroy : Cls.destroySubtable { cls with tries } S' =
      some { cls with tries, subtables, subtablesMap := rest } := by
    unfold Cls.destroySubtable
    simp [*]
  refine ⟨_, hdestroy, fun _ => Classifier.WF.of_perm (.refl _) hf.segments hf.segments_le ?_ ?_ ?_ hholds', ?_⟩
  · exact (nodup_cons.1 hf.masks).2
  · show ∀ T ∈ rest, T.Listed env.hash (tries.map ClsTrie.field)
    rw [h.fields]
    exact hf.others
  · intro t ht
    have hempty : S'.prefixes t.field = [] := by
      unfold prefixes
      simp [*]
    have hroot := h.holds t ht
    rw [flatMap_cons, hempty] at hroot
    exact hroot
  · rw [clsMatches, hnil]
    exact .refl _

theorem classifierRemove_spec (h : cls.WF env.hash) (id : Nat) :
    ∃ cls' removed, classifierRemove env cls id = some (cls', removed) ∧ cls'.WF env.hash ∧
      ((removed = none ∧ cls' = cls ∧ ∀ m ∈ cls.clsMatches, m.rule.id ≠ id) ∨
        ∃ m, removed = some m.rule ∧ m.rule.id = id ∧ cls.clsMatches.Perm (m :: cls'.clsMatches)) := by
  unfold classifierRemove
  cases hfind : cls.clsMatch id with
  | none =>
    have hnone : ∀ m ∈ cls.clsMatches, m.rule.id ≠ id := by
      simpa [Classifier.clsMatch, find?_eq_none] using hfind
    exact ⟨cls, none, rfl, h, .inl ⟨rfl, rfl, hnone⟩⟩
  | some m =>
    have hm : m ∈ cls.clsMatches := mem_of_find?_eq_some hfind
    have hid : m.rule.id = id := by simpa using find?_some hfind
    obtain ⟨S, hS, hmS⟩ := mem_flatMap.1 hm
    obtain ⟨c, hc, hmc⟩ := ClsSubtable.mem_clsMatches.1 hmS
    have hlisted := h.listed S hS
    have hmask : m.rule.mask = S.mask := ((hlisted.wf.chains c hc).same m hmc).2
    have hfound : cls.findSubtable m.rule.mask = some S := hmask ▸ Keyed.find_of_mem h.masks hS
    have hf := h.focus hS
    have hperm : cls.clsMatches.Perm _ := (Keyed.perm_of_mem h.masks hS).flatMap_right clsMatches
    obtain ⟨S', removed, hremove, hwf, hkeeps, hspec⟩ := hlisted.wf.remove_spec hmS
    dsimp only
    rw [hfound, Option.bind_some, hremove, Option.bind_some]
    have hremoved : ∀ {cls' : Classifier}, S.clsMatches.Perm (m :: S'.clsMatches) →
        cls'.clsMatches.Perm (S'.clsMatches ++ _) → cls.clsMatches.Perm (m :: cls'.clsMatches) :=
      fun hmatches hleft => hperm.trans ((hmatches.append_right _).trans (hleft.symm.cons m))
    cases hspec with
    | head hflows hmatches =>
      have hchanged := hf.changed_updateTries hkeeps hwf trieRemove m.rule.flow (fun _ _ => rfl)
        fun t l ht => trieRemove_holds ht hkeeps.mask hflows
      dsimp only
      by_cases hlen : S'.rules.length = 0
      · obtain ⟨cls', hdestroy, hwf', hleft⟩ :=
          hchanged.destroySubtable rfl hlisted.nonempty (length_eq_zero_iff.1 hlen)
        rw [if_pos hlen, hdestroy]
        exact ⟨_, _, rfl, hwf' _, .inr ⟨m, rfl, hid, hremoved hmatches hleft⟩⟩
      · obtain ⟨cls', hcheck, hwf', hleft⟩ := hchanged.checkPriority hlisted.nonempty
          (fun hnil => hlen (by rw [hnil]; rfl)) (fun x hx => hmatches.symm.subset (mem_cons_of_mem _ hx)) m.priority
        rw [if_neg hlen, hcheck]
        exact ⟨_, _, rfl, hwf' _, .inr ⟨m, rfl, hid, hremoved hmatches hleft⟩⟩
    | chained hflows hne hmatches =>
      obtain ⟨cls', hcheck, hwf', hleft⟩ := (hf.changed hkeeps hwf hflows).checkPriority hlisted.nonempty hne
        (fun x hx => hmatches.symm.subset (mem_cons_of_mem _ hx)) m.priority
      exact ⟨_, _, congrArg (Option.map _) hcheck, hwf' _, .inr ⟨m, rfl, hid, hremoved hmatches hleft⟩⟩

/-! ## Versions -/

section

variable (id : Nat) (removeVersion : Option Nat)

@[simp] theorem ClsMatch.setRemoveVersion_rule (m : ClsMatch) :
    (m.setRemoveVersion id removeVersion).rule = m.rule := by
  unfold ClsMatch.setRemoveVersion
  split <;> rfl

theorem Chain.setRemoveVersion_head (c : Chain) :
    (c.setRemoveVersion id removeVersion).head = c.head.setRemoveVersion id removeVersion :=
  head_map ..

@[simp] theorem Chain.setRemoveVersion_flow (c : Chain) :
    (c.setRemoveVersion id removeVersion).flow = c.flow := by
  rw [Chain.flow, Chain.setRemoveVersion_head, ClsMatch.setRemoveVersion_rule]
  rfl

@[simp] theorem Chain.setRemoveVersion_ids (c : Chain) :
    (c.setRemoveVersion id removeVersion).ids = c.ids := by
  simp [Chain.ids, Chain.setRemoveVersion]

theorem Chain.WF.setRemoveVersion {mask : Flow} {c : Chain} (h : c.WF H mask) :
    (c.setRemoveVersion id removeVersion).WF H mask := by
  have hpri : ∀ m : ClsMatch, (m.setRemoveVersion id removeVersion).priority = m.priority :=
    fun m => congrArg ClsRule.priority (ClsMatch.setRemoveVersion_rule id removeVersion m)
  refine ⟨?_, ?_, ?_, ?_⟩
  · intro m hm
    obtain ⟨x, hx, rfl⟩ := mem_map.1 hm
    rw [ClsMatch.setRemoveVersion_rule, Chain.setRemoveVersion_flow]
    exact h.same x hx
  · refine pairwise_map.2 (h.sorted.imp ?_)
    simp [*]
  · intro m hm
    obtain ⟨x, hx, rfl⟩ := mem_map.1 hm
    rw [hpri]
    exact h.above x hx
  · rw [Chain.setRemoveVersion_flow]
    exact h.hash

theorem IndicesOk.congr {mask : Flow} {rules rules' : List Chain}
    (h : ∀ map, rules'.map (Chain.indexNode H mask map) = rules.map (Chain.indexNode H mask map)) :
    ∀ {stages : List Stage} {done : Flowmap}, IndicesOk H mask rules done stages → IndicesOk H mask rules' done stages
  | [], _, _ => trivial
  | _ :: _, _, ⟨hindex, hrest⟩ => ⟨hindex.trans (h _).symm, IndicesOk.congr h hrest⟩

theorem clsMatches_setRemoveVersion (S : ClsSubtable) :
    clsMatches { S with rules := S.rules.map (Chain.setRemoveVersion id removeVersion) } =
      S.clsMatches.map (ClsMatch.setRemoveVersion id removeVersion) := by
  simp only [clsMatches, flatMap_map, map_flatMap]
  rfl

theorem ClsSubtable.Listed.setRemoveVersion {fields : List MfField} (h : S.Listed H fields) :
    ClsSubtable.Listed H fields { S with rules := S.rules.map (Chain.setRemoveVersion id removeVersion) } := by
  have hflows : (S.rules.map (Chain.setRemoveVersion id removeVersion)).map Chain.flow = S.rules.map Chain.flow := by
    simp
  refine ⟨⟨h.wf.cover, ?_, ?_, ?_, ?_, h.wf.portsLen, ?_⟩, ?_, h.above, ?_, h.count, h.plen⟩
  · intro c hc
    obtain ⟨x, hx, rfl⟩ := mem_map.1 hc
    exact (h.wf.chains x hx).setRemoveVersion id removeVersion
  · rw [hflows]
    exact h.wf.flows
  · simp only [flatMap_map, Chain.setRemoveVersion_ids]
    exact h.wf.ids
  · refine IndicesOk.congr (fun map => ?_) h.wf.indices
    simp [Chain.indexNode, Chain.setRemoveVersion_head]
  · have hports := h.wf.ports
    unfold ClsSubtable.portsPrefixes at *
    rw [hflows]
    exact hports
  · simpa using h.nonempty
  · intro m hm
    rw [clsMatches_setRemoveVersion] at hm
    obtain ⟨x, hx, rfl⟩ := mem_map.1 hm
    rw [ClsMatch.priority, ClsMatch.setRemoveVersion_rule]
    exact h.le x hx

end

/-- The invariant of a classifier whose subtables are changed one by one, without their masks and chains. -/
theorem Classifier.WF.map_subtables (h : cls.WF H) {g : ClsSubtable → ClsSubtable}
    (hmask : ∀ S, (g S).mask = S.mask) (hmax : ∀ S, (g S).maxPriority = S.maxPriority)
    (hflows : ∀ S, (g S).rules.map Chain.flow = S.rules.map Chain.flow)
    (hlisted : ∀ S ∈ cls.subtablesMap, (g S).Listed H (tries.map ClsTrie.field))
    (htries : ∀ t ∈ tries, t.root.Holds (cls.subtablesMap.flatMap (prefixes t.field))) :
    Classifier.WF H { cls with subtablesMap := cls.subtablesMap.map g, tries } where
  segments := h.segments
  segments_le := h.segments_le
  masks := by
    rw [map_map, show ClsSubtable.mask ∘ g = ClsSubtable.mask from funext hmask]
    exact h.masks
  listed S hS := by
    obtain ⟨T, hT, rfl⟩ := mem_map.1 hS
    exact hlisted T hT
  tries t ht := by
    rw [flatMap_map]
    simp only [fun S => prefixes_congr t.field (hmask S) (hflows S)]
    exact htries t ht
  vector := by
    have hentry : ∀ S, (g S).entry = S.entry := fun S => by rw [entry, hmask, hmax]; rfl
    rw [map_map, show entry ∘ g = entry from funext hentry]
    exact h.vector

theorem clsMatchSetRemoveVersion_spec (h : cls.WF H) (id : Nat) (removeVersion : Option Nat) :
    (clsMatchSetRemoveVersion cls id removeVersion).WF H ∧
      (clsMatchSetRemoveVersion cls id removeVersion).clsMatches =
        cls.clsMatches.map (ClsMatch.setRemoveVersion id removeVersion) := by
  constructor
  · refine h.map_subtables (fun _ => rfl) (fun _ => rfl) (fun S => ?_) (fun S hS => (h.listed S hS).setRemoveVersion ..)
      h.tries
    simp
  · simp only [clsMatchSetRemoveVersion, Classifier.clsMatches, flatMap_map, map_flatMap,
      clsMatches_setRemoveVersion]

/-! ## Prefix fields -/

theorem trieInsert_foldl (n : Nat) : ∀ (rules : List Chain) (t : ClsTrie),
    rules.foldl (fun t c => trieInsert t c.flow n) t =
      { t with root := ((rules.map Chain.flow).map fun f => (t.field.bits f).take n).foldl trieInsertPrefix t.root }
  | [], _ => rfl
  | _ :: rules, _ => by rw [foldl_cons, trieInsert_foldl n rules]; rfl

theorem trieInit_spec (subtables : List ClsSubtable) (field : MfField) :
    (trieInit subtables field).field = field ∧
      (trieInit subtables field).root.Holds (subtables.flatMap (prefixes field)) := by
  suffices hgen : ∀ (subtables : List ClsSubtable) (t : ClsTrie) (l : List (List Bool)), t.field = field →
      t.root.Holds l →
      let r := subtables.foldl (fun trie S =>
        let plen := field.prefixLen S.mask
        if plen ≠ 0 then S.rules.foldl (fun trie c => trieInsert trie c.flow plen) trie else trie) t
      r.field = field ∧ r.root.Holds (subtables.flatMap (prefixes field) ++ l) by
    have hinit := hgen subtables { field, root := .nil } [] rfl TrieNode.Holds.nil
    rw [append_nil] at hinit
    exact hinit
  intro subtables
  induction subtables with
  | nil => exact fun t l hfield ht => ⟨hfield, ht⟩
  | cons S subtables ih =>
    intro t l hfield ht
    -- the prefixes of the first subtable come in front of those the trie has
    have hstep : (if field.prefixLen S.mask ≠ 0 then
          S.rules.foldl (fun trie c => trieInsert trie c.flow (field.prefixLen S.mask)) t else t).field = field ∧
        (if field.prefixLen S.mask ≠ 0 then
          S.rules.foldl (fun trie c => trieInsert trie c.flow (field.prefixLen S.mask)) t else t).root.Holds
          (S.prefixes field ++ l) := by
      unfold prefixes
      split
      · rw [trieInsert_foldl, hfield]
        exact ⟨rfl, TrieNode.Holds.insertAll _ ht⟩
      · exact ⟨hfield, ht⟩
    obtain ⟨hfield', hholds⟩ := ih _ _ hstep.1 hstep.2
    refine ⟨hfield', hholds.perm ?_⟩
    rw [flatMap_cons, append_assoc, ← append_assoc, ← append_assoc]
    exact perm_append_comm.append_right l

theorem resetTries_spec {subtables : List ClsSubtable} : ∀ {tries : List ClsTrie} (fields : List MfField),
    (∀ t ∈ tries, t.root.Holds (subtables.flatMap (prefixes t.field))) →
    (resetTries subtables tries fields).map ClsTrie.field = fields ∧
      ∀ t ∈ resetTries subtables tries fields, t.root.Holds (subtables.flatMap (prefixes t.field))
  | _, [], _ => by simp [resetTries]
  | [], field :: fields, h => by
    obtain ⟨hfields, htries⟩ := resetTries_spec fields h
    obtain ⟨hfield, hholds⟩ := trieInit_spec subtables field
    rw [resetTries]
    exact ⟨by rw [map_cons, hfield, hfields], forall_mem_cons.2 ⟨hfield.symm ▸ hholds, htries⟩⟩
  | trie :: tries, field :: fields, h => by
    obtain ⟨hfields, htries⟩ := resetTries_spec fields fun t ht => h t (mem_cons_of_mem _ ht)
    obtain ⟨hfield, hholds⟩ := trieInit_spec subtables field
    rw [resetTries]
    grind

theorem resetTriePlen_eq (mask : Flow) : ∀ (tries : List ClsTrie) (fields : List MfField),
    resetTriePlen mask tries ((tries.map ClsTrie.field).map fun field => field.prefixLen mask) fields =
      fields.map fun field => field.prefixLen mask
  | _, [] => by simp [resetTriePlen]
  | [], field :: fields => by
    rw [resetTriePlen, map_cons]
    · exact congrArg _ (resetTriePlen_eq mask [] fields)
    · nofun
  | trie :: tries, field :: fields => by
    rw [map_cons, map_cons, resetTriePlen, resetTriePlen_eq mask tries fields, map_cons]
    simp_all

theorem classifierSetPrefixFields_spec (h : cls.WF H) (trieFields : List MfField) :
    (classifierSetPrefixFields cls trieFields).WF H ∧
      (classifierSetPrefixFields cls trieFields).clsMatches = cls.clsMatches := by
  obtain ⟨hfields, htries⟩ := resetTries_spec (prefixFieldsLoop [] trieFields) h.tries
  constructor
  · refine h.map_subtables (fun _ => rfl) (fun _ => rfl) (fun _ => rfl) (fun S hS => ?_) htries
    have hlisted := h.listed S hS
    refine ⟨{ hlisted.wf with }, hlisted.nonempty, hlisted.above, hlisted.le, hlisted.count, ?_⟩
    rw [hlisted.plen, Classifier.fields, resetTriePlen_eq, hfields]
  · simp only [classifierSetPrefixFields, Classifier.clsMatches, flatMap_map]
    rfl

/-! ## Runs -/

theorem Op.exec_spec (h : cls.WF env.hash) : ∀ {op : Op}, op.Allowed cls →
    op.exec env cls = some cls' → cls'.WF env.hash ∧ TableStep cls.clsMatches op cls'.clsMatches
  | .insert rule version conjs, hallowed, hexec => by
    obtain ⟨cls₁, old, hreplace, hwf, hspec⟩ := classifierReplace_spec h hallowed version conjs
    rw [Op.exec, classifierInsert, hreplace] at hexec
    rcases hspec with ⟨rfl, hnone, hperm⟩ | ⟨m, others, rfl, -, -, -⟩
    · cases hexec
      exact ⟨hwf, .insert hnone hperm⟩
    · cases hexec
  | .replace rule version conjs, hallowed, hexec => by
    obtain ⟨cls₁, old, hreplace, hwf, hspec⟩ := classifierReplace_spec h hallowed version conjs
    rw [Op.exec, hreplace] at hexec
    cases hexec
    rcases hspec with ⟨-, hnone, hperm⟩ | ⟨m, others, -, hdisplaced, hold, hnew⟩
    · exact ⟨hwf, .replaceNone hnone hperm⟩
    · exact ⟨hwf, .replace hdisplaced hold hnew⟩
  | .remove id, _, hexec => by
    obtain ⟨cls₁, removed, hremove, hwf, hspec⟩ := classifierRemove_spec h id
    rw [Op.exec, hremove] at hexec
    cases hexec
    rcases hspec with ⟨-, rfl, hnone⟩ | ⟨m, -, hid, hperm⟩
    · exact ⟨hwf, .removeNone hnone⟩
    · exact ⟨hwf, .remove hid hperm⟩
  | .makeInvisibleInVersion id removeVersion, _, hexec => by
    obtain ⟨m, hfind, hexec⟩ := Option.bind_eq_some_iff.1 hexec
    split at hexec
    · rename_i hle
      cases hexec
      obtain ⟨hwf, hmatches⟩ := clsMatchSetRemoveVersion_spec h id (some removeVersion)
      rw [hmatches]
      exact ⟨hwf, .makeInvisibleInVersion (mem_of_find?_eq_some hfind) (by simpa using find?_some hfind) hle⟩
    · cases hexec
  | .restoreVisibility id, _, hexec => by
    obtain ⟨m, hfind, rfl⟩ := Option.map_eq_some_iff.1 hexec
    obtain ⟨hwf, hmatches⟩ := clsMatchSetRemoveVersion_spec h id none
    rw [hmatches]
    exact ⟨hwf, .restoreVisibility (mem_of_find?_eq_some hfind) (by simpa using find?_some hfind)⟩
  | .setPrefixFields trieFields, _, hexec => by
    cases hexec
    obtain ⟨hwf, hmatches⟩ := classifierSetPrefixFields_spec h trieFields
    rw [hmatches]
    exact ⟨hwf, .setPrefixFields⟩

/-- One operation of the writer, whose caller keeps to what it has to. -/
def Classifier.Step (env : Env) (cls : Classifier) (op : Op) (cls' : Classifier) : Prop :=
  op.Allowed cls ∧ op.exec env cls = some cls'

theorem run_spec {ops : List Op} (h : cls.WF env.hash)
    (hrun : Run (Classifier.Step env) cls ops cls') :
    cls'.WF env.hash ∧ Run TableStep cls.clsMatches ops cls'.clsMatches := by
  induction hrun with
  | nil cls => exact ⟨h, .nil _⟩
  | cons hstep _ ih =>
    obtain ⟨hwf, htable⟩ := Op.exec_spec h hstep.1 hstep.2
    obtain ⟨hwf', hrun⟩ := ih hwf
    exact ⟨hwf', .cons htable hrun⟩

/-- One operation, if it is allowed. -/
def Classifier.exec (env : Env) (cls : Classifier) (op : Op) : Option Classifier :=
  if op.Allowed cls then op.exec env cls else none

theorem run_of_exec {ops : List Op} (h : Run.exec (Classifier.exec env) cls ops = some cls') :
    Run (Classifier.Step env) cls ops cls' := by
  refine Run.of_exec (fun cls op cls' hexec => ?_) h
  unfold Classifier.exec at hexec
  split at hexec
  · rename_i hallowed
    exact ⟨hallowed, hexec⟩
  · cases hexec

end LinkerOvs.Cls
