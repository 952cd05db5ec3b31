/-
When a flow-mod leaves the tables as they are: when it is refused, or when it is a modify or delete that
selects no rule and adds none. Every other flow-mod that is carried out changes what the tables hold.
-/
import LinkerOvs.FlowTable.Footprint

namespace LinkerOvs.FlowTable

open Cls Ofp List

variable {M : Type} {env : Provider M} {p p' p'' : Ofproto M}

/-! ## Refused and idle flow-mods -/

/-- The provider does not let `replace_rule_create` have the rule. -/
def CreateRefused (env : Provider M) (p : Ofproto M) (fm : FlowMod M) (m : M) (priority : Int) (tableId : Nat)
    (oldRule : Option (Rule M)) : Prop :=
  env.ruleAllocs = false ∨ (env.ruleConstruct (newRule p.nextId fm m priority tableId oldRule)).isSome = true

/-- The reasons for which a table does not take a flow. -/
inductive AddRefusedBy [DecidableEq M] (env : Provider M) (p : Ofproto M) (fm : FlowMod M) (version i : Nat)
    (t : OfTable M) : Prop
  | readonly (ht : t.readonly = true) (hf : fm.flags &&& ofputilFfNoReadonly = 0)
  | hiddenFields (hf : fm.flags &&& ofputilFfHiddenFields = 0) (hm : env.defaultHidden fm.mtch = false)
  | replace (rule : Rule M) (h : findRuleExactly t.cls fm.mtch fm.priority (some version) = some rule)
      (hc : CreateRefused env p { fm with modifyCookie := true } fm.mtch fm.priority i (some rule))
  | overlap (h : findRuleExactly t.cls fm.mtch fm.priority (some version) = none)
      (hf : fm.flags &&& ofputilFfCheckOverlap ≠ 0)
      (ho : ruleOverlaps env t.cls fm.mtch fm.priority (some version) = true)
  | full (h : findRuleExactly t.cls fm.mtch fm.priority (some version) = none) (hn : t.maxFlows ≤ t.nFlows)
      (hv : chooseRuleToEvict env p t = none)
  | evict (id : Nat) (rule : Rule M) (h : findRuleExactly t.cls fm.mtch fm.priority (some version) = none)
      (hn : t.maxFlows ≤ t.nFlows) (hv : chooseRuleToEvict env p t = some id) (hr : p.rule id = .ok rule)
      (hi : rule.tableId < p.tables.length)
      (hc : CreateRefused env p { fm with deleteReason := .eviction } fm.mtch fm.priority i (some rule))
  | create (h : findRuleExactly t.cls fm.mtch fm.priority (some version) = none) (hn : ¬ t.maxFlows ≤ t.nFlows)
      (hc : CreateRefused env p fm fm.mtch fm.priority i none)

inductive AddRefused [DecidableEq M] (env : Provider M) (p : Ofproto M) (fm : FlowMod M) (version : Nat) : Prop
  | badTable (e : OfpErr) (h : addTable env p fm = .error e)
  | table (i : Nat) (t : OfTable M) (hi : addTable env p fm = .ok i) (ht : p.tables[i]? = some t)
      (h : AddRefusedBy env p fm version i t)

def FlowModCommand.modifies (c : FlowModCommand) : Prop := c = .modify ∨ c = .modifyStrict

def FlowModCommand.deletes (c : FlowModCommand) : Prop := c = .delete ∨ c = .deleteStrict

theorem FlowModCommand.kind (c : FlowModCommand) : c = .add ∨ c.modifies ∨ c.deletes ∨ ∃ code, c = .other code := by
  cases c <;> simp [modifies, deletes]

/-- The flow-mod, taking effect in a version, is refused or has nothing to do. -/
inductive Idle [DecidableEq M] (env : Provider M) (p : Ofproto M) (fm : FlowMod M) (version : Nat) : Prop
  | add (hc : fm.command = .add) (h : AddRefused env p fm version)
  | selection (hc : fm.command.modifies ∨ fm.command.deletes) (e : OfpErr) (h : selectedRules env p fm = .error e)
  | modifyRefused (hc : fm.command.modifies) (rules : List (Rule M)) (h : selectedRules env p fm = .ok rules)
      (hne : rules ≠ []) (e : OfpErr) (hr : createAll env fm p rules = .error e)
  | modifyNone (hc : fm.command.modifies) (h : selectedRules env p fm = .ok [])
      (hk : fm.cookieMask ≠ 0 ∨ fm.newCookie = be64Max)
  | modifyAdd (hc : fm.command.modifies) (h : selectedRules env p fm = .ok []) (ha : AddRefused env p fm version)
  | deleteNone (hc : fm.command.deletes) (h : selectedRules env p fm = .ok [])
  | badCommand (code : UInt16) (hc : fm.command = .other code)

/-! ## Creating and placing rules -/

theorem replaceRuleCreate_refused {fm : FlowMod M} {m : M} {priority : Int} {i : Nat} {old : Option (Rule M)}
    (h : CreateRefused env p fm m priority i old) : ∃ e, replaceRuleCreate env p fm m priority i old = .error e := by
  unfold replaceRuleCreate
  rcases h with h | h
  · simp [*]
  · obtain ⟨e, he⟩ := Option.isSome_iff_exists.1 h
    split
    · exact ⟨_, rfl⟩
    · exact ⟨e, by simp only [he]⟩

theorem replaceRuleCreate_cases (env : Provider M) (p : Ofproto M) (fm : FlowMod M) (m : M) (priority : Int) (i : Nat)
    (old : Option (Rule M)) : CreateRefused env p fm m priority i old ∨
      replaceRuleCreate env p fm m priority i old =
        .ok ({ p with nextId := p.nextId + 1 }, newRule p.nextId fm m priority i old) := by
  unfold replaceRuleCreate CreateRefused
  grind

theorem rules_ruleInsert {r r' : Rule M} (h : ofprotoRuleInsert p r = .ok (p', r')) : p'.rules = p.rules := by
  unfold ofprotoRuleInsert at h
  split at h
  · cases h
  · obtain ⟨p₁, h₁, h⟩ := Except.bind_eq_ok h
    cases h
    have h₂ := rules_modifyTable h₁ fun t => by split <;> rfl
    exact h₂

theorem createAll_ok {fm : FlowMod M} : ∀ {p p' : Ofproto M} {olds news : List (Rule M)},
    createAll env fm p olds = .ok (p', news) → p'.rules = p.rules ∧ news.length = olds.length
  | p, p', [], news, h => by
    cases h
    exact ⟨rfl, rfl⟩
  | p, p', old :: olds, news, h => by
    obtain ⟨⟨p₁, new⟩, h₁, h⟩ := Except.bind_eq_ok h
    obtain ⟨⟨p₂, news'⟩, h₂, h⟩ := Except.bind_eq_ok h
    cases h
    obtain ⟨hrules, hlen⟩ := createAll_ok h₂
    rcases replaceRuleCreate_cases env p fm old.mtch old.priority old.tableId (some old) with hc | hc
    · obtain ⟨e, he⟩ := replaceRuleCreate_refused hc
      simp_all
    · rw [hc] at h₁
      cases h₁
      exact ⟨hrules, by simp [hlen]⟩

theorem evictionGroupRemove_ok {r : Rule M} (h : evictionGroupRemoveRule p r = .ok p') :
    r.tableId < p.tables.length ∧ p'.nextId = p.nextId ∧ p'.rules = p.rules ∧ p'.contents = p.contents := by
  unfold evictionGroupRemoveRule at h
  have hrules := rules_modifyTable h fun _ => rfl
  obtain ⟨hi, rfl⟩ := modifyTable_ok h
  refine ⟨hi, rfl, hrules, ?_⟩
  unfold Ofproto.contents
  apply ext_getElem?
  grind

section

variable [DecidableEq M]

variable {r : Except OfpErr (OfprotoFlowMod M)} {ofm : OfprotoFlowMod M} {version i : Nat}
  {conjs : List ClsConjunction} {t : OfTable M} {c : RuleCriteria M} {rules : List (Rule M)}

theorem length_classifierInsert {r : Rule M} (h : classifierInsert p r version conjs = .ok p') :
    p'.rules.length = p.rules.length + 1 := by
  unfold classifierInsert at h
  dsimp only at h
  split at h
  · cases h
  · exact length_rules_insert h

theorem length_replaceRuleStart {old : Option Nat} {new : Rule M}
    (h : replaceRuleStart p version old new conjs = .ok p') : p'.rules.length = p.rules.length + 1 := by
  obtain ⟨p₁, h₁, h⟩ := Except.bind_eq_ok h
  obtain ⟨⟨p₂, new'⟩, h₂, h⟩ := Except.bind_eq_ok h
  have hmark : p₁.rules.length = p.rules.length := by
    cases old with
    | some id => exact (Shrinks.makeInvisible h₁).length
    | none => rw [rules_modifyTable h₁ fun _ => rfl]
  rw [length_classifierInsert h, rules_ruleInsert h₂, hmark]

theorem length_replaceAll :
    ∀ {p p' : Ofproto M} {olds news : List (Rule M)}, replaceAll version conjs p olds news = .ok p' →
      p'.rules.length = p.rules.length + min olds.length news.length
  | p, p', [], _, h => by
    cases h
    simp
  | p, p', _ :: _, [], h => by
    cases h
    simp
  | p, p', old :: olds, new :: news, h => by
    obtain ⟨p₁, h₁, h⟩ := Except.bind_eq_ok h
    rw [length_replaceAll h, length_replaceRuleStart h₁]
    simp only [length_cons]
    omega

/-! ## Adding -/

theorem addRule_refused (ofm : OfprotoFlowMod M) {old : Option (Rule M)}
    (h : CreateRefused env p ofm.fm ofm.fm.mtch ofm.fm.priority i old) :
    ∃ e, addRule env p ofm i old = .ok (p, .error e) := by
  obtain ⟨e, he⟩ := replaceRuleCreate_refused h
  exact ⟨e, by simp only [addRule, he]⟩

theorem addRule_cases {old : Option (Rule M)} (h : addRule env p ofm i old = .ok (p', r)) :
    CreateRefused env p ofm.fm ofm.fm.mtch ofm.fm.priority i old ∨
      (∃ ofm', r = .ok ofm') ∧ p'.rules.length = p.rules.length + 1 := by
  rcases replaceRuleCreate_cases env p ofm.fm ofm.fm.mtch ofm.fm.priority i old with hc | hc
  · exact .inl hc
  right
  simp only [addRule, hc] at h
  obtain ⟨conjs, -, h⟩ := Except.bind_eq_ok h
  obtain ⟨p₁, h₁, h⟩ := Except.bind_eq_ok h
  cases h
  have hlen := length_replaceRuleStart h₁
  exact ⟨⟨_, rfl⟩, hlen⟩

/-- In a table whose permissions allow it, a refused flow changes nothing that the tables hold. -/
theorem addFlowTo_refused (hro : ¬ (t.readonly && ofm.fm.flags &&& ofputilFfNoReadonly = 0) = true)
    (hhid : ¬ (ofm.fm.flags &&& ofputilFfHiddenFields = 0 && !env.defaultHidden ofm.fm.mtch) = true)
    (h : AddRefusedBy env p ofm.fm ofm.version i t) :
    ∃ p' e, addFlowTo env p ofm i t = .ok (p', .error e) ∧ p'.contents = p.contents := by
  unfold addFlowTo
  cases h with
  | readonly ht hf => exact absurd (by simp [ht, hf]) hro
  | hiddenFields hf hm => exact absurd (by simp [hf, hm]) hhid
  | replace rule h hc =>
    obtain ⟨e, he⟩ := addRule_refused { ofm with fm := { ofm.fm with modifyCookie := true } } hc
    exact ⟨p, e, by simp only [h, he], rfl⟩
  | overlap h hf ho => exact ⟨p, .ofpfmfcOverlap, by simp [h, hf, ho], rfl⟩
  | full h hn hv =>
    simp only [h, hv]
    split
    · exact ⟨p, _, rfl, rfl⟩
    · exact ⟨p, _, rfl, rfl⟩
  | evict id rule h hn hv hr hi hc =>
    obtain ⟨p₁, hp₁⟩ : ∃ p₁, evictionGroupRemoveRule p rule = .ok p₁ := by
      unfold evictionGroupRemoveRule Ofproto.modifyTable
      simp [*]
    obtain ⟨-, hid, -, hcont⟩ := evictionGroupRemove_ok hp₁
    have hc₁ : CreateRefused env p₁ { ofm.fm with deleteReason := .eviction } ofm.fm.mtch ofm.fm.priority i (some rule) := by
      unfold CreateRefused at hc ⊢
      rw [hid]
      exact hc
    obtain ⟨e, he⟩ := addRule_refused { ofm with fm := { ofm.fm with deleteReason := .eviction } } hc₁
    simp only [h, hv]
    split
    · exact ⟨p, _, rfl, rfl⟩
    · simp [*]
  | create h hn hc =>
    obtain ⟨e, he⟩ := addRule_refused ofm hc
    grind

theorem addFlowStart_refused (ofm : OfprotoFlowMod M) (h : AddRefused env p ofm.fm ofm.version) :
    ∃ p' e, addFlowStart env p ofm = .ok (p', .error e) ∧ p'.contents = p.contents := by
  unfold addFlowStart
  cases h with
  | badTable e h => exact ⟨p, e, by simp only [h], rfl⟩
  | table i t hi ht h =>
    simp only [hi, ht]
    split
    · exact ⟨p, _, rfl, rfl⟩
    rename_i hro
    split
    · exact ⟨p, _, rfl, rfl⟩
    · rename_i hhid
      exact addFlowTo_refused hro hhid h

/-- A flow that a table takes is one rule more. -/
theorem addFlowTo_cases (h : addFlowTo env p ofm i t = .ok (p', r)) :
    AddRefusedBy env p ofm.fm ofm.version i t ∨ (∃ ofm', r = .ok ofm') ∧ p.rules.length < p'.rules.length := by
  unfold addFlowTo at h
  dsimp only at h
  split at h
  · rename_i rule hfind
    rcases addRule_cases h with hc | ⟨hr, hlen⟩
    · exact .inl (.replace rule hfind hc)
    · exact .inr ⟨hr, by omega⟩
  rename_i hfind
  split at h
  · rename_i ho
    simp only [Bool.and_eq_true, decide_eq_true_eq] at ho
    exact .inl (.overlap hfind ho.1 ho.2)
  split at h
  · rename_i hn
    split at h
    · rename_i hv
      exact .inl (.full hfind hn hv)
    rename_i id hv
    obtain ⟨rule, hrule, h⟩ := Except.bind_eq_ok h
    obtain ⟨p₁, hp₁, h⟩ := Except.bind_eq_ok h
    obtain ⟨hi, hid, hrules, -⟩ := evictionGroupRemove_ok hp₁
    rcases addRule_cases h with hc | ⟨hr, hlen⟩
    · left
      refine .evict id rule hfind hn hv hrule hi ?_
      unfold CreateRefused at hc ⊢
      simp_all
    · simp [*]
  · rename_i hn
    rcases addRule_cases h with hc | ⟨hr, hlen⟩
    · exact .inl (.create hfind hn hc)
    · exact .inr ⟨hr, by omega⟩

theorem addFlowStart_cases (h : addFlowStart env p ofm = .ok (p', r)) :
    AddRefused env p ofm.fm ofm.version ∨ (∃ ofm', r = .ok ofm') ∧ p.rules.length < p'.rules.length := by
  unfold addFlowStart at h
  dsimp only at h
  split at h
  · rename_i e he
    exact .inl (.badTable e he)
  rename_i i hi
  split at h
  · cases h
  rename_i t ht
  split at h
  · rename_i hro
    simp only [Bool.and_eq_true, decide_eq_true_eq] at hro
    exact .inl (.table i t hi ht (.readonly hro.1 hro.2))
  split at h
  · rename_i hhid
    simp only [Bool.and_eq_true, decide_eq_true_eq, Bool.not_eq_true'] at hhid
    exact .inl (.table i t hi ht (.hiddenFields hhid.1 hhid.2))
  · rcases addFlowTo_cases h with hby | hlt
    · exact .inl (.table i t hi ht hby)
    · exact .inr hlt

/-! ## Selecting -/

section Selecting

omit [DecidableEq M]

theorem collectRules_sublist {candidates all : List (Rule M)} (h : collectRules p c candidates = .ok rules)
    (hall : candidates.Sublist all) : rules.Sublist (all.filter fun r => r.versions.visibleIn c.version) := by
  unfold collectRules at h
  dsimp only at h
  split at h
  · cases h
  cases h
  refine filter_sublist.trans ((hall.filter _).trans (monotone_filter_right _ fun r hmeets => ?_))
  unfold meetsCriteria at hmeets
  simp_all

theorem matchingTables_sublist (p : Ofproto M) (i : Nat) : (matchingTables p i).Sublist p.tables := by
  unfold matchingTables
  split
  · exact filter_sublist
  · grind

theorem collectRulesLoose_sublist (h : collectRulesLoose env p c = .ok rules) :
    rules.Sublist (p.rules.filter fun r => r.versions.visibleIn c.version) := by
  unfold collectRulesLoose at h
  split at h
  · cases h
  · split at h
    · exact collectRules_sublist h (filter_sublist.trans filter_sublist)
    · refine collectRules_sublist h (List.Sublist.trans ?_ ((matchingTables_sublist p c.tableId).flatMap _))
      exact List.Sublist.flatMap_right _ fun t _ => filter_sublist

end Selecting

theorem collectRulesStrict_sublist (h : collectRulesStrict p c = .ok rules) :
    rules.Sublist (p.rules.filter fun r => r.versions.visibleIn c.version) := by
  unfold collectRulesStrict at h
  split at h
  · cases h
  split at h
  · exact collectRules_sublist h (filter_sublist.trans filter_sublist)
  refine collectRules_sublist h (List.Sublist.trans ?_ ((matchingTables_sublist p c.tableId).flatMap _))
  rw [filterMap_eq_flatMap_toList]
  refine List.Sublist.flatMap_right _ fun t _ => ?_
  cases hfind : findRuleExactly t.cls c.mtch c.priority c.version with
  | none => exact nil_sublist _
  | some r => exact singleton_sublist.2 (mem_of_find?_eq_some hfind)

theorem selectedRules_sublist {fm : FlowMod M} (h : selectedRules env p fm = .ok rules) :
    rules.Sublist (p.rules.filter Rule.kept) := by
  unfold selectedRules at h
  split at h
  · exact collectRulesLoose_sublist h
  · exact collectRulesStrict_sublist h
  · exact collectRulesLoose_sublist h
  · exact collectRulesStrict_sublist h
  · simp_all

/-! ## The start phase as a whole -/

theorem start_modify (hc : ofm.fm.command.modifies) :
    ofprotoFlowModStart env p ofm = match selectedRules env p ofm.fm with
      | .error e => .ok (p, .error e)
      | .ok rules => modifyFlowsStart env p ofm rules := by
  unfold ofprotoFlowModStart
  cases selectedRules env p ofm.fm <;> rcases hc with hc | hc <;> simp only [hc]

theorem start_delete (hc : ofm.fm.command.deletes) :
    ofprotoFlowModStart env p ofm = match selectedRules env p ofm.fm with
      | .error e => .ok (p, .error e)
      | .ok rules => deleteSelected p ofm rules := by
  unfold ofprotoFlowModStart
  cases selectedRules env p ofm.fm <;> rcases hc with hc | hc <;> simp only [hc]

/-- Finishing does nothing after a start that selected nothing. -/
def FinishesIdle (env : Provider M) (r : Except OfpErr (OfprotoFlowMod M)) : Prop :=
  ∀ ofm, r = .ok ofm → ∀ q, ofprotoFlowModFinish env q ofm = .ok q

omit [DecidableEq M] in
theorem finishesIdle_modify (hc : ofm.fm.command.modifies) :
    FinishesIdle env (.ok { ofm with oldRules := [], newRules := [], stub := none }) := by
  rintro _ ⟨⟩ q
  unfold ofprotoFlowModFinish
  rcases hc with hc | hc <;> simp only [hc] <;> rfl

omit [DecidableEq M] in
theorem finishesIdle_delete (hc : ofm.fm.command.deletes) :
    FinishesIdle env (.ok { ofm with oldRules := [] }) := by
  rintro _ ⟨⟩ q
  unfold ofprotoFlowModFinish
  rcases hc with hc | hc <;> simp only [hc] <;> rfl

/-- An idle flow-mod is started without an effect on what the tables hold, and finishing it has none either. -/
theorem Idle.start (ofm : OfprotoFlowMod M) (h : Idle env p ofm.fm ofm.version) :
    ∃ p' r, ofprotoFlowModStart env p ofm = .ok (p', r) ∧ p'.contents = p.contents ∧ FinishesIdle env r := by
  have hrefused : ∀ q : Ofproto M, (∃ e, ofprotoFlowModStart env p ofm = .ok (q, .error e)) → q.contents = p.contents →
      ∃ p' r, ofprotoFlowModStart env p ofm = .ok (p', r) ∧ p'.contents = p.contents ∧ FinishesIdle env r := by
    rintro q ⟨e, he⟩ hq
    refine ⟨q, _, he, hq, ?_⟩
    rintro _ ⟨⟩
  cases h with
  | add hc h =>
    obtain ⟨q, e, he, hq⟩ := addFlowStart_refused ofm h
    exact hrefused q ⟨e, by unfold ofprotoFlowModStart; rw [hc]; exact he⟩ hq
  | selection hc e h =>
    apply hrefused p _ rfl
    rcases hc with hc | hc
    · exact ⟨e, by rw [start_modify hc, h]⟩
    · exact ⟨e, by rw [start_delete hc, h]⟩
  | modifyRefused hc rules h hne e hr =>
    apply hrefused p _ rfl
    rw [start_modify hc, h]
    simp [modifyFlowsStart, hne, hr]
  | modifyNone hc h hk =>
    refine ⟨p, .ok { ofm with oldRules := [], newRules := [], stub := none }, ?_, rfl, finishesIdle_modify hc⟩
    rw [start_modify hc, h]
    rcases hk with hk | hk <;> simp [modifyFlowsStart, hk]
  | modifyAdd hc h ha =>
    by_cases hk : ofm.fm.cookieMask ≠ 0 ∨ ofm.fm.newCookie = be64Max
    · refine ⟨p, .ok { ofm with oldRules := [], newRules := [], stub := none }, ?_, rfl, finishesIdle_modify hc⟩
      rw [start_modify hc, h]
      rcases hk with hk | hk <;> simp [modifyFlowsStart, hk]
    · obtain ⟨q, e, he, hq⟩ := addFlowStart_refused { ofm with oldRules := [], newRules := [] } ha
      refine hrefused q ⟨e, ?_⟩ hq
      rw [start_modify hc, h]
      push Not at hk
      simpa [modifyFlowsStart, hk.1, hk.2] using he
  | deleteNone hc h =>
    refine ⟨p, .ok { ofm with oldRules := [] }, ?_, rfl, finishesIdle_delete hc⟩
    rw [start_delete hc, h]
    rfl
  | badCommand code hc =>
    apply hrefused p _ rfl
    exact ⟨.ofpfmfcBadCommand, by unfold ofprotoFlowModStart; rw [hc]⟩

/-- Any other flow-mod that is started marks the tables. -/
theorem start_cases (h : ofprotoFlowModStart env p ofm = .ok (p', r)) :
    Idle env p ofm.fm ofm.version ∨ (∃ ofm', r = .ok ofm') ∧ Marked p p' := by
  rcases ofm.fm.command.kind with hc | hc | hc | ⟨code, hc⟩
  · unfold ofprotoFlowModStart at h
    rw [hc] at h
    rcases addFlowStart_cases h with hr | ⟨hr, hlt⟩
    · exact .inl (.add hc hr)
    · exact .inr ⟨hr, .inl hlt⟩
  · rw [start_modify hc] at h
    split at h
    · rename_i e he
      exact .inl (.selection (.inl hc) e he)
    rename_i rules hrules
    unfold modifyFlowsStart at h
    split at h
    · rename_i hne
      have hne : rules ≠ [] := by simpa using hne
      split at h
      · rename_i e he
        exact .inl (.modifyRefused hc rules hrules hne e he)
      rename_i p₁ news hnews
      obtain ⟨conjs, -, h⟩ := Except.bind_eq_ok h
      obtain ⟨p₂, hp₂, h⟩ := Except.bind_eq_ok h
      cases h
      obtain ⟨hsame, hlen⟩ := createAll_ok hnews
      have hmore := length_replaceAll hp₂
      have hpos : 0 < rules.length := length_pos_iff.2 hne
      rw [hsame] at hmore
      exact .inr ⟨⟨_, rfl⟩, .inl (by omega)⟩
    · rename_i hnil
      have hnil : rules = [] := by simpa using hnil
      subst hnil
      split at h
      · rcases addFlowStart_cases h with hr | ⟨hr, hlt⟩
        · exact .inl (.modifyAdd hc hrules hr)
        · exact .inr ⟨hr, .inl hlt⟩
      rename_i hk
      left
      refine .modifyNone hc hrules ?_
      grind
  · rw [start_delete hc] at h
    split at h
    · rename_i e he
      exact .inl (.selection (.inr hc) e he)
    rename_i rules hrules
    obtain ⟨p₁, hp₁, h⟩ := Except.bind_eq_ok h
    cases h
    cases rules with
    | nil => exact .inl (.deleteNone hc hrules)
    | cons rule rules =>
      obtain ⟨hmem, hkept⟩ := mem_filter.1 ((selectedRules_sublist hrules).subset mem_cons_self)
      exact .inr ⟨⟨_, rfl⟩, .deleteFlowsStart hmem hkept hp₁⟩
  · exact .inl (.badCommand code hc)

end

end LinkerOvs.FlowTable
