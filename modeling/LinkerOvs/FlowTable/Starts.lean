/-
The start phase as a list of changes, each of which marks a rule for removal, places one, or both. What
every change keeps, the start phase of every flow-mod keeps; the revert and the finish phase then go
through the same changes.
-/
import LinkerOvs.FlowTable.Effects
import LinkerOvs.FlowTable.Idle

namespace LinkerOvs.FlowTable

open Cls Ofp List

variable {M : Type} {env : Provider M} {p q : Ofproto M}

/-! ## What is selected -/

theorem Tidy.nodup_ids (h : Tidy p) : (p.rules.map Rule.id).Nodup := by
  rw [Ofproto.rules, map_flatMap, nodup_flatMap]
  constructor
  · intro t ht
    obtain ⟨j, hj⟩ := mem_iff_getElem?.1 ht
    exact h.nodup hj
  · rw [pairwise_iff_getElem]
    intro i j hi hj hlt x hx hx'
    obtain ⟨r, hr, rfl⟩ := mem_map.1 hx
    obtain ⟨r', hr', heq⟩ := mem_map.1 hx'
    have hi' := getElem?_eq_getElem hi
    have hj' := getElem?_eq_getElem hj
    have hsame := h.unique r (mem_rules.2 ⟨i, _, hi', hr⟩) r' (mem_rules.2 ⟨j, _, hj', hr'⟩) heq.symm
    have h₁ := h.home hi' r hr
    have h₂ := h.home hj' r' hr'
    simp_all

variable {c : RuleCriteria M} {rules : List (Rule M)} {ofm : OfprotoFlowMod M}

/-! ## Changes -/

/-- What one step of a start phase does: a rule marked for removal, because it is replaced, evicted or deleted,
and a rule placed. -/
structure Change (M : Type) where
  old : Option (Rule M)
  new : Option (Rule M)
  evicted : Bool

/-- A change as a flow-mod records it. -/
structure IdChange where
  old : Option Nat
  new : Option Nat
  evicted : Bool
deriving DecidableEq

def Change.ids (c : Change M) : IdChange := ⟨c.old.map Rule.id, c.new.map Rule.id, c.evicted⟩

/-- The change that the first slots of the collections record. -/
def OfprotoFlowMod.stubChange (ofm : OfprotoFlowMod M) : List IdChange :=
  match ofm.stub with
  | none => []
  | some (old, new) => [⟨old, some new, old.isSome && ofm.fm.deleteReason = .eviction⟩]

/-- The changes of a flow-mod whose start phase is over. -/
def OfprotoFlowMod.changes (ofm : OfprotoFlowMod M) : List IdChange :=
  match ofm.fm.command with
  | .add => ofm.stubChange
  | .modify | .modifyStrict =>
    if ofm.stub.isSome then ofm.stubChange
    else (ofm.oldRules.zip ofm.newRules).map fun r => ⟨some r.1, some r.2, false⟩
  | .delete | .deleteStrict => ofm.oldRules.map fun id => ⟨some id, none, false⟩
  | .other _ => []

def IdChange.revert (p : Ofproto M) (c : IdChange) : Except Abort (Ofproto M) :=
  match c.new, c.old with
  | some new, some old => do
    let p ←
      if c.evicted then do
        let r ← p.rule old
        evictionGroupAddRule p r
      else .ok p
    replaceRuleRevert p (some old) new
  | some new, none => replaceRuleRevert p none new
  | none, some old => do
    let r ← p.rule old
    let p ← p.modifyTable r.tableId fun t => { t with nFlows := t.nFlows + 1 }
    .ok (restoreVisibility p old)
  | none, none => .ok p

def IdChange.finish (s : Ofproto M × List LearnedCookie) (c : IdChange) : Except Abort (Ofproto M × List LearnedCookie) :=
  match c.new, c.old with
  | some new, old => replaceRuleFinish s old new
  | none, some old => deleteFlowFinish s old
  | none, none => .ok s

/-- An add that was begun has recorded its rule. -/
def OfprotoFlowMod.Begun (ofm : OfprotoFlowMod M) : Prop := ofm.fm.command = .add → ofm.stub.isSome = true

theorem addFlowRevert_eq (h : ofm.stub.isSome = true) :
    addFlowRevert p ofm = ofm.stubChange.foldlM IdChange.revert p := by
  obtain ⟨⟨old, new⟩, hstub⟩ := Option.isSome_iff_exists.1 h
  unfold addFlowRevert OfprotoFlowMod.stubChange
  rw [hstub]
  cases old with
  | none => simp [IdChange.revert, revertEviction]
  | some old =>
    simp only [foldlM_cons, foldlM_nil, bind_pure, IdChange.revert, revertEviction, Option.isSome_some,
      Bool.true_and, decide_eq_true_eq]
    split
    · rw [bind_assoc]
    · rfl

theorem flowModRevert_eq (h : ofm.Begun) : ofprotoFlowModRevert p ofm = ofm.changes.foldlM IdChange.revert p := by
  have hmodify : modifyFlowsRevert p ofm = (if ofm.stub.isSome then ofm.stubChange
      else (ofm.oldRules.zip ofm.newRules).map fun r => ⟨some r.1, some r.2, false⟩).foldlM IdChange.revert p := by
    unfold modifyFlowsRevert
    split
    · next hstub => exact addFlowRevert_eq hstub
    · rw [foldlM_map]
      rfl
  unfold ofprotoFlowModRevert OfprotoFlowMod.changes
  cases hc : ofm.fm.command with
  | add => exact addFlowRevert_eq (h hc)
  | modify => exact hmodify
  | modifyStrict => exact hmodify
  | delete =>
    rw [foldlM_map]
    rfl
  | deleteStrict =>
    rw [foldlM_map]
    rfl
  | other code => rfl

theorem learnedCookiesFlush_nil (env : Provider M) (p : Ofproto M) : learnedCookiesFlush env p [] = .ok p := rfl

theorem flowModFinish_eq (env : Provider M) (h : ofm.Begun) : ofprotoFlowModFinish env p ofm =
      ofm.changes.foldlM IdChange.finish (p, []) >>= fun s => learnedCookiesFlush env s.1 s.2 := by
  have hadd : ofm.stub.isSome = true → addFlowFinish env p ofm =
      ofm.stubChange.foldlM IdChange.finish (p, []) >>= fun s => learnedCookiesFlush env s.1 s.2 := by
    intro hstub
    obtain ⟨⟨old, new⟩, hstub⟩ := Option.isSome_iff_exists.1 hstub
    unfold addFlowFinish OfprotoFlowMod.stubChange
    rw [hstub]
    simp only [foldlM_cons, foldlM_nil, bind_pure, IdChange.finish]
  have hmodify : modifyFlowsFinish env p ofm = (if ofm.stub.isSome then ofm.stubChange
      else (ofm.oldRules.zip ofm.newRules).map fun r => ⟨some r.1, some r.2, false⟩).foldlM IdChange.finish (p, [])
        >>= fun s => learnedCookiesFlush env s.1 s.2 := by
    unfold modifyFlowsFinish
    split
    · next hstub => exact hadd hstub
    · rw [foldlM_map]
      rfl
  unfold ofprotoFlowModFinish OfprotoFlowMod.changes
  cases hc : ofm.fm.command with
  | add => exact hadd (h hc)
  | modify => exact hmodify
  | modifyStrict => exact hmodify
  | delete =>
    rw [foldlM_map]
    rfl
  | deleteStrict =>
    rw [foldlM_map]
    rfl
  | other code => rfl

/-! ## What every change keeps -/

/-- The fields of a created rule that do not come from the rule it replaces. -/
structure CreatedAs (id : Nat) (fm : FlowMod M) (m : M) (priority : Int) (tableId : Nat) (r : Rule M) : Prop where
  id : r.id = id
  mtch : r.mtch = m
  priority : r.priority = priority
  tableId : r.tableId = tableId
  actions : r.actions = fm.ofpacts
  removed : r.removed = true

theorem newRule_fields (id : Nat) (fm : FlowMod M) (m : M) (priority : Int) (tableId : Nat) (old : Option (Rule M)) :
    CreatedAs id fm m priority tableId (newRule id fm m priority tableId old) := by
  unfold newRule
  split
  · split
    · exact ⟨rfl, rfl, rfl, rfl, rfl, rfl⟩
    · unfold modifySemantics
      split <;> split <;> exact ⟨rfl, rfl, rfl, rfl, rfl, rfl⟩
  · exact ⟨rfl, rfl, rfl, rfl, rfl, rfl⟩

/-- A rule that was created and is in no data structure yet. -/
structure Placeable (q : Ofproto M) (new : Rule M) : Prop where
  removed : new.removed = true
  tableId : new.tableId < q.tables.length
  id : ∀ r ∈ q.rules, r.id ≠ new.id
  lt : new.id < q.nextId

/-- What holds when a change is made. -/
inductive Ready [DecidableEq M] (q : Ofproto M) (version : Nat) : Change M → Prop
  | add {new : Rule M} {t : OfTable M} (hnew : Placeable q new) (ht : q.tables[new.tableId]? = some t)
      (hroom : ¬t.maxFlows ≤ t.nFlows)
      (hnone : findRuleExactly t.cls new.mtch new.priority (some version) = none) : Ready q version ⟨none, some new, false⟩
  | replace {old new : Rule M} (hnew : Placeable q new) (hold : old ∈ q.rules)
      (hvisible : old.versions.visibleIn (some version) = true ∨ old.kept = true) (htable : new.tableId = old.tableId)
      (hmatch : new.mtch = old.mtch) (hpriority : new.priority = old.priority) : Ready q version ⟨some old, some new, false⟩
  | evict {old new : Rule M} {t : OfTable M} (hnew : Placeable q new) (hold : old ∈ q.rules)
      (htable : old.tableId = new.tableId) (ht : q.tables[new.tableId]? = some t) (heviction : t.eviction = true)
      (hgroup : old.id ∈ t.evictable) (hfull : t.maxFlows ≤ t.nFlows)
      (hnone : findRuleExactly t.cls new.mtch new.priority (some version) = none) : Ready q version ⟨some old, some new, true⟩
  | delete {old : Rule M} (hold : old ∈ q.rules) (hkept : old.kept = true) : Ready q version ⟨some old, none, false⟩

def Change.apply (q : Ofproto M) (version : Nat) (conjs : List ClsConjunction) (c : Change M) : Ofproto M :=
  match c.new, c.old with
  | some new, some old => placed (if c.evicted then evictOut q old else q) version (some old.id) new conjs
  | some new, none => placed q version none new conjs
  | none, some old => deleted q version old
  | none, none => q

/-- The change adds a flow where there was no identical one. -/
def Change.adds (c : Change M) : Bool := c.new.isSome && (c.old.isNone || c.evicted)

/-- The flow-mod may add its flow to a table. -/
def FlowMod.addsTo (env : Provider M) (p : Ofproto M) (fm : FlowMod M) (j : Nat) : Prop :=
  (fm.command = .add ∨ fm.command.modifies) ∧ addTable env p fm = .ok j

/-- A change of the start phase that a flow-mod begins with the tables `q₀`. The rules placed have the flow-mod's
actions, and a flow is added to the table that was chosen, before anything else has changed. -/
structure Change.MadeBy (env : Provider M) (q₀ : Ofproto M) (fm : FlowMod M) (q : Ofproto M) (c : Change M) : Prop where
  actions : ∀ n ∈ c.new, n.actions = fm.ofpacts
  first : c.adds = true → q.tables = q₀.tables ∧ ∀ n ∈ c.new, fm.addsTo env q₀ n.tableId

/-- `I`, about the tables and the changes made so far, is kept by every change of the start phase that takes effect
in the version; `E` says which aborts may happen. -/
structure KeptByChanges [DecidableEq M] (env : Provider M) (q₀ : Ofproto M) (fm : FlowMod M) (version : Nat)
    (E : Abort → Prop) (I : Ofproto M → List (Change M) → Prop) : Prop where
  tidy : ∀ {q cs}, I q cs → Tidy q
  versions : ∀ {q cs}, I q cs → ∀ r ∈ q.rules, r.versions.addVersion ≤ version
  groups : ∀ {q cs}, I q cs → ∀ {j : Nat} {t : OfTable M}, q.tables[j]? = some t → ∀ id ∈ t.evictable,
    ∃ r ∈ q.rules, r.id = id ∧ r.tableId = j
  nextId : ∀ {q cs}, I q cs → I { q with nextId := q.nextId + 1 } cs
  change : ∀ {q cs c}, I q cs → Ready q version c → c.MadeBy env q₀ fm q → ∀ conjs,
    I (c.apply q version conjs) (c :: cs)
  clash : ∀ {q cs c}, I q cs → Ready q version c → ∀ new ∈ c.new,
    Clashes q version (c.old.map Rule.id) new = true → E .assertFailed

/-- The change is about a rule from before an address was given and a rule from after it. -/
structure Change.Since (c : Change M) (nextId : Nat) : Prop where
  old : ∀ r ∈ c.old, r.id < nextId
  new : ∀ r ∈ c.new, nextId ≤ r.id

/-- A flow-mod as the decoder passes it on. -/
structure FlowMod.Decoded (fm : FlowMod M) : Prop where
  deleteReason : fm.deleteReason = .delete
  conjunctions : ∃ conjs, getConjunctions [] fm.ofpacts = .ok conjs

/-- A rule of a full table was taken out of its eviction group for a flow that the provider then refuses. -/
def EvictRefused (env : Provider M) (q : Ofproto M) (fm : FlowMod M) (old : Rule M) : Prop :=
  old ∈ q.rules ∧ fm.addsTo env q old.tableId ∧
    ∃ t, q.tables[old.tableId]? = some t ∧ t.eviction = true ∧ old.id ∈ t.evictable ∧ t.maxFlows ≤ t.nFlows ∧
    CreateRefused env q { fm with deleteReason := .eviction } fm.mtch fm.priority old.tableId (some old)

/-- What a start phase comes to: it fails, maybe after it took a rule out of its eviction group, or it has made
changes and recorded them. -/
def StartedWith (env : Provider M) (I : Ofproto M → List (Change M) → Prop) (q : Ofproto M) (cs : List (Change M))
    (ofm : OfprotoFlowMod M) : Started M → Prop
  | (q', .error _) => I q' cs ∨ ∃ old, EvictRefused env q ofm.fm old ∧ q' = evictOut q old
  | (q', .ok ofm') => ofm'.Begun ∧ ofm'.version = ofm.version ∧
      ∃ ds : List (Change M), ofm'.changes = ds.map Change.ids ∧ (∀ d ∈ ds, d.Since q.nextId) ∧ I q' (ds.reverse ++ cs)

theorem clashes_evictOut [DecidableEq M] (version : Nat) (old : Option Nat) (r new : Rule M) :
    Clashes (evictOut q r) version old new = Clashes q version old new := by
  unfold Clashes evictOut
  rw [getElem?_update, Option.any_map]
  split <;> rfl

theorem rules_evictOut (r : Rule M) {r' : Rule M} : r' ∈ (evictOut q r).rules ↔ r' ∈ q.rules := by
  unfold evictOut
  rw [(ruleWise_evictOut r).mem_rules]
  simp

theorem changes_of_stub (hc : ofm.fm.command = .add ∨ ofm.fm.command.modifies)
    {old : Option Nat} {new : Nat} (hstub : ofm.stub = some (old, new)) :
    ofm.changes = [⟨old, some new, old.isSome && ofm.fm.deleteReason = .eviction⟩] := by
  have hchange : ofm.stubChange = [⟨old, some new, old.isSome && ofm.fm.deleteReason = .eviction⟩] := by
    rw [OfprotoFlowMod.stubChange, hstub]
  have hsome : ofm.stub.isSome = true := by rw [hstub]; rfl
  unfold OfprotoFlowMod.changes
  rcases hc with hc | hc | hc <;> rw [hc]
  · exact hchange
  · simp [*]
  · simp [*]

theorem KeptByChanges.and [DecidableEq M] {q₀ : Ofproto M} {fm : FlowMod M} {version : Nat} {E E' : Abort → Prop}
    {I J : Ofproto M → List (Change M) → Prop} (hI : KeptByChanges env q₀ fm version E I)
    (hJ : KeptByChanges env q₀ fm version E' J) : KeptByChanges env q₀ fm version E fun q cs => I q cs ∧ J q cs where
  tidy h := hI.tidy h.1
  versions h := hI.versions h.1
  groups h := hI.groups h.1
  nextId h := ⟨hI.nextId h.1, hJ.nextId h.2⟩
  change h hready hmade conjs := ⟨hI.change h.1 hready hmade conjs, hJ.change h.2 hready hmade conjs⟩
  clash h hready := hI.clash h.1 hready

section

variable [DecidableEq M] {q₀ : Ofproto M} {fm : FlowMod M} {version : Nat} {E : Abort → Prop}
  {I : Ofproto M → List (Change M) → Prop} (hI : KeptByChanges env q₀ fm version E I) {cs : List (Change M)}
include hI

theorem KeptByChanges.place {old : Option (Rule M)} {new : Rule M} {evicted : Bool} (h : I q cs)
    (hready : Ready q version ⟨old, some new, evicted⟩) (hmade : Change.MadeBy env q₀ fm q ⟨old, some new, evicted⟩)
    (conjs : List ClsConjunction) :
    (replaceRuleStart (if evicted then old.elim q (evictOut q) else q) version (old.map Rule.id) new conjs).Meets E
      fun q' => q' = Change.apply q version conjs ⟨old, some new, evicted⟩ ∧ I q' (⟨old, some new, evicted⟩ :: cs) := by
  have hclash := hI.clash h hready new rfl
  have hchange := hI.change h hready hmade conjs
  have htidy := hI.tidy h
  have hversions := hI.versions h
  cases hready with
  | add hnew ht hroom hnone =>
    rw [if_neg Bool.false_ne_true, replaceRuleStart_eq htidy hnew.removed hnew.tableId (by simp)]
    split
    · next hc => exact hclash hc
    · exact ⟨rfl, hchange⟩
  | @replace old new hnew hold hvisible htable hmatch hpriority =>
    have hfact : ∀ id ∈ (some old).map Rule.id, ∃ r ∈ q.rules, r.id = id ∧ r.versions.addVersion ≤ version := by
      grind
    rw [if_neg Bool.false_ne_true, replaceRuleStart_eq htidy hnew.removed hnew.tableId hfact]
    split
    · next hc => exact hclash hc
    · exact ⟨rfl, hchange⟩
  | @evict old new t hnew hold htable ht heviction hgroup hfull hnone =>
    have hfact : ∀ id ∈ (some old).map Rule.id, ∃ r ∈ (evictOut q old).rules,
        r.id = id ∧ r.versions.addVersion ≤ version := by
      rintro id ⟨⟩
      exact ⟨old, (rules_evictOut old).2 hold, rfl, hversions old hold⟩
    have htidy' : Tidy (evictOut q old) := htidy.update (ruleWise_evictOut old) _ _
    rw [if_pos rfl, Option.elim_some, replaceRuleStart_eq htidy' hnew.removed (by simpa [evictOut] using hnew.tableId) hfact,
      clashes_evictOut]
    split
    · next hc => exact hclash hc
    · exact ⟨rfl, hchange⟩

theorem KeptByChanges.addRule (old : Option (Rule M)) (evicted : Bool) (ofm : OfprotoFlowMod M) {i : Nat} (h : I q cs)
    (hversion : ofm.version = version) (hi : i < q.tables.length)
    (hconjs : ∃ conjs, getConjunctions [] ofm.fm.ofpacts = .ok conjs) (htables : q.tables = q₀.tables)
    (htarget : fm.addsTo env q₀ i) (hactions : ofm.fm.ofpacts = fm.ofpacts)
    (hready : ∀ new, Placeable { q with nextId := q.nextId + 1 } new → new.tableId = i → new.mtch = ofm.fm.mtch →
      new.priority = ofm.fm.priority → Ready { q with nextId := q.nextId + 1 } version ⟨old, some new, evicted⟩) :
    (FlowTable.addRule env (if evicted then old.elim q (evictOut q) else q) ofm i old).Meets E fun s =>
      (∃ e, s = (if evicted then old.elim q (evictOut q) else q, .error e) ∧
        CreateRefused env q ofm.fm ofm.fm.mtch ofm.fm.priority i old) ∨
      ∃ q' new, s = (q', .ok { ofm with stub := some (old.map Rule.id, new.id) }) ∧ q.nextId = new.id ∧
        I q' (⟨old, some new, evicted⟩ :: cs) := by
  subst hversion
  have hnext : (if evicted then old.elim q (evictOut q) else q).nextId = q.nextId := by
    cases evicted <;> cases old <;> rfl
  unfold FlowTable.addRule
  rcases replaceRuleCreate_cases env (if evicted then old.elim q (evictOut q) else q) ofm.fm ofm.fm.mtch ofm.fm.priority i
    old with hrefused | hcreate
  · obtain ⟨e, he⟩ := replaceRuleCreate_refused hrefused
    rw [he]
    refine .inl ⟨e, rfl, ?_⟩
    unfold CreateRefused at hrefused ⊢
    rwa [hnext] at hrefused
  rw [hcreate]
  obtain ⟨conjs, hconjs⟩ := hconjs
  rw [hconjs, hnext]
  have hfields := newRule_fields q.nextId ofm.fm ofm.fm.mtch ofm.fm.priority i old
  generalize newRule q.nextId ofm.fm ofm.fm.mtch ofm.fm.priority i old = new at hfields ⊢
  have hnew : Placeable { q with nextId := q.nextId + 1 } new := by
    refine ⟨hfields.removed, by rw [hfields.tableId]; exact hi, fun r hr => ?_, ?_⟩
    · rw [hfields.id]
      exact Nat.ne_of_lt ((hI.tidy h).fresh r hr)
    · rw [hfields.id]
      exact Nat.lt_succ_self _
  have hstate : ({ (if evicted then old.elim q (evictOut q) else q) with nextId := q.nextId + 1 } : Ofproto M) =
      if evicted then old.elim { q with nextId := q.nextId + 1 } (evictOut { q with nextId := q.nextId + 1 })
      else { q with nextId := q.nextId + 1 } := by
    cases evicted <;> cases old <;> rfl
  have hmade : Change.MadeBy env q₀ fm { q with nextId := q.nextId + 1 } ⟨old, some new, evicted⟩ := by
    refine ⟨?_, fun _ => ⟨htables, ?_⟩⟩
    · rintro n ⟨⟩
      exact hfields.actions.trans hactions
    · rintro n ⟨⟩
      rw [hfields.tableId]
      exact htarget
  rw [hstate]
  refine (hI.place (hI.nextId h) (hready _ hnew hfields.tableId hfields.mtch hfields.priority) hmade conjs).bind ?_
  rintro q' ⟨-, hq'⟩
  exact .inr ⟨q', _, rfl, hfields.id.symm, hq'⟩

variable {ofm : OfprotoFlowMod M}

theorem KeptByChanges.addFlowTo {i : Nat} {t : OfTable M} (h : I q₀ cs)
    (hfm : ofm.fm = fm) (hversion : ofm.version = version) (hdecoded : ofm.fm.Decoded)
    (hc : ofm.fm.command = .add ∨ ofm.fm.command.modifies) (htarget : addTable env q₀ ofm.fm = .ok i)
    (ht : q₀.tables[i]? = some t) :
    (FlowTable.addFlowTo env q₀ ofm i t).Meets E (StartedWith env I q₀ cs ofm) := by
  subst hfm
  have hi : i < q₀.tables.length := (List.getElem?_eq_some_iff.1 ht).1
  have hrecord : ∀ {ofm' : OfprotoFlowMod M} {old : Option (Rule M)} {new : Rule M} {evicted : Bool} {q' : Ofproto M},
      ofm'.fm.command = ofm.fm.command → ofm'.version = ofm.version →
      evicted = (old.isSome && ofm'.fm.deleteReason = .eviction) → (∀ r ∈ old, r ∈ q₀.rules) → q₀.nextId = new.id →
      I q' (⟨old, some new, evicted⟩ :: cs) →
      StartedWith env I q₀ cs ofm (q', .ok { ofm' with stub := some (old.map Rule.id, new.id) }) := by
    intro ofm' old new evicted q' hcommand hver hevicted hold hnext hq'
    refine ⟨fun _ => rfl, hver, [⟨old, some new, evicted⟩], ?_, ?_, hq'⟩
    · rw [changes_of_stub (by rw [← hcommand] at hc; exact hc) rfl, hevicted]
      simp [Change.ids]
    · intro d hd
      cases mem_singleton.1 hd
      refine ⟨fun r hr => (hI.tidy h).fresh r (hold r hr), ?_⟩
      simp [*]
  unfold FlowTable.addFlowTo
  dsimp only
  split
  · next rule hfind =>
    -- an identical rule is replaced
    have hrule : rule ∈ t.cls := mem_of_find?_eq_some hfind
    have hprop := find?_some hfind
    simp only [Bool.and_eq_true, decide_eq_true_eq] at hprop
    have hmem : rule ∈ q₀.rules := mem_rules.2 ⟨i, t, ht, hrule⟩
    have hadd := hI.addRule (some rule) false { ofm with fm := { ofm.fm with modifyCookie := true } } h hversion hi
      hdecoded.conjunctions rfl ⟨hc, htarget⟩ rfl fun new hnew htable hmatch hpriority => .replace hnew hmem (.inl (by rw [← hversion]; exact hprop.2))
        (htable.trans ((hI.tidy h).home ht rule hrule).symm) (hmatch.trans hprop.1.1.symm) (hpriority.trans hprop.1.2.symm)
    refine hadd.mono ?_
    rintro s (⟨e, rfl, -⟩ | ⟨q', new, rfl, hnext, hq'⟩)
    · exact .inl h
    · refine hrecord rfl rfl (by simp [hdecoded.deleteReason]) ?_ hnext hq'
      simp [*]
  · next hfind =>
    split
    · exact .inl h
    split
    · next hfull =>
      split
      · exact .inl h
      next id hchoose =>
      -- a rule of the table's eviction groups makes room
      obtain ⟨heviction, hgroup⟩ : t.eviction = true ∧ id ∈ t.evictable := by
        unfold chooseRuleToEvict at hchoose
        split at hchoose
        · next heviction => exact ⟨heviction, mem_of_getElem? hchoose⟩
        · cases hchoose
      obtain ⟨old, hold, rfl, htable⟩ := hI.groups h ht id hgroup
      rw [(hI.tidy h).rule hold, Except.ok_bind, evictionGroupRemove_eq (hI.tidy h) hold]
      have hadd := hI.addRule (some old) true { ofm with fm := { ofm.fm with deleteReason := .eviction } } h
        hversion hi hdecoded.conjunctions rfl ⟨hc, htarget⟩ rfl fun new hnew hnewTable hmatch hpriority =>
          .evict hnew hold (htable.trans hnewTable.symm) (by rw [hnewTable]; exact ht) heviction hgroup hfull
            (by rw [hmatch, hpriority, ← hversion]; exact hfind)
      refine hadd.mono ?_
      rintro s (⟨e, rfl, hrefused⟩ | ⟨q', new, rfl, hnext, hq'⟩)
      · refine .inr ⟨old, ⟨hold, ⟨hc, by rw [htable]; exact htarget⟩, t, by rw [htable]; exact ht, heviction, hgroup, hfull, ?_⟩,
          rfl⟩
        simp [*]
      · refine hrecord rfl rfl rfl ?_ hnext hq'
        simp [*]
    · next hroom =>
      have hadd := hI.addRule none false ofm h hversion hi
        hdecoded.conjunctions rfl ⟨hc, htarget⟩ rfl fun new hnew htable hmatch hpriority => .add hnew (by rw [htable]; exact ht) hroom
          (by rw [hmatch, hpriority, ← hversion]; exact hfind)
      refine hadd.mono ?_
      rintro s (⟨e, rfl, -⟩ | ⟨q', new, rfl, hnext, hq'⟩)
      · exact .inl h
      · exact hrecord rfl rfl rfl (by simp) hnext hq'

theorem KeptByChanges.addFlowStart (ofm : OfprotoFlowMod M) (h : I q₀ cs) (hfm : ofm.fm = fm) (hversion : ofm.version = version)
    (hdecoded : ofm.fm.Decoded) (hc : ofm.fm.command = .add ∨ ofm.fm.command.modifies)
    (hchoose : ∀ i, addTable env q₀ ofm.fm = .ok i → i < q₀.tables.length ∨ E .assertFailed) :
    (FlowTable.addFlowStart env q₀ ofm).Meets E (StartedWith env I q₀ cs ofm) := by
  unfold FlowTable.addFlowStart
  dsimp only
  split
  · exact .inl h
  next i hi =>
  split
  · next hnone =>
    have hlen := List.getElem?_eq_none_iff.1 hnone
    exact (hchoose i hi).resolve_left (by omega)
  next t ht =>
  split
  · exact .inl h
  · split
    · exact .inl h
    · exact hI.addFlowTo h hfm hversion hdecoded hc hi ht

/-! ## Modifying and deleting -/

/-- A rule created to replace another one. -/
structure Replaces (fm : FlowMod M) (old new : Rule M) : Prop where
  removed : new.removed = true
  actions : new.actions = fm.ofpacts
  tableId : new.tableId = old.tableId
  mtch : new.mtch = old.mtch
  priority : new.priority = old.priority

omit [DecidableEq M] hI in
theorem createAll_spec {fm : FlowMod M} : ∀ {q q' : Ofproto M} {olds news : List (Rule M)},
    createAll env fm q olds = .ok (q', news) → q' = { q with nextId := q.nextId + olds.length } ∧
      List.Forall₂ (Replaces fm) olds news ∧ news.map Rule.id = List.range' q.nextId olds.length
  | q, q', [], news, h => by
    cases h
    exact ⟨rfl, .nil, rfl⟩
  | q, q', old :: olds, news, h => by
    obtain ⟨⟨q₁, new⟩, h₁, h⟩ := Except.bind_eq_ok h
    obtain ⟨⟨q₂, news'⟩, h₂, h⟩ := Except.bind_eq_ok h
    cases h
    rcases replaceRuleCreate_cases env q fm old.mtch old.priority old.tableId (some old) with hc | hc
    · obtain ⟨e, he⟩ := replaceRuleCreate_refused hc
      simp_all
    rw [hc] at h₁
    cases h₁
    have hfields := newRule_fields q.nextId fm old.mtch old.priority old.tableId (some old)
    obtain ⟨rfl, hforall, hids⟩ := createAll_spec h₂
    refine ⟨?_, .cons ⟨hfields.removed, hfields.actions, hfields.tableId, hfields.mtch, hfields.priority⟩ hforall, ?_⟩
    · grind
    · rw [map_cons, hids, hfields.id, length_cons, List.range'_succ]

theorem KeptByChanges.replaceAll (conjs : List ClsConjunction) : ∀ {q : Ofproto M} {cs : List (Change M)}
    {olds news : List (Rule M)}, I q cs → (∀ r ∈ olds, r ∈ q.rules ∧ r.kept = true) → (olds.map Rule.id).Nodup →
    List.Forall₂ (Replaces fm) olds news → (news.map Rule.id).Nodup →
    (∀ n ∈ news, (∀ r ∈ q.rules, r.id ≠ n.id) ∧ n.id < q.nextId) →
    (FlowTable.replaceAll version conjs q olds news).Meets E fun q' =>
      I q' ((List.zipWith (fun old new => ⟨some old, some new, false⟩) olds news).reverse ++ cs)
  | q, cs, [], [], h, _, _, _, _, _ => h
  | q, cs, old :: olds, new :: news, h, hold, hnodup, hforall, hnews, hfresh => by
    cases hforall with
    | cons hreplaces hforall =>
    obtain ⟨hmem, hkept⟩ := hold old mem_cons_self
    rw [map_cons, nodup_cons] at hnodup hnews
    have hnew : Placeable q new := by
      refine ⟨hreplaces.removed, ?_, (hfresh new mem_cons_self).1, (hfresh new mem_cons_self).2⟩
      rw [hreplaces.tableId]
      exact (hI.tidy h).tableId_lt hmem
    have hready : Ready q version ⟨some old, some new, false⟩ :=
      .replace hnew hmem (.inr hkept) hreplaces.tableId hreplaces.mtch hreplaces.priority
    have hmade : Change.MadeBy env q₀ fm q ⟨some old, some new, false⟩ := by
      refine ⟨?_, fun hadds => by cases hadds⟩
      rintro n ⟨⟩
      exact hreplaces.actions
    have hplace := hI.place h hready hmade conjs
    refine hplace.bind ?_
    rintro q' ⟨rfl, hq'⟩
    have hrules : ∀ {r}, r ∈ (Change.apply q version conjs ⟨some old, some new, false⟩).rules ↔
        (∃ r₀ ∈ q.rules, r₀.mark (some old.id) (some version) = r) ∨ r = new.entered version conjs :=
      mem_rules_placed hnew.tableId
    have hrest := KeptByChanges.replaceAll conjs hq' (fun r hr => ?_) hnodup.2 hforall hnews.2 (fun n hn => ?_)
    · simp [*]
    · obtain ⟨hr', hk⟩ := hold r (mem_cons_of_mem _ hr)
      have hne : r.id ≠ old.id := fun heq => hnodup.1 (heq ▸ mem_map_of_mem hr)
      refine ⟨hrules.2 (.inl ⟨r, hr', ?_⟩), hk⟩
      rw [Rule.mark, if_neg (by simpa using hne.symm)]
    · obtain ⟨hid, hlt⟩ := hfresh n (mem_cons_of_mem _ hn)
      refine ⟨fun r hr => ?_, hlt⟩
      rcases hrules.1 hr with ⟨r₀, hr₀, rfl⟩ | rfl
      · simp [*]
      · exact fun heq => hnews.1 (mem_map.2 ⟨n, hn, heq.symm⟩)

theorem KeptByChanges.nextId_add (h : I q cs) : ∀ n, I { q with nextId := q.nextId + n } cs
  | 0 => h
  | n + 1 => hI.nextId (KeptByChanges.nextId_add h n)

theorem KeptByChanges.modifyFlowsStart {rules : List (Rule M)} (h : I q₀ cs) (hfm : ofm.fm = fm)
    (hversion : ofm.version = version) (hdecoded : ofm.fm.Decoded) (hc : ofm.fm.command.modifies)
    (hselected : selectedRules env q₀ ofm.fm = .ok rules)
    (hchoose : ∀ i, addTable env q₀ ofm.fm = .ok i → i < q₀.tables.length ∨ E .assertFailed) :
    (FlowTable.modifyFlowsStart env q₀ ofm rules).Meets E (StartedWith env I q₀ cs ofm) := by
  subst hfm
  have hnoadd : ofm.fm.command ≠ .add := by rcases hc with hc | hc <;> rw [hc] <;> decide
  have hchanges : ∀ olds news : List Nat, ({ ofm with oldRules := olds, newRules := news, stub := none } :
      OfprotoFlowMod M).changes = (olds.zip news).map fun r => ⟨some r.1, some r.2, false⟩ := by
    intro olds news
    unfold OfprotoFlowMod.changes
    rcases hc with hc | hc <;> rw [hc] <;> rfl
  unfold FlowTable.modifyFlowsStart
  split
  · split
    · exact .inl h
    next q₁ news hnews =>
    obtain ⟨rfl, hforall, hids⟩ := createAll_spec hnews
    obtain ⟨conjs, hconjs⟩ := hdecoded.conjunctions
    rw [hconjs]
    subst hversion
    have hsub := selectedRules_sublist hselected
    have hnodup : (rules.map Rule.id).Nodup :=
      (hI.tidy h).nodup_ids.sublist ((hsub.trans filter_sublist).map _)
    have hall := hI.replaceAll conjs (hI.nextId_add h rules.length) (fun r hr => mem_filter.1 (hsub.subset hr)) hnodup
      hforall (by rw [hids]; exact nodup_range') (fun n hn => ?_)
    · refine hall.bind fun q' hq' => ?_
      refine ⟨fun hadd => absurd hadd hnoadd, rfl, _, ?_, fun d hd => ?_, hq'⟩
      · rw [hchanges]
        simp [List.zip, Change.ids]
      · rw [← map_uncurry_zip_eq_zipWith] at hd
        obtain ⟨⟨old, new⟩, hpair, rfl⟩ := mem_map.1 hd
        obtain ⟨hold, hnew⟩ := of_mem_zip hpair
        constructor
        · rintro r ⟨⟩
          exact (hI.tidy h).fresh _ (mem_filter.1 (hsub.subset hold)).1
        · rintro r ⟨⟩
          have hmem : new.id ∈ List.range' q₀.nextId rules.length := hids ▸ mem_map_of_mem hnew
          exact (mem_range'_1.1 hmem).1
    · have hmem : n.id ∈ List.range' q₀.nextId rules.length := hids ▸ mem_map_of_mem hn
      have hrange := mem_range'_1.1 hmem
      refine ⟨fun r hr => ?_, hrange.2⟩
      have hlt := (hI.tidy h).fresh r hr
      omega
  · split
    · exact hI.addFlowStart { ofm with oldRules := [], newRules := [] } h rfl hversion hdecoded (.inr hc) hchoose
    · exact ⟨fun hadd => absurd hadd hnoadd, rfl, [], hchanges [] [], forall_mem_nil _, h⟩

omit [DecidableEq M] hI in
/-- Marking one selected rule leaves the others of the selection as they were. -/
theorem mem_rules_deleted {q : Ofproto M} {r : Rule M} {rules : List (Rule M)}
    (hrules : ∀ x ∈ r :: rules, x ∈ q.rules ∧ x.kept = true) (hnot : r.id ∉ rules.map Rule.id) :
    ∀ x ∈ rules, x ∈ (deleted q version r).rules ∧ x.kept = true := by
  intro x hx
  obtain ⟨hmem, hkept⟩ := hrules x (mem_cons_of_mem _ hx)
  have hne : x.id ≠ r.id := fun heq => hnot (heq ▸ mem_map_of_mem hx)
  refine ⟨(ruleWise_deleted version r).mem_rules.2 ⟨x, hmem, ?_⟩, hkept⟩
  rw [Rule.mark, if_neg (by simpa using hne.symm)]

theorem KeptByChanges.deleteFlowsStart : ∀ {q : Ofproto M} {cs : List (Change M)} {rules : List (Rule M)}, I q cs →
    (∀ r ∈ rules, r ∈ q.rules ∧ r.kept = true) → (rules.map Rule.id).Nodup →
    (FlowTable.deleteFlowsStart q version (rules.map Rule.id)).Meets E fun q' =>
      I q' ((rules.map fun r => ⟨some r, none, false⟩).reverse ++ cs)
  | q, cs, [], h, _, _ => h
  | q, cs, r :: rules, h, hrules, hnodup => by
    obtain ⟨hmem, hkept⟩ := hrules r mem_cons_self
    rw [map_cons, nodup_cons] at hnodup
    show Except.Meets E _ (List.foldlM _ q (r.id :: rules.map Rule.id))
    rw [foldlM_cons, deleteFlowStart_eq (hI.tidy h) hmem (hI.versions h r hmem)]
    have hmade : Change.MadeBy env q₀ fm q ⟨some r, none, false⟩ := ⟨by simp, fun hadds => by cases hadds⟩
    have hrest := KeptByChanges.deleteFlowsStart (hI.change h (.delete hmem hkept) hmade [])
      (mem_rules_deleted hrules hnodup.1) hnodup.2
    rw [map_cons, reverse_cons, append_assoc]
    exact hrest

theorem KeptByChanges.deleteSelected {rules : List (Rule M)} (h : I q₀ cs)
    (hversion : ofm.version = version) (hc : ofm.fm.command.deletes)
    (hselected : selectedRules env q₀ ofm.fm = .ok rules) :
    (FlowTable.deleteSelected q₀ ofm rules).Meets E (StartedWith env I q₀ cs ofm) := by
  have hsub := selectedRules_sublist hselected
  have hnodup : (rules.map Rule.id).Nodup :=
    (hI.tidy h).nodup_ids.sublist ((hsub.trans filter_sublist).map _)
  subst hversion
  refine (hI.deleteFlowsStart h (fun r hr => mem_filter.1 (hsub.subset hr)) hnodup).bind fun q' hq' => ?_
  refine ⟨fun hadd => ?_, rfl, _, ?_, fun d hd => ?_, hq'⟩
  · rcases hc with hc | hc <;> exact absurd (hc.symm.trans hadd) (by decide)
  · unfold OfprotoFlowMod.changes
    rcases hc with hc | hc
    · simp only [hc, map_map]
      rfl
    · simp only [hc, map_map]
      rfl
  · obtain ⟨r, hr, rfl⟩ := mem_map.1 hd
    refine ⟨?_, by simp⟩
    rintro r' ⟨⟩
    exact (hI.tidy h).fresh _ (mem_filter.1 (hsub.subset hr)).1

/-- The start phase of a flow-mod keeps what its changes keep. -/
theorem KeptByChanges.start (ofm : OfprotoFlowMod M) (h : I q₀ cs) (hfm : ofm.fm = fm) (hversion : ofm.version = version)
    (hdecoded : ofm.fm.Decoded)
    (hchoose : ∀ i, addTable env q₀ ofm.fm = .ok i → i < q₀.tables.length ∨ E .assertFailed) :
    (ofprotoFlowModStart env q₀ ofm).Meets E (StartedWith env I q₀ cs ofm) := by
  rcases ofm.fm.command.kind with hc | hc | hc | ⟨code, hc⟩
  · unfold ofprotoFlowModStart
    rw [hc]
    exact hI.addFlowStart ofm h hfm hversion hdecoded (.inl hc) hchoose
  · rw [start_modify hc]
    split
    · exact .inl h
    · next rules hrules => exact hI.modifyFlowsStart h hfm hversion hdecoded hc hrules hchoose
  · rw [start_delete hc]
    split
    · exact .inl h
    · next rules hrules => exact hI.deleteSelected h hversion hc hrules
  · unfold ofprotoFlowModStart
    rw [hc]
    exact .inl h

end

end LinkerOvs.FlowTable
