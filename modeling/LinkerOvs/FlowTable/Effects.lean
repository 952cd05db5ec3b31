/-
What the phases of a flow-mod do to the tables, as plain updates. In a state where every rule has one
address and stands in its own table, placing a rule, hiding one and taking a placed one back never fail,
except that a rule cannot be placed beside an identical one that nothing has removed.
-/
import LinkerOvs.FlowTable.Bundle

namespace LinkerOvs.FlowTable

open Cls Ofp List

variable {M : Type} {p : Ofproto M}

/-! ## Updates of all tables -/

/-- The tables changed one by one, with the rules in the cookie index and in the list of those that expire. -/
def Ofproto.update (p : Ofproto M) (f : Nat → OfTable M → OfTable M) (cookies expirable : List Nat) : Ofproto M :=
  { p with tables := p.tables.mapIdx f, cookies := cookies, expirable := expirable }

section

variable (f g : Nat → OfTable M → OfTable M) (c e c' e' : List Nat)

@[simp] theorem getElem?_update (j : Nat) : (p.update f c e).tables[j]? = (p.tables[j]?).map (f j) :=
  getElem?_mapIdx

variable {f} in
theorem table_update {l : List (OfTable M)} {j : Nat} {t : OfTable M} (h : (l.mapIdx f)[j]? = some t) :
    ∃ t₀, l[j]? = some t₀ ∧ f j t₀ = t := by
  rw [getElem?_mapIdx] at h
  exact Option.map_eq_some_iff.1 h

variable {f} in
theorem mem_tables_update {l : List (OfTable M)} {t : OfTable M} (h : t ∈ l.mapIdx f) :
    ∃ j t₀, l[j]? = some t₀ ∧ f j t₀ = t := by
  grind

@[simp] theorem length_update : (p.update f c e).tables.length = p.tables.length := length_mapIdx

theorem update_congr {f g : Nat → OfTable M → OfTable M} (h : ∀ j t, p.tables[j]? = some t → f j t = g j t) :
    p.update f c e = p.update g c e := by
  unfold Ofproto.update
  congr 1
  refine ext_getElem? fun j => ?_
  grind

theorem update_self {f : Nat → OfTable M → OfTable M} (h : ∀ j t, p.tables[j]? = some t → f j t = t) :
    p.update f p.cookies p.expirable = p := by
  have hsame : p.tables.mapIdx f = p.tables := by
    refine ext_getElem? fun j => ?_
    grind
  rw [Ofproto.update, hsame]

theorem update_update : (p.update f c e).update g c' e' = p.update (fun j t => g j (f j t)) c' e' := by
  unfold Ofproto.update
  congr 1
  exact mapIdx_mapIdx

end

variable {i version : Nat} {r new : Rule M}

theorem modifyTable_eq (f : OfTable M → OfTable M) (hi : i < p.tables.length) :
    p.modifyTable i f = .ok (p.update (fun j t => if j = i then f t else t) p.cookies p.expirable) := by
  rw [Ofproto.modifyTable, if_pos hi]
  congr 2
  refine ext_getElem? fun j => ?_
  grind

theorem modifyRule_eq (p : Ofproto M) (id : Nat) (f : Rule M → Rule M) :
    p.modifyRule id f = p.update (fun _ t => { t with cls := t.cls.map fun r => if r.id = id then f r else r })
      p.cookies p.expirable := by
  unfold Ofproto.modifyRule Ofproto.update
  congr 1
  refine ext_getElem? fun j => ?_
  rw [getElem?_map, getElem?_mapIdx]

theorem mem_rules : r ∈ p.rules ↔ ∃ (j : Nat) (t : OfTable M), p.tables[j]? = some t ∧ r ∈ t.cls := by
  rw [Ofproto.rules, mem_flatMap]
  constructor
  · rintro ⟨t, ht, hr⟩
    obtain ⟨j, hj⟩ := mem_iff_getElem?.1 ht
    exact ⟨j, t, hj, hr⟩
  · grind

/-- Every rule has one address, below the next one, and stands in its own table. -/
structure Tidy (p : Ofproto M) : Prop where
  home : ∀ {j : Nat} {t : OfTable M}, p.tables[j]? = some t → ∀ r ∈ t.cls, r.tableId = j
  nodup : ∀ {j : Nat} {t : OfTable M}, p.tables[j]? = some t → (t.cls.map Rule.id).Nodup
  unique : ∀ r ∈ p.rules, ∀ r' ∈ p.rules, r.id = r'.id → r = r'
  fresh : ∀ r ∈ p.rules, r.id < p.nextId

theorem Tidy.of_tables {p' : Ofproto M} (h : Tidy p) (htables : p'.tables = p.tables) (hnext : p.nextId ≤ p'.nextId) :
    Tidy p' := by
  have hrules : p'.rules = p.rules := by rw [Ofproto.rules, htables, Ofproto.rules]
  refine ⟨fun {j t} hj => h.home (htables ▸ hj), fun {j t} hj => h.nodup (htables ▸ hj), ?_, ?_⟩
  · rw [hrules]
    exact h.unique
  · rw [hrules]
    exact fun r hr => (h.fresh r hr).trans_le hnext

theorem Tidy.rule (h : Tidy p) (hr : r ∈ p.rules) : p.rule r.id = .ok r := by
  rw [Ofproto.rule]
  split
  · next r' hfind =>
    have hid : r'.id = r.id := by simpa using find?_some hfind
    rw [h.unique r' (mem_of_find?_eq_some hfind) r hr hid]
  · next hfind => simpa using find?_eq_none.1 hfind r hr

theorem Tidy.table (h : Tidy p) (hr : r ∈ p.rules) : ∃ t, p.tables[r.tableId]? = some t ∧ r ∈ t.cls := by
  obtain ⟨j, t, hj, hmem⟩ := mem_rules.1 hr
  rw [h.home hj r hmem]
  exact ⟨t, hj, hmem⟩

theorem Tidy.tableId_lt (h : Tidy p) (hr : r ∈ p.rules) : r.tableId < p.tables.length := by
  obtain ⟨t, ht, -⟩ := h.table hr
  exact (List.getElem?_eq_some_iff.1 ht).1

/-- An update that changes rules, in every table, by a function that keeps their address and table. -/
structure RuleWise (g : Rule M → Rule M) (f : Nat → OfTable M → OfTable M) : Prop where
  cls : ∀ j t, (f j t).cls = t.cls.map g
  id : ∀ r, (g r).id = r.id
  tableId : ∀ r, (g r).tableId = r.tableId

section

variable {g : Rule M → Rule M} {f : Nat → OfTable M → OfTable M}

/-- The rules after an update that changes them in every table and keeps those of some addresses. -/
theorem mem_rules_update {k : Nat → Bool} (hf : ∀ j t, (f j t).cls = (t.cls.map g).filter fun r => k r.id)
    (hid : ∀ r, (g r).id = r.id) {c e : List Nat} {r : Rule M} :
    r ∈ (p.update f c e).rules ↔ ∃ r₀ ∈ p.rules, k r₀.id ∧ g r₀ = r := by
  rw [mem_rules]
  constructor
  · rintro ⟨j, t, hj, hr⟩
    obtain ⟨t₀, hj₀, rfl⟩ := table_update hj
    rw [hf] at hr
    obtain ⟨hr, hkeep⟩ := mem_filter.1 hr
    obtain ⟨r₀, hr₀, rfl⟩ := mem_map.1 hr
    exact ⟨r₀, mem_rules.2 ⟨j, t₀, hj₀, hr₀⟩, hid r₀ ▸ hkeep, rfl⟩
  · rintro ⟨r₀, hr₀, hkeep, rfl⟩
    obtain ⟨j, t, hj, hmem⟩ := mem_rules.1 hr₀
    refine ⟨j, f j t, by rw [getElem?_update, hj]; rfl, ?_⟩
    grind

theorem Tidy.update_keep (h : Tidy p) {k : Nat → Bool}
    (hf : ∀ j t, (f j t).cls = (t.cls.map g).filter fun r => k r.id) (hid : ∀ r, (g r).id = r.id)
    (htable : ∀ r, (g r).tableId = r.tableId) (c e : List Nat) : Tidy (p.update f c e) := by
  constructor
  · intro j t hj r hr
    obtain ⟨t₀, hj₀, rfl⟩ := table_update hj
    rw [hf] at hr
    obtain ⟨r₀, hr₀, rfl⟩ := mem_map.1 (mem_filter.1 hr).1
    rw [htable, h.home hj₀ r₀ hr₀]
  · intro j t hj
    obtain ⟨t₀, hj₀, rfl⟩ := table_update hj
    have hids : (t₀.cls.map g).map Rule.id = t₀.cls.map Rule.id := by
      simp [*]
    have hnodup := h.nodup hj₀
    grind
  · intro r hr r' hr' heq
    obtain ⟨r₀, hr₀, -, rfl⟩ := (mem_rules_update hf hid).1 hr
    obtain ⟨r₁, hr₁, -, rfl⟩ := (mem_rules_update hf hid).1 hr'
    rw [hid, hid] at heq
    rw [h.unique r₀ hr₀ r₁ hr₁ heq]
  · intro r hr
    obtain ⟨r₀, hr₀, -, rfl⟩ := (mem_rules_update hf hid).1 hr
    rw [hid]
    exact h.fresh r₀ hr₀

theorem RuleWise.cls_filter (h : RuleWise g f) (j : Nat) (t : OfTable M) :
    (f j t).cls = (t.cls.map g).filter fun _ => true := by
  rw [h.cls, filter_true]

theorem RuleWise.mem_rules (h : RuleWise g f) {c e : List Nat} {r : Rule M} :
    r ∈ (p.update f c e).rules ↔ ∃ r₀ ∈ p.rules, g r₀ = r := by
  simpa using mem_rules_update (k := fun _ => true) h.cls_filter h.id

theorem Tidy.update (ht : Tidy p) (h : RuleWise g f) (c e : List Nat) : Tidy (p.update f c e) :=
  ht.update_keep (k := fun _ => true) h.cls_filter h.id h.tableId c e

theorem ruleWise_id (hf : ∀ j t, (f j t).cls = t.cls) : RuleWise id f :=
  ⟨fun j t => by rw [hf, map_id], fun _ => rfl, fun _ => rfl⟩

end

/-! ## Hiding, placing and taking back -/

/-- The rule with this address gets a version of removal, or none. -/
def Rule.mark (id : Option Nat) (version : Option Nat) (r : Rule M) : Rule M :=
  if id = some r.id then r.setRemoveVersion version else r

@[simp] theorem map_mark_none (version : Option Nat) (l : List (Rule M)) : l.map (Rule.mark none version) = l :=
  map_id l

@[simp] theorem Rule.mark_id (id version : Option Nat) (r : Rule M) : (r.mark id version).id = r.id := by
  unfold Rule.mark; split <;> rfl

@[simp] theorem Rule.mark_tableId (id version : Option Nat) (r : Rule M) : (r.mark id version).tableId = r.tableId := by
  unfold Rule.mark; split <;> rfl

@[simp] theorem Rule.mark_actions (id version : Option Nat) (r : Rule M) : (r.mark id version).actions = r.actions := by
  unfold Rule.mark; split <;> rfl

theorem ruleWise_mark {f : Nat → OfTable M → OfTable M} {id version : Option Nat}
    (hf : ∀ j t, (f j t).cls = t.cls.map (Rule.mark id version)) : RuleWise (Rule.mark id version) f :=
  ⟨hf, Rule.mark_id id version, Rule.mark_tableId id version⟩

theorem mark_some (id : Nat) (version : Option Nat) :
    (Rule.mark (some id) version : Rule M → Rule M) = fun r => if r.id = id then r.setRemoveVersion version else r := by
  funext r
  simp only [Rule.mark, Option.some.injEq, eq_comm]

/-- The rule as `replace_rule_start` puts it into its table. -/
def Rule.entered (new : Rule M) (version : Nat) (conjs : List ClsConjunction) : Rule M :=
  { new with versions := ⟨version, none⟩, conjs := conjs, removed := false }

/-- The tables after `replace_rule_start`. -/
def placed (p : Ofproto M) (version : Nat) (old : Option Nat) (new : Rule M) (conjs : List ClsConjunction) : Ofproto M :=
  p.update
    (fun j t =>
      if j = new.tableId then
        { t with
          cls := t.cls.map (Rule.mark old (some version)) ++ [new.entered version conjs]
          nFlows := if old.isNone then t.nFlows + 1 else t.nFlows
          evictable := if t.eviction && hasTimeout new then new.id :: t.evictable else t.evictable }
      else { t with cls := t.cls.map (Rule.mark old (some version)) })
    (new.id :: p.cookies) (if hasTimeout new then new.id :: p.expirable else p.expirable)

/-- An identical rule is in the table, and nothing removed it. -/
def Clashes [DecidableEq M] (p : Ofproto M) (version : Nat) (old : Option Nat) (new : Rule M) : Bool :=
  (p.tables[new.tableId]?).any fun t =>
    (findRuleExactly (t.cls.map (Rule.mark old (some version))) new.mtch new.priority none).isSome

theorem makeInvisible_eq (h : Tidy p) (hr : r ∈ p.rules)
    (hversion : r.versions.addVersion ≤ version) : makeInvisibleInVersion p r.id version =
      .ok (p.update (fun _ t => { t with cls := t.cls.map (Rule.mark (some r.id) (some version)) })
        p.cookies p.expirable) := by
  rw [makeInvisibleInVersion, h.rule hr, Except.ok_bind, if_pos hversion, modifyRule_eq, mark_some]

theorem makeRoom_eq (h : Tidy p) (hi : i < p.tables.length) {old : Option Nat}
    (hold : ∀ id ∈ old, ∃ r ∈ p.rules, r.id = id ∧ r.versions.addVersion ≤ version) :
    makeRoom p version i old = .ok (p.update (fun j t =>
      { t with
        cls := t.cls.map (Rule.mark old (some version))
        nFlows := if j = i ∧ old.isNone then t.nFlows + 1 else t.nFlows }) p.cookies p.expirable) := by
  cases old with
  | none =>
    rw [makeRoom, modifyTable_eq _ hi]
    congr 2
    funext j t
    by_cases hj : j = i
    · simp [hj]
    · simp [hj]
  | some id =>
    obtain ⟨r, hr, rfl, hversion⟩ := hold id rfl
    rw [makeRoom, makeInvisible_eq h hr hversion]
    simp

theorem ruleInsert_eq (hnew : new.removed = true) (hi : new.tableId < p.tables.length) :
    ofprotoRuleInsert p new = .ok (p.update (fun j t => if j = new.tableId then
            { t with evictable := if t.eviction && hasTimeout new then new.id :: t.evictable else t.evictable }
          else t) (new.id :: p.cookies) (if hasTimeout new then new.id :: p.expirable else p.expirable),
        { new with removed := false }) := by
  unfold ofprotoRuleInsert evictionGroupAddRule
  dsimp only
  rw [hnew, modifyTable_eq _ (by exact hi)]
  show Except.ok (p.update _ _ _, _) = _
  congr 3
  funext j t
  by_cases hj : j = new.tableId
  · simp only [hj, if_true]
    split <;> simp_all
  · simp only [hj, if_false]

theorem replaceRuleStart_eq [DecidableEq M] (h : Tidy p) (hnew : new.removed = true)
    (hi : new.tableId < p.tables.length) {old : Option Nat}
    (hold : ∀ id ∈ old, ∃ r ∈ p.rules, r.id = id ∧ r.versions.addVersion ≤ version) (conjs : List ClsConjunction) :
    replaceRuleStart p version old new conjs =
      if Clashes p version old new then .error .assertFailed else .ok (placed p version old new conjs) := by
  rw [replaceRuleStart, makeRoom_eq h hi hold, Except.ok_bind, ruleInsert_eq hnew (by simpa using hi), Except.ok_bind,
    update_update]
  unfold classifierInsert
  dsimp only
  rw [getElem?_update, Option.any_map]
  simp only [if_true]
  change (if Clashes p version old new = true then _ else _) = _
  split
  · rfl
  rw [modifyTable_eq _ (by simpa using hi), update_update]
  congr 2
  funext j t
  by_cases hj : j = new.tableId
  · simp [hj, Rule.entered]
  · simp [hj]

theorem mem_rules_placed {old : Option Nat} {conjs : List ClsConjunction}
    (hi : new.tableId < p.tables.length) : r ∈ (placed p version old new conjs).rules ↔
      (∃ r₀ ∈ p.rules, r₀.mark old (some version) = r) ∨ r = new.entered version conjs := by
  rw [mem_rules]
  constructor
  · rintro ⟨j, t, hj, hr⟩
    obtain ⟨t₀, hj₀, rfl⟩ := table_update hj
    have hold : ∀ {r}, r ∈ t₀.cls.map (Rule.mark old (some version)) → ∃ r₀ ∈ p.rules, r₀.mark old (some version) = r := by
      intro r hr
      obtain ⟨r₀, hr₀, rfl⟩ := mem_map.1 hr
      exact ⟨r₀, mem_rules.2 ⟨j, t₀, hj₀, hr₀⟩, rfl⟩
    grind
  · rintro (⟨r₀, hr₀, rfl⟩ | rfl)
    · obtain ⟨j, t, hj, hmem⟩ := mem_rules.1 hr₀
      refine ⟨j, _, by rw [placed, getElem?_update, hj]; rfl, ?_⟩
      grind
    · obtain ⟨t, ht⟩ : ∃ t, p.tables[new.tableId]? = some t := ⟨_, getElem?_eq_getElem hi⟩
      refine ⟨new.tableId, _, by rw [placed, getElem?_update, ht]; rfl, ?_⟩
      simp

theorem Tidy.placed (h : Tidy p) {old : Option Nat} {conjs : List ClsConjunction}
    (hi : new.tableId < p.tables.length) (hid : ∀ r ∈ p.rules, r.id ≠ new.id) (hlt : new.id < p.nextId) :
    Tidy (FlowTable.placed p version old new conjs) := by
  have hids : ∀ t : OfTable M, (t.cls.map (Rule.mark old (some version))).map Rule.id = t.cls.map Rule.id := by
    simp
  constructor
  · intro j t hj r hr
    obtain ⟨t₀, hj₀, rfl⟩ := table_update hj
    have hold : ∀ r ∈ t₀.cls.map (Rule.mark old (some version)), r.tableId = j := by
      intro r hr
      obtain ⟨r₀, hr₀, rfl⟩ := mem_map.1 hr
      rw [Rule.mark_tableId, h.home hj₀ r₀ hr₀]
    split at hr
    · next hnew =>
      rcases mem_append.1 hr with hr | hr
      · exact hold r hr
      · cases mem_singleton.1 hr
        exact hnew.symm
    · exact hold r hr
  · intro j t hj
    obtain ⟨t₀, hj₀, rfl⟩ := table_update hj
    split
    · rw [map_append, hids]
      refine (h.nodup hj₀).append (nodup_singleton _) ?_
      intro x hx hx'
      obtain ⟨r, hr, rfl⟩ := mem_map.1 hx
      exact hid r (mem_rules.2 ⟨j, t₀, hj₀, hr⟩) (mem_singleton.1 hx')
    · rw [hids]
      exact h.nodup hj₀
  · intro r hr r' hr' heq
    rcases (mem_rules_placed hi).1 hr with ⟨r₀, hr₀, rfl⟩ | rfl <;>
      rcases (mem_rules_placed hi).1 hr' with ⟨r₁, hr₁, rfl⟩ | rfl
    · rw [Rule.mark_id, Rule.mark_id] at heq
      rw [h.unique r₀ hr₀ r₁ hr₁ heq]
    · rw [Rule.mark_id] at heq
      exact absurd heq (hid r₀ hr₀)
    · rw [Rule.mark_id] at heq
      exact absurd heq.symm (hid r₁ hr₁)
    · rfl
  · intro r hr
    rcases (mem_rules_placed hi).1 hr with ⟨r₀, hr₀, rfl⟩ | rfl
    · rw [Rule.mark_id]
      exact h.fresh r₀ hr₀
    · exact hlt

/-- The tables after one rule was marked by `delete_flows_start__`. -/
def deleted (p : Ofproto M) (version : Nat) (r : Rule M) : Ofproto M :=
  p.update
    (fun j t =>
      { t with
        cls := t.cls.map (Rule.mark (some r.id) (some version))
        nFlows := if j = r.tableId then t.nFlows - 1 else t.nFlows })
    p.cookies p.expirable

theorem ruleWise_deleted (version : Nat) (r : Rule M) : RuleWise (Rule.mark (some r.id) (some version))
    fun j (t : OfTable M) => { t with
      cls := t.cls.map (Rule.mark (some r.id) (some version))
      nFlows := if j = r.tableId then t.nFlows - 1 else t.nFlows } :=
  ruleWise_mark fun _ _ => rfl

theorem Tidy.deleted (h : Tidy p) (version : Nat) (r : Rule M) : Tidy (FlowTable.deleted p version r) :=
  h.update (ruleWise_deleted version r) _ _

/-- One turn of the loop of `delete_flows_start__`. -/
theorem deleteFlowStart_eq (h : Tidy p) (hr : r ∈ p.rules)
    (hversion : r.versions.addVersion ≤ version) :
    (do
      let r' ← p.rule r.id
      let p' ← p.modifyTable r'.tableId fun t => { t with nFlows := t.nFlows - 1 }
      makeInvisibleInVersion p' r.id version) = .ok (deleted p version r) := by
  rw [h.rule hr, Except.ok_bind, modifyTable_eq _ (h.tableId_lt hr), Except.ok_bind]
  have hwise : RuleWise id fun j (t : OfTable M) => if j = r.tableId then { t with nFlows := t.nFlows - 1 } else t :=
    ruleWise_id fun j t => by split <;> rfl
  have hmem := (hwise.mem_rules (c := p.cookies) (e := p.expirable)).2 ⟨r, hr, rfl⟩
  rw [id_eq] at hmem
  rw [makeInvisible_eq (h.update hwise _ _) hmem hversion, update_update]
  congr 2
  grind

/-- The rule is in no eviction group any more. -/
def evictOut (p : Ofproto M) (r : Rule M) : Ofproto M :=
  p.update (fun j t => if j = r.tableId then { t with evictable := t.evictable.erase r.id } else t) p.cookies p.expirable

/-- The rule is in an eviction group if its table has them and the rule has a timeout. -/
def evictIn (p : Ofproto M) (r : Rule M) : Ofproto M :=
  p.update
    (fun j t => if j = r.tableId ∧ t.eviction && hasTimeout r then { t with evictable := r.id :: t.evictable } else t)
    p.cookies p.expirable

theorem evictionGroupRemove_eq (h : Tidy p) (hr : r ∈ p.rules) : evictionGroupRemoveRule p r = .ok (evictOut p r) :=
  modifyTable_eq _ (h.tableId_lt hr)

theorem evictionGroupAdd_eq (h : Tidy p) (hr : r ∈ p.rules) : evictionGroupAddRule p r = .ok (evictIn p r) := by
  rw [evictionGroupAddRule, modifyTable_eq _ (h.tableId_lt hr)]
  congr 2
  grind

theorem ruleWise_evictOut (r : Rule M) : RuleWise id fun j (t : OfTable M) =>
    if j = r.tableId then { t with evictable := t.evictable.erase r.id } else t :=
  ruleWise_id fun j t => by split <;> rfl

theorem ruleWise_evictIn (r : Rule M) : RuleWise id fun j (t : OfTable M) =>
    if j = r.tableId ∧ t.eviction && hasTimeout r then { t with evictable := r.id :: t.evictable } else t :=
  ruleWise_id fun j t => by split <;> rfl

/-! ## Leaving the indexes -/

/-- The rule with this address is out of the indexes. -/
def Rule.retire (id : Nat) (r : Rule M) : Rule M := if r.id = id then { r with removed := true } else r

@[simp] theorem Rule.retire_id (id : Nat) (r : Rule M) : (r.retire id).id = r.id := by
  unfold Rule.retire; split <;> rfl

@[simp] theorem Rule.retire_tableId (id : Nat) (r : Rule M) : (r.retire id).tableId = r.tableId := by
  unfold Rule.retire; split <;> rfl

theorem filter_map_retire (id : Nat) (l : List (Rule M)) :
    (l.map (Rule.retire id)).filter (fun r => r.id ≠ id) = l.filter fun r => r.id ≠ id := by
  induction l with
  | nil => rfl
  | cons r l ih =>
    rw [map_cons, filter_cons, ih]
    by_cases hr : r.id = id
    · simp [hr]
    · simp [hr, Rule.retire]

theorem map_retire_eq_filter {id : Nat} {l : List (Rule M)} (h : ∀ r ∈ l, r.id ≠ id) :
    l.map (Rule.retire id) = l.filter fun r => r.id ≠ id := by
  rw [filter_eq_self.2 fun r hr => by simpa using h r hr]
  conv_rhs => rw [← map_id l]
  exact map_congr_left fun r hr => if_neg (h r hr)

/-- The tables after `ofproto_rule_remove__`. -/
def retired (p : Ofproto M) (r : Rule M) : Ofproto M :=
  p.update
    (fun j t =>
      { t with
        cls := t.cls.map (Rule.retire r.id)
        evictable := if j = r.tableId then t.evictable.erase r.id else t.evictable })
    (p.cookies.erase r.id) (p.expirable.erase r.id)

theorem ruleWise_retired (r : Rule M) : RuleWise (Rule.retire r.id) fun j (t : OfTable M) => { t with
    cls := t.cls.map (Rule.retire r.id)
    evictable := if j = r.tableId then t.evictable.erase r.id else t.evictable } :=
  ⟨fun _ _ => rfl, Rule.retire_id r.id, Rule.retire_tableId r.id⟩

theorem Tidy.retired (h : Tidy p) (r : Rule M) : Tidy (FlowTable.retired p r) := h.update (ruleWise_retired r) _ _

theorem ruleRemove_eq (h : Tidy p) (hr : r ∈ p.rules) (hremoved : r.removed = false) :
    ofprotoRuleRemove p r.id = .ok (retired p r) := by
  rw [ofprotoRuleRemove, h.rule hr, Except.ok_bind, hremoved]
  unfold evictionGroupRemoveRule
  rw [modifyTable_eq _ (by exact h.tableId_lt hr), Except.ok_bind, modifyRule_eq]
  show Except.ok ((p.update _ _ _).update _ _ _) = _
  rw [update_update]
  congr 2
  funext j t
  by_cases hj : j = r.tableId
  · simp [hj, Rule.retire]
  · simp [hj, Rule.retire]

/-- The tables after `replace_rule_revert`. -/
def unplaced (p : Ofproto M) (old : Option Nat) (new : Rule M) : Ofproto M :=
  p.update
    (fun j t =>
      { t with
        cls := (t.cls.map (Rule.mark old none)).filter fun r => r.id ≠ new.id
        nFlows := if j = new.tableId ∧ old.isNone then t.nFlows - 1 else t.nFlows
        evictable := if j = new.tableId then t.evictable.erase new.id else t.evictable })
    (p.cookies.erase new.id) (p.expirable.erase new.id)

theorem giveRoomBack_eq (hi : i < p.tables.length) (old : Option Nat) :
    giveRoomBack p i old = .ok (p.update (fun j t =>
      { t with
        cls := t.cls.map (Rule.mark old none)
        nFlows := if j = i ∧ old.isNone then t.nFlows - 1 else t.nFlows }) p.cookies p.expirable) := by
  cases old with
  | none =>
    rw [giveRoomBack, modifyTable_eq _ hi]
    congr 2
    funext j t
    by_cases hj : j = i
    · simp [hj]
    · simp [hj]
  | some id =>
    rw [giveRoomBack, restoreVisibility, modifyRule_eq, ← mark_some]
    simp

theorem replaceRuleRevert_eq (h : Tidy p) (hnew : new ∈ p.rules) (hremoved : new.removed = false) (old : Option Nat) :
    replaceRuleRevert p old new.id = .ok (unplaced p old new) := by
  have hi := h.tableId_lt hnew
  have hwise : RuleWise (Rule.mark old none) fun j (t : OfTable M) => { t with
      cls := t.cls.map (Rule.mark old none)
      nFlows := if j = new.tableId ∧ old.isNone then t.nFlows - 1 else t.nFlows } := ruleWise_mark fun _ _ => rfl
  have hmem := (hwise.mem_rules (c := p.cookies) (e := p.expirable)).2 ⟨new, hnew, rfl⟩
  have hremoved' : (new.mark old none).removed = false := by
    rw [← hremoved]
    unfold Rule.mark
    split <;> rfl
  have hremove := ruleRemove_eq (h.update hwise _ _) hmem hremoved'
  rw [Rule.mark_id] at hremove
  rw [replaceRuleRevert, h.rule hnew, Except.ok_bind, giveRoomBack_eq hi, Except.ok_bind, hremove, Except.ok_bind,
    classifierRemove, modifyTable_eq _ (by simpa [retired] using hi)]
  unfold retired unplaced
  rw [update_update, update_update]
  simp only [Rule.mark_id, Rule.mark_tableId]
  refine congrArg Except.ok (update_congr _ _ fun j t hj => ?_)
  by_cases hji : j = new.tableId
  · simp only [hji, if_true, filter_map_retire]
  -- the rule is in no other table
  have hother : ∀ r ∈ t.cls.map (Rule.mark old none), r.id ≠ new.id := by
    intro r hr heq
    obtain ⟨r₀, hr₀, rfl⟩ := mem_map.1 hr
    rw [Rule.mark_id] at heq
    have hsame := h.unique r₀ (mem_rules.2 ⟨j, t, hj, hr₀⟩) new hnew heq
    exact hji (by rw [← hsame, h.home hj r₀ hr₀])
  simp only [hji, if_false, map_retire_eq_filter hother]

/-- An update that takes a mark back and drops rules. -/
def Prunes (old : Option Nat) (ids : List Nat) (f : Nat → OfTable M → OfTable M) : Prop :=
  ∀ j t, (f j t).cls = (t.cls.map (Rule.mark old none)).filter fun r => r.id ∉ ids

section

variable {old : Option Nat} {ids : List Nat} {f : Nat → OfTable M → OfTable M}

theorem Prunes.mem_rules (hf : Prunes old ids f) {c e : List Nat} {r : Rule M} :
    r ∈ (p.update f c e).rules ↔ ∃ r₀ ∈ p.rules, r₀.id ∉ ids ∧ r₀.mark old none = r := by
  simpa using mem_rules_update (k := fun id => id ∉ ids) hf (Rule.mark_id old none)

theorem Tidy.prune (h : Tidy p) (hf : Prunes old ids f) (c e : List Nat) : Tidy (p.update f c e) :=
  h.update_keep (k := fun id => id ∉ ids) hf (Rule.mark_id old none) (Rule.mark_tableId old none) c e

end

end LinkerOvs.FlowTable
