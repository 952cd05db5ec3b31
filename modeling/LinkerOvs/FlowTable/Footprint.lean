/-
What the phases of a flow-mod can do to the tables, measured by two numbers: how many rules the
classifiers hold, and how many of them nothing has removed. Starting an add or a modify makes the first
one larger, starting a delete makes the second one smaller, and no finish phase takes that back; so a
flow-mod that is started leaves its mark on the tables.
-/
import LinkerOvs.FlowTable.Bundle

namespace LinkerOvs.FlowTable

open Cls Ofp List
open Except (bind_eq_ok foldlM_keeps)

variable {M : Type} {p p' p'' : Ofproto M}

/-- What the tables hold: their rules, in all versions, and their numbers of flows. -/
def Ofproto.contents (p : Ofproto M) : List (List (Rule M) × UInt32) := p.tables.map fun t => (t.cls, t.nFlows)

/-- The rule has not been removed in any version. -/
def Rule.kept (r : Rule M) : Bool := r.versions.visibleIn none

def Ofproto.keptRules (p : Ofproto M) : Nat := p.rules.countP Rule.kept

/-- The classifiers hold as many rules as before, and no removed rule came back. -/
structure Shrinks (p p' : Ofproto M) : Prop where
  length : p'.rules.length = p.rules.length
  kept : p'.keptRules ≤ p.keptRules

theorem Shrinks.refl (p : Ofproto M) : Shrinks p p := ⟨rfl, le_rfl⟩

theorem Shrinks.trans (h : Shrinks p p') (h' : Shrinks p' p'') : Shrinks p p'' :=
  ⟨h'.length.trans h.length, h'.kept.trans h.kept⟩

theorem Shrinks.of_rules (h : p'.rules = p.rules) : Shrinks p p' :=
  ⟨by rw [h], by unfold Ofproto.keptRules; rw [h]⟩

/-- The change that a started flow-mod leaves. -/
def Marked (p p' : Ofproto M) : Prop :=
  p.rules.length < p'.rules.length ∨ (p'.rules.length = p.rules.length ∧ p'.keptRules < p.keptRules)

theorem Marked.trans_shrinks (h : Marked p p') (h' : Shrinks p' p'') : Marked p p'' := by
  rcases h with h | ⟨h₁, h₂⟩
  · left
    rw [h'.length]
    exact h
  · right
    exact ⟨h'.length.trans h₁, lt_of_le_of_lt h'.kept h₂⟩

theorem rules_eq_of_contents (h : p'.contents = p.contents) : p'.rules = p.rules := by
  have hcls : ∀ q : Ofproto M, q.rules = q.contents.flatMap Prod.fst := by
    simp [Ofproto.rules, Ofproto.contents, flatMap_map]
  rw [hcls, hcls, h]

theorem Marked.contents_ne (h : Marked p p') : p'.contents ≠ p.contents := by
  intro hc
  have hr := rules_eq_of_contents hc
  rcases h with h | ⟨-, h⟩
  · simp_all
  · unfold Ofproto.keptRules at h
    simp_all

/-! ## Tables and rules -/

variable {i id version : Nat} {r : Rule M} {ids : List Nat} {env : Provider M} {ofm : OfprotoFlowMod M}

theorem modifyTable_ok {f : OfTable M → OfTable M} (h : p.modifyTable i f = .ok p') :
    i < p.tables.length ∧ p' = { p with tables := p.tables.modify i f } := by
  unfold Ofproto.modifyTable at h
  split at h
  · simp_all
  · cases h

theorem rules_modifyTable {f : OfTable M → OfTable M} (h : p.modifyTable i f = .ok p') (hf : ∀ t, (f t).cls = t.cls) :
    p'.rules = p.rules := by
  obtain ⟨-, rfl⟩ := modifyTable_ok h
  have hmap : ∀ (ts : List (OfTable M)) (i : Nat), (ts.modify i f).flatMap OfTable.cls = ts.flatMap OfTable.cls := by
    intro ts
    induction ts with
    | nil => intro i; simp
    | cons t ts ih =>
      grind
  exact hmap p.tables i

theorem length_rules_insert (h : p.modifyTable i (fun t => { t with cls :=
     t.cls ++ [r] }) = .ok p') : p'.rules.length = p.rules.length + 1 := by
  obtain ⟨hi, rfl⟩ := modifyTable_ok h
  have hlen : ∀ (ts : List (OfTable M)) (i : Nat), i < ts.length →
      ((ts.modify i fun t => { t with cls := t.cls ++ [r] }).flatMap OfTable.cls).length =
        (ts.flatMap OfTable.cls).length + 1 := by
    intro ts
    induction ts with
    | nil => intro i hi; simp at hi
    | cons t ts ih =>
      grind
  exact hlen p.tables i hi

theorem rules_modifyRule (p : Ofproto M) (id : Nat) (f : Rule M → Rule M) :
    (p.modifyRule id f).rules = p.rules.map fun r => if r.id = id then f r else r := by
  simp [Ofproto.rules, Ofproto.modifyRule, flatMap_map, map_flatMap]

theorem Shrinks.modifyRule (p : Ofproto M) (id : Nat) {f : Rule M → Rule M} (hf : ∀ r, (f r).kept = true → r.kept = true) :
    Shrinks p (p.modifyRule id f) := by
  constructor
  · simp [rules_modifyRule]
  · unfold Ofproto.keptRules
    rw [rules_modifyRule, countP_map]
    apply countP_mono_left
    grind

/-! ## Removing rules -/

theorem makeInvisible_ok (h : makeInvisibleInVersion p id version = .ok p') :
    p' = p.modifyRule id (Rule.setRemoveVersion (some version)) := by
  obtain ⟨r, -, h⟩ := bind_eq_ok h
  split at h
  · cases h
    rfl
  · cases h

theorem Shrinks.makeInvisible (h : makeInvisibleInVersion p id version = .ok p') : Shrinks p p' := by
  rw [makeInvisible_ok h]
  apply Shrinks.modifyRule
  intro r hr
  cases hr

theorem keptRules_makeInvisible (hr : r ∈ p.rules) (hid : r.id = id) (hk : r.kept = true)
    (h : makeInvisibleInVersion p id version = .ok p') : p'.keptRules < p.keptRules := by
  rw [makeInvisible_ok h]
  unfold Ofproto.keptRules
  rw [rules_modifyRule, countP_map]
  have hle : ∀ r' : Rule M, (Rule.kept ∘ fun r => if r.id = id then r.setRemoveVersion (some version) else r) r' = true →
      r'.kept = true := by
    intro r' hr'
    simp only [Function.comp_apply] at hr'
    split at hr'
    · cases hr'
    · exact hr'
  obtain ⟨l₁, l₂, hl⟩ := append_of_mem hr
  rw [hl, countP_append, countP_cons, countP_append, countP_cons]
  have h₁ := countP_mono_left (l := l₁) fun r' _ => hle r'
  have h₂ := countP_mono_left (l := l₂) fun r' _ => hle r'
  have hgone : (r.setRemoveVersion (some version)).kept = false := rfl
  grind

theorem Shrinks.ruleRemove (h : ofprotoRuleRemove p id = .ok p') : Shrinks p p' := by
  obtain ⟨r, -, h⟩ := bind_eq_ok h
  split at h
  · cases h
  obtain ⟨p₁, h₁, h⟩ := bind_eq_ok h
  cases h
  have hgroup : p₁.rules = p.rules := by
    have h₂ := rules_modifyTable h₁ fun _ => rfl
    exact h₂
  exact (Shrinks.of_rules hgroup).trans (.modifyRule p₁ id fun _ hr => hr)

theorem learnedCookiesUpdateOne_tables {dead dead' : List LearnedCookie} {delta : Int} {learn : UInt64 × Nat}
    (h : learnedCookiesUpdateOne p dead delta learn = .ok (p', dead')) : p'.tables = p.tables := by
  unfold learnedCookiesUpdateOne at h
  grind

theorem Shrinks.learnedCookiesUpdate {dead dead' : List LearnedCookie} {delta : Int} {actions : List Ofpact}
    (h : learnedCookiesUpdate p dead delta actions = .ok (p', dead')) : Shrinks p p' := by
  have htables : p'.tables = p.tables := by
    refine foldlM_keeps (P := fun s => s.1.tables = p.tables) ?_ rfl h
    intro s learn s' hs h'
    exact (learnedCookiesUpdateOne_tables h').trans hs
  apply Shrinks.of_rules
  unfold Ofproto.rules
  rw [htables]

theorem Shrinks.deleteFlowsStart (h : deleteFlowsStart p version ids = .ok p') : Shrinks p p' := by
  refine foldlM_keeps (P := Shrinks p) ?_ (.refl p) h
  intro p₁ id p₂ h₁ h₂
  obtain ⟨r, -, h₂⟩ := bind_eq_ok h₂
  obtain ⟨p₃, h₃, h₂⟩ := bind_eq_ok h₂
  have hcount : Shrinks p₁ p₃ := .of_rules (rules_modifyTable h₃ fun _ => rfl)
  exact (h₁.trans hcount).trans (.makeInvisible h₂)

theorem Marked.deleteFlowsStart (hr : r ∈ p.rules) (hk : r.kept = true)
    (h : deleteFlowsStart p version (r.id :: ids) = .ok p') : Marked p p' := by
  obtain ⟨p₁, h₁, h⟩ := bind_eq_ok h
  obtain ⟨r', -, h₁⟩ := bind_eq_ok h₁
  obtain ⟨p₂, h₂, h₁⟩ := bind_eq_ok h₁
  have hcount : p₂.rules = p.rules := rules_modifyTable h₂ fun _ => rfl
  have hlt : p₁.keptRules < p₂.keptRules := keptRules_makeInvisible (by rw [hcount]; exact hr) rfl hk h₁
  have hlen : p₁.rules.length = p.rules.length := (Shrinks.makeInvisible h₁).length.trans (by rw [hcount])
  have hmark : Marked p p₁ := by
    right
    refine ⟨hlen, ?_⟩
    unfold Ofproto.keptRules at hlt ⊢
    simp_all
  exact hmark.trans_shrinks (Shrinks.deleteFlowsStart h)

/-! ## Finishing -/

/-- What `learned_cookies_flush` is taken to do where it is a parameter. -/
def FlushShrinks (flush : Ofproto M → List LearnedCookie → Except Abort (Ofproto M)) : Prop :=
  ∀ p dead p', flush p dead = .ok p' → Shrinks p p'

theorem Shrinks.deleteFinish {s s' : Ofproto M × List LearnedCookie} (h : ids.foldlM deleteFlowFinish s = .ok s') :
    Shrinks s.1 s'.1 := by
  refine foldlM_keeps (P := fun t => Shrinks s.1 t.1) ?_ (.refl s.1) h
  rintro ⟨p₂, dead₂⟩ id ⟨p₃, dead₃⟩ hs h₂
  obtain ⟨r, -, h₂⟩ := bind_eq_ok h₂
  obtain ⟨p₄, h₄, h₂⟩ := bind_eq_ok h₂
  exact (hs.trans (.ruleRemove h₄)).trans (.learnedCookiesUpdate h₂)

theorem Shrinks.deleteFlowsFinish {flush : Ofproto M → List LearnedCookie → Except Abort (Ofproto M)}
    (hflush : FlushShrinks flush) (h : deleteFlowsFinish flush p ids = .ok p') : Shrinks p p' := by
  obtain ⟨⟨p₁, dead⟩, h₁, h⟩ := bind_eq_ok h
  have hlast : Shrinks p₁ p' := hflush _ _ _ h
  exact (Shrinks.deleteFinish h₁).trans hlast

theorem Shrinks.deleteFlows {flush : Ofproto M → List LearnedCookie → Except Abort (Ofproto M)}
    (hflush : FlushShrinks flush) (h : deleteFlows flush p ids = .ok p') : Shrinks p p' := by
  unfold FlowTable.deleteFlows at h
  split at h
  · cases h
    exact .refl p
  · obtain ⟨p₁, h₁, h⟩ := bind_eq_ok h
    have hbump : Shrinks p₁ (ofprotoBumpTablesVersion p₁) := .of_rules rfl
    exact ((Shrinks.deleteFlowsStart h₁).trans hbump).trans (.deleteFlowsFinish hflush h)

theorem flushShrinks_rounds (env : Provider M) : ∀ n, FlushShrinks (learnedCookiesFlushRounds env n)
  | 0 => by
    intro p dead p' h
    cases h
    exact .refl p
  | n + 1 => by
    intro p dead p' h
    refine foldlM_keeps (P := Shrinks p) ?_ (.refl p) h
    intro p₁ c p₂ h₁ h₂
    exact h₁.trans (.deleteFlows (flushShrinks_rounds env n) h₂)

theorem flushShrinks (env : Provider M) : FlushShrinks (learnedCookiesFlush env) := by
  intro p dead p' h
  exact flushShrinks_rounds env _ p dead p' h

theorem Shrinks.replaceRuleFinish {s s' : Ofproto M × List LearnedCookie} {oldRule : Option Nat} {newRule : Nat}
    (h : replaceRuleFinish s oldRule newRule = .ok s') : Shrinks s.1 s'.1 := by
  obtain ⟨r, -, h⟩ := bind_eq_ok h
  obtain ⟨⟨p₁, dead₁⟩, h₁, h⟩ := bind_eq_ok h
  have hinc : Shrinks s.1 p₁ := .learnedCookiesUpdate h₁
  cases oldRule with
  | none =>
    cases h
    exact hinc
  | some id =>
    obtain ⟨old, -, h⟩ := bind_eq_ok h
    obtain ⟨p₂, h₂, h⟩ := bind_eq_ok h
    exact (hinc.trans (.ruleRemove h₂)).trans (.learnedCookiesUpdate h)

theorem Shrinks.addFlowFinish (h : addFlowFinish env p ofm = .ok p') : Shrinks p p' := by
  unfold FlowTable.addFlowFinish at h
  split at h
  · cases h
  · obtain ⟨⟨p₁, dead⟩, h₁, h⟩ := bind_eq_ok h
    have hreplace : Shrinks p p₁ := Shrinks.replaceRuleFinish h₁
    exact hreplace.trans (flushShrinks env _ _ _ h)

theorem Shrinks.modifyFlowsFinish (h : modifyFlowsFinish env p ofm = .ok p') : Shrinks p p' := by
  unfold FlowTable.modifyFlowsFinish at h
  split at h
  · exact Shrinks.addFlowFinish h
  obtain ⟨⟨p₁, dead⟩, h₁, h⟩ := bind_eq_ok h
  have hlast : Shrinks p₁ p' := flushShrinks env _ _ _ h
  refine Shrinks.trans ?_ hlast
  refine foldlM_keeps (P := fun s => Shrinks p s.1) ?_ (.refl p) h₁
  intro s r s' hs h₂
  exact hs.trans (.replaceRuleFinish h₂)

theorem Shrinks.flowModFinish (h : ofprotoFlowModFinish env p ofm = .ok p') : Shrinks p p' := by
  unfold ofprotoFlowModFinish at h
  split at h
  · exact Shrinks.addFlowFinish h
  · exact Shrinks.modifyFlowsFinish h
  · exact Shrinks.modifyFlowsFinish h
  · exact Shrinks.deleteFlowsFinish (flushShrinks env) h
  · exact Shrinks.deleteFlowsFinish (flushShrinks env) h
  · cases h
    exact .refl p

end LinkerOvs.FlowTable
