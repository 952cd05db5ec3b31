/-
The finish phase and the books: a rule that was placed has its cookies counted, a rule that was marked leaves
the indexes, and a cookie that no flow learns any more takes the flows it stands for along.
-/
import LinkerOvs.FlowTable.Accounting

namespace LinkerOvs.FlowTable

open Cls Ofp List

variable {M : Type} {q : Ofproto M} {version : Nat} {c : Change M} {olds news : List Nat}

/-! ## Sums over the rules -/

variable {l : List (Rule M)} {P P' : Rule M → Bool} {r o : Rule M} {q' : Ofproto M}

theorem learnsOf_congr (h : ∀ r ∈ l, P r = P' r) (k : UInt64 × Nat) : learnsOf l P k = learnsOf l P' k := by
  unfold learnsOf
  rw [filter_congr h]

theorem learnsOf_mono (h : ∀ r ∈ l, P r = true → P' r = true) (k : UInt64 × Nat) :
    learnsOf l P k ≤ learnsOf l P' k := by
  induction l with
  | nil => exact le_rfl
  | cons r l ih =>
    have hrest := ih fun r' hr' => h r' (mem_cons_of_mem _ hr')
    rw [learnsOf_cons, learnsOf_cons]
    grind

theorem learnsOf_except (P P' : Rule M → Bool) (hnodup : (l.map Rule.id).Nodup)
    (hr : r ∈ l) (hP : P r = true) (hP' : P' r = false) (h : ∀ r' ∈ l, r'.id ≠ r.id → P r' = P' r') (k : UInt64 × Nat) :
    learnsOf l P k = learnsOf l P' k + (learnsWithDelete r.actions).count k := by
  obtain ⟨l₁, l₂, rfl⟩ := append_of_mem hr
  rw [map_append, map_cons, nodup_middle, nodup_cons, ← map_append] at hnodup
  have hother : ∀ r' ∈ l₁ ++ l₂, P r' = P' r' := by
    grind
  rw [learnsOf_append, learnsOf_append, learnsOf_cons, learnsOf_cons, if_pos hP, hP', if_neg Bool.false_ne_true,
    learnsOf_congr fun r' hr' => hother r' (mem_append_left _ hr'),
    learnsOf_congr fun r' hr' => hother r' (mem_append_right _ hr')]
  omega

/-! ## Counting the cookies of a rule that was placed -/

theorem Books.countNew {n : Rule M} (h : Books version q olds (n.id :: news)) (hn : n ∈ q.rules)
    (dead : List LearnedCookie) :
    ∃ l dead', learnedCookiesUpdate q dead 1 n.actions = .ok (q.withLearned l, dead') ∧
      Books version (q.withLearned l) olds news := by
  obtain ⟨l, dead', heq, hok, hcount⟩ := learnedCookiesUpdate_eq (.inl rfl) n.actions dead h.learned
    fun k => by have := h.learned.nonneg k; omega
  have hnodup := nodup_cons.1 h.placedOnce
  refine ⟨l, dead', heq, { h with
    tidy := h.tidy.of_tables rfl le_rfl
    placed := fun id hid => h.placed id (mem_cons_of_mem _ hid)
    placedOnce := hnodup.2
    learned := hok
    balance := fun k => ?_ }⟩
  have hbalance := h.balance k
  have hone := learnsOf_except (fun r => r.id ∈ n.id :: news) (fun r => r.id ∈ news) h.tidy.nodup_ids hn
    (by simp) (by simpa using hnodup.1) (fun r' _ hne => by simp [hne]) k
  show learnedCount l k + _ = _
  rw [hcount]
  show _ + (learnsOf q.rules (fun r => r.id ∈ news) k : Int) = learnsOf q.rules (fun r => !r.removed) k
  omega

/-! ## A rule leaves the indexes -/

theorem Rule.retire_kept (id : Nat) (r : Rule M) : (r.retire id).kept = r.kept := by
  unfold Rule.retire; split <;> rfl

theorem Rule.retire_removed (id : Nat) (r : Rule M) : (r.retire id).removed = (r.removed || r.id = id) := by
  unfold Rule.retire
  by_cases hid : r.id = id
  · simp [hid]
  · simp [hid]

theorem Rule.retire_same (id : Nat) (r : Rule M) : (r.retire id).versions = r.versions ∧ (r.retire id).mtch = r.mtch ∧
    (r.retire id).priority = r.priority ∧ (r.retire id).actions = r.actions ∧ hasTimeout (r.retire id) = hasTimeout r := by
  unfold Rule.retire
  split <;> exact ⟨rfl, rfl, rfl, rfl, rfl⟩

section

variable (h : Books version q (o.id :: olds) news) (ho : o ∈ q.rules)
include h ho

theorem Books.unmarked : o.kept = false ∧ o.removed = false := by
  obtain ⟨r, hr, hid, hkept⟩ := h.marked o.id mem_cons_self
  rwa [h.tidy.unique r hr o ho hid] at hkept

theorem Books.learnsOf_leaving (k : UInt64 × Nat) : learnsOf q.rules (fun r => !r.removed) k =
      learnsOf q.rules (fun r => !r.removed && r.id ≠ o.id) k + (learnsWithDelete o.actions).count k :=
  learnsOf_except _ _ h.tidy.nodup_ids ho (by simp [(h.unmarked ho).2]) (by simp) (fun r' _ hne => by simp [hne]) k

theorem Books.counted (hnew : o.id ∉ news)
    (k : UInt64 × Nat) : ((learnsWithDelete o.actions).count k : Int) ≤ learnedCount q.learnedCookies k := by
  have hone := h.learnsOf_leaving ho k
  have hle : learnsOf q.rules (fun r => r.id ∈ news) k ≤ learnsOf q.rules (fun r => !r.removed && r.id ≠ o.id) k := by
    refine learnsOf_mono (fun r hr hid => ?_) k
    have hid := of_decide_eq_true hid
    obtain ⟨r', hr', hrid, hremoved⟩ := h.placed r.id hid
    rw [h.tidy.unique r' hr' r hr hrid] at hremoved
    grind
  have hbalance := h.balance k
  omega

theorem Books.balance_retired {l : List LearnedCookie} (hl : ∀ k, learnedCount l k =
      learnedCount q.learnedCookies k + -1 * (learnsWithDelete o.actions).count k) (k : UInt64 × Nat) :
    learnedCount l k + learnsOf (retired q o).rules (fun r => r.id ∈ news) k =
      learnsOf (retired q o).rules (fun r => !r.removed) k := by
  have hperm : (retired q o).rules.Perm (q.rules.map (Rule.retire o.id)) := (ruleWise_retired o).rules_perm _ _
  have hnews : learnsOf (q.rules.map (Rule.retire o.id)) (fun r => r.id ∈ news) k =
      learnsOf q.rules (fun r => r.id ∈ news) k := by
    refine learnsOf_map k fun r _ => ⟨?_, (Rule.retire_same o.id r).2.2.2.1⟩
    simp only [Rule.retire_id]
  have hleft : learnsOf (q.rules.map (Rule.retire o.id)) (fun r => !r.removed) k =
      learnsOf q.rules (fun r => !r.removed && r.id ≠ o.id) k := by
    refine learnsOf_map k fun r _ => ⟨?_, (Rule.retire_same o.id r).2.2.2.1⟩
    rw [Rule.retire_removed, Bool.not_or, ← decide_not]
  have hone := h.learnsOf_leaving ho k
  have hbalance := h.balance k
  have hcount := hl k
  rw [learnsOf_perm hperm, learnsOf_perm hperm]
  omega

/-- A rule that was marked leaves the indexes, and its cookies are counted down. -/
theorem Books.retire (hnew : o.id ∉ news) (dead : List LearnedCookie) :
    ∃ l dead', (ofprotoRuleRemove q o.id >>= fun p => learnedCookiesUpdate p dead (-1) o.actions) =
        .ok ((retired q o).withLearned l, dead') ∧
      Books version ((retired q o).withLearned l) olds news := by
  have hrules : ∀ {r : Rule M}, r ∈ (retired q o).rules ↔ ∃ r₀ ∈ q.rules, r₀.retire o.id = r :=
    (ruleWise_retired o).mem_rules
  have hdistinct := nodup_cons.1 h.distinct
  have hother : ∀ {r : Rule M}, r ∈ q.rules → r.id ≠ o.id → (r.retire o.id).removed = r.removed :=
    fun _ hne => by rw [Rule.retire_removed, decide_eq_false hne, Bool.or_false]
  obtain ⟨l, dead', heq, hok, hcount⟩ := learnedCookiesUpdate_eq (q := retired q o) (.inr rfl) o.actions dead h.learned
    fun k => by have := h.counted ho hnew k; show 0 ≤ learnedCount q.learnedCookies k + _; omega
  refine ⟨l, dead', ?_, ?_⟩
  · rw [ruleRemove_eq h.tidy ho (h.unmarked ho).2, Except.ok_bind, heq]
  · constructor
    · exact (h.tidy.retired o).of_tables rfl le_rfl
    · intro r hr
      obtain ⟨r₀, hr₀, rfl⟩ := hrules.1 hr
      rw [(Rule.retire_same _ r₀).1]
      exact h.added r₀ hr₀
    · intro r hr
      obtain ⟨r₀, hr₀, rfl⟩ := hrules.1 hr
      rw [(Rule.retire_same _ r₀).1]
      exact h.removal r₀ hr₀
    · intro r hr hremoved
      obtain ⟨r₀, hr₀, rfl⟩ := hrules.1 hr
      rw [Rule.retire_kept]
      by_cases hid : r₀.id = o.id
      · rw [h.tidy.unique r₀ hr₀ o ho hid]
        exact (h.unmarked ho).1
      · rw [hother hr₀ hid] at hremoved
        exact h.gone r₀ hr₀ hremoved
    · intro r hr hkept hremoved
      obtain ⟨r₀, hr₀, rfl⟩ := hrules.1 hr
      rw [Rule.retire_kept] at hkept
      rw [Rule.retire_removed, Bool.or_eq_false_iff, decide_eq_false_iff_not] at hremoved
      rw [Rule.retire_id]
      exact (mem_cons.1 (h.leaving r₀ hr₀ hkept hremoved.1)).resolve_left hremoved.2
    · intro id hid
      obtain ⟨r, hr, rfl, hkept, hremoved⟩ := h.marked id (mem_cons_of_mem _ hid)
      have hne : r.id ≠ o.id := fun heq => hdistinct.1 (heq ▸ hid)
      exact ⟨_, hrules.2 ⟨r, hr, rfl⟩, Rule.retire_id _ _, (Rule.retire_kept _ _).trans hkept, (hother hr hne).trans hremoved⟩
    · exact hdistinct.2
    · intro id hid
      obtain ⟨r, hr, rfl, hremoved⟩ := h.placed id hid
      have hne : r.id ≠ o.id := fun heq => hnew (heq ▸ hid)
      exact ⟨_, hrules.2 ⟨r, hr, rfl⟩, Rule.retire_id _ _, (hother hr hne).trans hremoved⟩
    · exact h.placedOnce
    · intro t ht
      obtain ⟨j, u, hu, rfl⟩ := mem_tables_update ht
      rw [countP_map, h.nFlows u (mem_of_getElem? hu)]
      exact countP_congr fun r _ => by rw [Function.comp_apply, Rule.retire_kept]
    · intro t ht r hr r' hr' hkept hkept' hmatch hpriority
      obtain ⟨j, u, hu, rfl⟩ := mem_tables_update ht
      obtain ⟨r₀, hr₀, rfl⟩ := mem_map.1 hr
      obtain ⟨r₁, hr₁, rfl⟩ := mem_map.1 hr'
      rw [Rule.retire_kept] at hkept hkept'
      rw [(Rule.retire_same _ r₀).2.1, (Rule.retire_same _ r₁).2.1] at hmatch
      rw [(Rule.retire_same _ r₀).2.2.1, (Rule.retire_same _ r₁).2.2.1] at hpriority
      rw [h.single u (mem_of_getElem? hu) r₀ hr₀ r₁ hr₁ hkept hkept' hmatch hpriority]
    · intro j t ht id hid
      obtain ⟨u, hu, rfl⟩ := table_update ht
      have hin : id ∈ u.evictable ∧ id ≠ o.id := by
        by_cases hj : j = o.tableId
        · have hid : id ∈ u.evictable.erase o.id := by simpa [hj] using hid
          exact ((h.grouped u (mem_of_getElem? hu)).mem_erase_iff.1 hid).symm
        · have hid : id ∈ u.evictable := by simpa [hj] using hid
          refine ⟨hid, fun heq => hj ?_⟩
          obtain ⟨-, r, hr, hrid, -⟩ := h.groups hu id hid
          rw [← h.tidy.unique r (mem_rules.2 ⟨j, u, hu, hr⟩) o ho (hrid.trans heq), h.tidy.home hu r hr]
      obtain ⟨heviction, r, hr, rfl, hremoved, htimeout⟩ := h.groups hu id hin.1
      refine ⟨heviction, _, mem_map_of_mem hr, Rule.retire_id _ _, ?_, (Rule.retire_same _ r).2.2.2.2.trans htimeout⟩
      exact (hother (mem_rules.2 ⟨j, u, hu, hr⟩) hin.2).trans hremoved
    · intro t ht
      obtain ⟨j, u, hu, rfl⟩ := mem_tables_update ht
      have hnodup := h.grouped u (mem_of_getElem? hu)
      grind
    · intro id hid
      obtain ⟨hne, hid⟩ := (List.Nodup.mem_erase_iff h.expires).1 hid
      obtain ⟨r, hr, rfl, hremoved⟩ := h.expirable id hid
      exact ⟨_, hrules.2 ⟨r, hr, rfl⟩, Rule.retire_id _ _, (hother hr hne).trans hremoved⟩
    · exact h.expires.erase _
    · exact hok
    · exact h.balance_retired ho hcount

end

/-! ## Finishing a change -/

/-- The tables of `q'` are those of `q` with no more flows than they had or may have. -/
structure Capped (q q' : Ofproto M) : Prop where
  length : q'.tables.length = q.tables.length
  table : ∀ {j : Nat} {t t' : OfTable M}, q.tables[j]? = some t → q'.tables[j]? = some t' →
    t'.maxFlows = t.maxFlows ∧ t'.eviction = t.eviction ∧ t'.nFlows.toNat ≤ max t.nFlows.toNat t.maxFlows.toNat

theorem Capped.of_tables (h : q'.tables = q.tables) : Capped q q' := by
  refine ⟨by rw [h], fun {j t t'} ht ht' => ?_⟩
  simp_all

theorem Capped.trans {q'' : Ofproto M} (h : Capped q q') (h' : Capped q' q'') : Capped q q'' := by
  refine ⟨h'.length.trans h.length, fun {j t t''} ht ht'' => ?_⟩
  have hlt := (List.getElem?_eq_some_iff.1 ht).1
  rw [← h.length] at hlt
  obtain ⟨hmax, heviction, hle⟩ := h.table ht (getElem?_eq_getElem hlt)
  obtain ⟨hmax', heviction', hle'⟩ := h'.table (getElem?_eq_getElem hlt) ht''
  grind

theorem capped_retired (q : Ofproto M) (o : Rule M) : Capped q (retired q o) := by
  refine ⟨length_update _ _ _, fun {j t t'} ht ht' => ?_⟩
  rw [retired, getElem?_update, ht] at ht'
  cases ht'
  exact ⟨rfl, rfl, le_max_left _ _⟩

/-- No rule in the indexes has a learn action with the flag to delete what was learned. -/
def NoLearns (q : Ofproto M) : Prop := ∀ r ∈ q.rules, r.removed = false → learnsWithDelete r.actions = []

theorem learnedCookiesUpdate_nil {actions : List Ofpact} (h : learnsWithDelete actions = []) (dead : List LearnedCookie)
    (delta : Int) : learnedCookiesUpdate q dead delta actions = .ok (q, dead) := by
  rw [learnedCookiesUpdate, h]
  rfl

theorem NoLearns.retired (h : NoLearns q) (o : Rule M) : NoLearns (FlowTable.retired q o) := by
  intro r hr hremoved
  obtain ⟨r₀, hr₀, rfl⟩ := (ruleWise_retired o).mem_rules.1 hr
  rw [Rule.retire_removed, Bool.or_eq_false_iff] at hremoved
  rw [(Rule.retire_same _ r₀).2.2.2.1]
  exact h r₀ hr₀ hremoved.1

/-- What the finish of a change comes to. -/
structure Finished (version : Nat) (q : Ofproto M) (dead : List LearnedCookie) (olds news : List Nat) (q' : Ofproto M)
    (dead' : List LearnedCookie) : Prop where
  books : Books version q' olds news
  capped : Capped q q'
  tablesVersion : q'.tablesVersion = q.tablesVersion
  noLearns : NoLearns q → NoLearns q' ∧ dead' = dead

theorem Books.finishOld {id : Nat} (h : Books version q (id :: olds) news) (hnew : id ∉ news) (dead : List LearnedCookie) :
    ∃ q' dead', deleteFlowFinish (q, dead) id = .ok (q', dead') ∧ Finished version q dead olds news q' dead' := by
  obtain ⟨o, ho, rfl, -, hremoved⟩ := h.marked id mem_cons_self
  obtain ⟨l, dead', heq, hbooks⟩ := h.retire ho hnew dead
  refine ⟨_, dead', ?_, hbooks, (capped_retired q o).trans (.of_tables rfl), rfl, fun hlearns => ?_⟩
  · unfold deleteFlowFinish
    rw [h.tidy.rule ho, Except.ok_bind, heq]
  · rw [ruleRemove_eq h.tidy ho hremoved, Except.ok_bind, learnedCookiesUpdate_nil (hlearns o ho hremoved)] at heq
    cases heq
    exact ⟨hlearns.retired o, rfl⟩

theorem Books.finishNew {id : Nat} (h : Books version q olds (id :: news)) (dead : List LearnedCookie) :
    ∃ q' dead', replaceRuleFinish (q, dead) none id = .ok (q', dead') ∧ Finished version q dead olds news q' dead' := by
  obtain ⟨n, hn, rfl, hremoved⟩ := h.placed id mem_cons_self
  obtain ⟨l, dead', heq, hbooks⟩ := h.countNew hn dead
  refine ⟨_, dead', ?_, hbooks, .of_tables rfl, rfl, fun hlearns => ?_⟩
  · unfold replaceRuleFinish
    rw [h.tidy.rule hn, Except.ok_bind, heq]
    rfl
  · rw [learnedCookiesUpdate_nil (hlearns n hn hremoved)] at heq
    grind

/-- `replace_rule_finish` counts the new rule and removes the old one. -/
theorem replaceRuleFinish_some (s : Ofproto M × List LearnedCookie) (old new : Nat) :
    replaceRuleFinish s (some old) new = replaceRuleFinish s none new >>= fun s' => deleteFlowFinish s' old := by
  unfold replaceRuleFinish deleteFlowFinish
  simp

theorem Finished.trans {q₁ q₂ : Ofproto M} {dead dead₁ dead₂ : List LearnedCookie} {olds₁ news₁ : List Nat}
    (h₁ : Finished version q dead olds₁ news₁ q₁ dead₁) (h₂ : Finished version q₁ dead₁ olds news q₂ dead₂) :
    Finished version q dead olds news q₂ dead₂ where
  books := h₂.books
  capped := h₁.capped.trans h₂.capped
  tablesVersion := h₂.tablesVersion.trans h₁.tablesVersion
  noLearns h := by
    obtain ⟨hlearns₁, hdead₁⟩ := h₁.noLearns h
    obtain ⟨hlearns₂, hdead₂⟩ := h₂.noLearns hlearns₁
    exact ⟨hlearns₂, hdead₂.trans hdead₁⟩

theorem Books.finish {c : IdChange} (h : Books version q (c.old.toList ++ olds) (c.new.toList ++ news))
    (hold : ∀ o ∈ c.old, o ∉ news) (dead : List LearnedCookie) :
    ∃ q' dead', c.finish (q, dead) = .ok (q', dead') ∧ Finished version q dead olds news q' dead' := by
  obtain ⟨old, new, evicted⟩ := c
  cases new with
  | none =>
    cases old with
    | none => exact ⟨q, dead, rfl, h, .of_tables rfl, rfl, fun hlearns => ⟨hlearns, rfl⟩⟩
    | some old => exact Books.finishOld h (hold old rfl) dead
  | some new =>
    cases old with
    | none => exact Books.finishNew h dead
    | some old =>
      obtain ⟨q₁, dead₁, heq₁, h₁⟩ := h.finishNew dead
      obtain ⟨q₂, dead₂, heq₂, h₂⟩ := h₁.books.finishOld (hold old rfl) dead₁
      refine ⟨q₂, dead₂, ?_, h₁.trans h₂⟩
      show replaceRuleFinish (q, dead) (some old) new = _
      rw [replaceRuleFinish_some, heq₁, Except.ok_bind, heq₂]

/-- The rules that the changes mark were there before those that they place. -/
def InOrder : List (Change M) → Prop
  | [] => True
  | c :: cs => (∀ o ∈ c.old, o.id ∉ newIds cs) ∧ InOrder cs

/-- The finish of the changes of a message, while those of `cs` wait. -/
theorem Books.finishAll {cs : List (Change M)} : ∀ {ds : List (Change M)} {q : Ofproto M} (dead : List LearnedCookie),
    Books version q (oldIds (ds ++ cs)) (newIds (ds ++ cs)) → InOrder (ds ++ cs) →
    ∃ q' dead', (ds.map Change.ids).foldlM IdChange.finish (q, dead) = .ok (q', dead') ∧
      Finished version q dead (oldIds cs) (newIds cs) q' dead'
  | [], q, dead, h, _ => ⟨q, dead, rfl, h, .of_tables rfl, rfl, fun hlearns => ⟨hlearns, rfl⟩⟩
  | d :: ds, q, dead, h, horder => by
    have hold : ∀ o ∈ d.ids.old, o ∉ newIds (ds ++ cs) := by
      intro o ho
      obtain ⟨r, hr, rfl⟩ := Option.map_eq_some_iff.1 ho
      exact horder.1 r hr
    obtain ⟨q₁, dead₁, heq₁, h₁⟩ := Books.finish h hold dead
    obtain ⟨q₂, dead₂, heq₂, h₂⟩ := Books.finishAll dead₁ h₁.books horder.2
    refine ⟨q₂, dead₂, ?_, h₁.trans h₂⟩
    rw [map_cons, foldlM_cons, heq₁, Except.ok_bind, heq₂]

/-! ## Deleting the flows of dead cookies -/

section

variable (h : Books version q olds news)
include h

theorem Books.mono {version' : Nat} (hle : version ≤ version') : Books version' q olds news :=
  { h with
    added := fun r hr => (h.added r hr).trans hle
    removal := fun r hr w hw => (h.removal r hr w hw).trans hle }

theorem Books.perm {olds' news' : List Nat} (hperm : olds.Perm olds')
    (hnews : news.Perm news') : Books version q olds' news' := by
  have hsame : ∀ k, learnsOf q.rules (fun r => r.id ∈ news) k = learnsOf q.rules (fun r => r.id ∈ news') k :=
    learnsOf_congr fun r _ => by simp only [hnews.mem_iff]
  exact { h with
    leaving := fun r hr hkept hremoved => hperm.mem_iff.1 (h.leaving r hr hkept hremoved)
    marked := fun id hid => h.marked id (hperm.mem_iff.2 hid)
    distinct := hperm.nodup_iff.1 h.distinct
    placed := fun id hid => h.placed id (hnews.mem_iff.2 hid)
    placedOnce := hnews.nodup_iff.1 h.placedOnce
    balance := fun k => hsame k ▸ h.balance k }

/-- The books of tables with the same rules and counts, in which rules may have left the eviction groups. -/
theorem Books.transfer (htidy : Tidy q') (hrules : q'.rules.Perm q.rules)
    (htables : ∀ {j : Nat} {u : OfTable M}, q'.tables[j]? = some u → ∃ t : OfTable M, q.tables[j]? = some t ∧
      u.cls = t.cls ∧ u.nFlows = t.nFlows ∧ u.eviction = t.eviction ∧ u.evictable <+~ t.evictable)
    (hexpirable : q'.expirable.Perm q.expirable) (hlearned : q'.learnedCookies = q.learnedCookies) :
    Books version q' olds news := by
  have hmem : ∀ {u : OfTable M}, u ∈ q'.tables → ∃ t ∈ q.tables, u.cls = t.cls ∧ u.nFlows = t.nFlows ∧
      u.evictable <+~ t.evictable := by
    intro u hu
    obtain ⟨j, hj⟩ := mem_iff_getElem?.1 hu
    grind
  have hthere : ∀ {r : Rule M}, r ∈ q.rules → r ∈ q'.rules := hrules.mem_iff.2
  constructor
  · exact htidy
  · exact fun r hr => h.added r (hrules.mem_iff.1 hr)
  · exact fun r hr => h.removal r (hrules.mem_iff.1 hr)
  · exact fun r hr => h.gone r (hrules.mem_iff.1 hr)
  · exact fun r hr => h.leaving r (hrules.mem_iff.1 hr)
  · exact fun id hid => (h.marked id hid).imp fun _ => And.imp_left hthere
  · exact h.distinct
  · exact fun id hid => (h.placed id hid).imp fun _ => And.imp_left hthere
  · exact h.placedOnce
  · intro u hu
    obtain ⟨t, ht, hcls, hflows, -⟩ := hmem hu
    rw [hcls, hflows]
    exact h.nFlows t ht
  · intro u hu
    obtain ⟨t, ht, hcls, -⟩ := hmem hu
    rw [hcls]
    exact h.single t ht
  · intro j u hu id hid
    obtain ⟨t, ht, hcls, -, heviction, hevictable⟩ := htables hu
    rw [hcls, heviction]
    exact h.groups ht id (hevictable.subset hid)
  · intro u hu
    obtain ⟨t, ht, -, -, l, hperm, hsublist⟩ := hmem hu
    exact hperm.nodup_iff.1 ((h.grouped t ht).sublist hsublist)
  · exact fun id hid => (h.expirable id (hexpirable.mem_iff.1 hid)).imp fun _ => And.imp_left hthere
  · exact hexpirable.nodup_iff.2 h.expires
  · exact hlearned ▸ h.learned
  · intro k
    rw [hlearned, learnsOf_perm hrules, learnsOf_perm hrules]
    exact h.balance k

theorem Books.of_tables (htables : q'.tables = q.tables)
    (hnext : q.nextId ≤ q'.nextId) (hexpirable : q'.expirable = q.expirable)
    (hlearned : q'.learnedCookies = q.learnedCookies) : Books version q' olds news := by
  obtain ⟨tables, v, cookies, expirable, learned, groups, meters, ports, nextId⟩ := q
  obtain ⟨rfl, rfl, rfl⟩ := And.intro htables (And.intro hexpirable hlearned)
  exact { h with tidy := h.tidy.of_tables rfl hnext }

theorem Books.capped_change [DecidableEq M] (hready : Ready q version c)
    (hkept : ∀ o ∈ c.old, o.kept = true) (conjs : List ClsConjunction) : Capped q (c.apply q version conjs) := by
  refine ⟨by rw [apply_eq hready, length_update], fun {j t t'} ht ht' => ?_⟩
  rw [apply_eq hready, getElem?_update, ht] at ht'
  cases ht'
  refine ⟨rfl, rfl, ?_⟩
  show (t.nFlows + c.flows j).toNat ≤ _
  have hcount := h.nFlows t (mem_of_getElem? ht)
  have happly := h.nFlows_apply hready hkept conjs ht
  cases hready with
  | @add new u hnew hu hroom hnone =>
    by_cases hj : new.tableId = j
    · subst hj
      cases hu.symm.trans ht
      have hlt : t.nFlows.toNat < t.maxFlows.toNat := UInt32.lt_iff_toNat_lt.1 (UInt32.not_le.1 hroom)
      simp [Change.flows]
      omega
    · simp [Change.flows, hj]
  | replace => simp [Change.flows]
  | evict => simp [Change.flows]
  | @delete old hmem hk =>
    rw [happly, hcount]
    refine le_max_of_le_left ?_
    simp only [Change.applyTable, Option.filter_none, Option.map_none, Option.toList_none, append_nil, countP_map]
    exact countP_mono_left fun r _ hr => (kept_mark.1 hr).1

end

theorem Books.deleteStart [DecidableEq M] : ∀ {rules : List (Rule M)} {q : Ofproto M} {olds : List Nat},
    Books version q olds news → (∀ r ∈ rules, r ∈ q.rules ∧ r.kept = true) → (rules.map Rule.id).Nodup →
    ∃ q', deleteFlowsStart q version (rules.map Rule.id) = .ok q' ∧
      Books version q' (rules.map Rule.id ++ olds) news ∧ Capped q q' ∧ q'.tablesVersion = q.tablesVersion
  | [], q, olds, h, _, _ => ⟨q, rfl, h, .of_tables rfl, rfl⟩
  | r :: rules, q, olds, h, hrules, hnodup => by
    obtain ⟨hmem, hkept⟩ := hrules r mem_cons_self
    rw [map_cons, nodup_cons] at hnodup
    have hready : Ready q version ⟨some r, none, false⟩ := .delete hmem hkept
    have hold : ∀ o ∈ some r, o.kept = true := by
      simp [*]
    obtain ⟨q', heq, hbooks, hcapped, hversion⟩ :=
      Books.deleteStart (h.change hready hold []) (mem_rules_deleted hrules hnodup.1) hnodup.2
    refine ⟨q', ?_, hbooks.perm (by simp) (.refl _), (h.capped_change hready hold []).trans hcapped, hversion⟩
    show List.foldlM _ q (r.id :: rules.map Rule.id) = _
    rw [foldlM_cons, deleteFlowStart_eq h.tidy hmem (h.added r hmem)]
    exact heq

theorem Books.deleteFinish : ∀ {ids : List Nat} {q : Ofproto M} (dead : List LearnedCookie),
    Books version q (ids ++ olds) [] →
    ∃ q' dead', ids.foldlM deleteFlowFinish (q, dead) = .ok (q', dead') ∧ Finished version q dead olds [] q' dead'
  | [], q, dead, h => ⟨q, dead, rfl, h, .of_tables rfl, rfl, fun hlearns => ⟨hlearns, rfl⟩⟩
  | id :: ids, q, dead, h => by
    obtain ⟨q₁, dead₁, heq₁, h₁⟩ := Books.finishOld h not_mem_nil dead
    obtain ⟨q₂, dead₂, heq₂, h₂⟩ := Books.deleteFinish dead₁ h₁.books
    refine ⟨q₂, dead₂, ?_, h₁.trans h₂⟩
    rw [foldlM_cons, heq₁, Except.ok_bind, heq₂]

/-- What a deletion between two messages keeps. -/
def SettlesFrom (p p' : Ofproto M) : Prop := Settled p' ∧ Capped p p'

theorem Settled.deleteFlows [DecidableEq M] {p : Ofproto M} {rules : List (Rule M)}
    {flush : Ofproto M → List LearnedCookie → Except Abort (Ofproto M)} (h : Settled p)
    (hflush : ∀ {p : Ofproto M} dead, Settled p → ∃ p', flush p dead = .ok p' ∧ SettlesFrom p p')
    (hrules : ∀ r ∈ rules, r ∈ p.rules ∧ r.kept = true) (hnodup : (rules.map Rule.id).Nodup) :
    ∃ p', FlowTable.deleteFlows flush p (rules.map Rule.id) = .ok p' ∧ SettlesFrom p p' := by
  unfold FlowTable.deleteFlows
  split
  · exact ⟨p, rfl, h, .of_tables rfl⟩
  obtain ⟨q₁, heq₁, hbooks₁, hcapped₁, hversion₁⟩ :=
    Books.deleteStart (Books.mono h (Nat.le_succ _)) hrules hnodup
  have hbumped : Books (p.tablesVersion + 1) (ofprotoBumpTablesVersion q₁) (rules.map Rule.id ++ []) [] :=
    hbooks₁.of_tables rfl le_rfl rfl rfl
  obtain ⟨q₂, dead, heq₂, h₂⟩ := Books.deleteFinish [] hbumped
  have hsettled : Settled q₂ := by
    rw [Settled, h₂.tablesVersion]
    show Books (q₁.tablesVersion + 1) q₂ [] []
    rw [hversion₁]
    exact h₂.books
  obtain ⟨p', heq, hsettled', hcapped⟩ := hflush dead hsettled
  have hbump : Capped q₁ (ofprotoBumpTablesVersion q₁) := .of_tables rfl
  refine ⟨p', ?_, hsettled', ((hcapped₁.trans hbump).trans h₂.capped).trans hcapped⟩
  rw [heq₁, Except.ok_bind, FlowTable.deleteFlowsFinish, heq₂]
  exact heq

theorem learnedRules_kept [DecidableEq M] (env : Provider M) (p : Ofproto M) (c : LearnedCookie) :
    ∃ rules : List (Rule M), learnedRules env p c = rules.map Rule.id ∧ rules.Sublist (p.rules.filter Rule.kept) := by
  unfold learnedRules
  dsimp only
  split
  · next rules heq => exact ⟨rules, rfl, collectRulesLoose_sublist heq⟩
  · exact ⟨[], rfl, nil_sublist _⟩

theorem Settled.flushRounds [DecidableEq M] (env : Provider M) : ∀ (n : Nat) {p : Ofproto M} (dead : List LearnedCookie),
    Settled p → ∃ p', learnedCookiesFlushRounds env n p dead = .ok p' ∧ SettlesFrom p p'
  | 0, p, dead, h => ⟨p, rfl, h, .of_tables rfl⟩
  | n + 1, p, dead, h => by
    unfold learnedCookiesFlushRounds
    induction dead generalizing p with
    | nil => exact ⟨p, rfl, h, .of_tables rfl⟩
    | cons c dead ih =>
      obtain ⟨rules, hlearned, hsub⟩ := learnedRules_kept env p c
      obtain ⟨p₁, heq₁, hsettled₁, hcapped₁⟩ := h.deleteFlows (Settled.flushRounds env n)
        (fun r hr => mem_filter.1 (hsub.subset hr)) (h.tidy.nodup_ids.sublist ((hsub.trans filter_sublist).map _))
      obtain ⟨p₂, heq₂, hsettled₂, hcapped₂⟩ := ih p₁ hsettled₁
      refine ⟨p₂, ?_, hsettled₂, hcapped₁.trans hcapped₂⟩
      rw [foldlM_cons, hlearned, heq₁, Except.ok_bind, heq₂]

/-- What is flushed in turn is flushed from tables with fewer rules that are not removed. -/
theorem deleteFlows_congr {p : Ofproto M} {rules : List (Rule M)}
    {flush flush' : Ofproto M → List LearnedCookie → Except Abort (Ofproto M)}
    (hflush : ∀ q dead, q.keptRules < p.keptRules → flush q dead = flush' q dead)
    (hrules : ∀ r ∈ rules, r ∈ p.rules ∧ r.kept = true) :
    deleteFlows flush p (rules.map Rule.id) = deleteFlows flush' p (rules.map Rule.id) := by
  unfold deleteFlows
  split
  · rfl
  rename_i hne
  cases hstart : deleteFlowsStart p (p.tablesVersion + 1) (rules.map Rule.id) with
  | error e => rfl
  | ok p₁ =>
    rw [Except.ok_bind, Except.ok_bind, deleteFlowsFinish, deleteFlowsFinish]
    cases hfinish : (rules.map Rule.id).foldlM deleteFlowFinish (ofprotoBumpTablesVersion p₁, []) with
    | error e => rfl
    | ok s =>
      refine hflush s.1 s.2 ((Shrinks.deleteFinish hfinish).kept.trans_lt ?_)
      cases rules with
      | nil => exact absurd rfl hne
      | cons r rules =>
        obtain ⟨hr, hkept⟩ := hrules r mem_cons_self
        rcases Marked.deleteFlowsStart hr hkept hstart with hmore | ⟨-, hless⟩
        · exact absurd (Shrinks.deleteFlowsStart hstart).length hmore.ne'
        · exact hless

/-- The rounds of `learned_cookies_flush` are enough: with more of them it does the same. -/
theorem learnedCookiesFlushRounds_enough [DecidableEq M] (env : Provider M) : ∀ (n m : Nat) (p : Ofproto M)
    (dead : List LearnedCookie), p.keptRules < n → p.keptRules < m →
      learnedCookiesFlushRounds env n p dead = learnedCookiesFlushRounds env m p dead
  | 0, _, _, _, hn, _ => absurd hn (Nat.not_lt_zero _)
  | _, 0, _, _, _, hm => absurd hm (Nat.not_lt_zero _)
  | n + 1, m + 1, p, dead, hn, hm => by
    unfold learnedCookiesFlushRounds
    induction dead generalizing p with
    | nil => rfl
    | cons c dead ih =>
      obtain ⟨rules, hlearned, hsub⟩ := learnedRules_kept env p c
      have hsame : deleteFlows (learnedCookiesFlushRounds env n) p (learnedRules env p c) =
          deleteFlows (learnedCookiesFlushRounds env m) p (learnedRules env p c) := by
        rw [hlearned]
        refine deleteFlows_congr (fun q dead hq => ?_) fun r hr => mem_filter.1 (hsub.subset hr)
        exact learnedCookiesFlushRounds_enough env n m q dead (by omega) (by omega)
      rw [foldlM_cons, foldlM_cons, hsame]
      cases hdelete : deleteFlows (learnedCookiesFlushRounds env m) p (learnedRules env p c) with
      | error e => rfl
      | ok p₁ =>
        have hle := (Shrinks.deleteFlows (flushShrinks_rounds env m) hdelete).kept
        rw [Except.ok_bind, Except.ok_bind]
        exact ih p₁ (hle.trans_lt hn) (hle.trans_lt hm)

theorem learnedCookiesFlush_eq [DecidableEq M] (env : Provider M) (p : Ofproto M) (dead : List LearnedCookie) {n : Nat}
    (hn : p.rules.length < n) : learnedCookiesFlush env p dead = learnedCookiesFlushRounds env n p dead := by
  have hle : p.keptRules ≤ p.rules.length := countP_le_length
  exact learnedCookiesFlushRounds_enough env _ _ p dead (by omega) (by omega)

/-! ## After the grace period -/

/-- The tables after `remove_rule_rcu__`. -/
def reclaimed (p : Ofproto M) (id : Nat) : Ofproto M :=
  p.update (fun _ t => { t with cls := t.cls.filter fun r => r.id ≠ id }) p.cookies p.expirable

theorem rules_reclaimed (p : Ofproto M) (id : Nat) : (reclaimed p id).rules = p.rules.filter fun r => r.id ≠ id := by
  unfold reclaimed Ofproto.update Ofproto.rules
  rw [filter_flatMap, mapIdx_eq_zipIdx_map, flatMap_map]
  nth_rewrite 2 [← zipIdx_map_fst 0 p.tables]
  rw [flatMap_map]

theorem removeRuleRcu_eq (h : Tidy p) (hr : r ∈ p.rules) (hkept : r.kept = false) :
    removeRuleRcu p r.id = .ok (reclaimed p r.id) := by
  rw [removeRuleRcu, h.rule hr, Except.ok_bind, if_neg (by rw [show r.versions.visibleIn none = false from hkept]; simp),
    classifierRemove, modifyTable_eq _ (h.tableId_lt hr)]
  refine congrArg Except.ok (update_congr _ _ fun j t hj => ?_)
  split
  · rfl
  next hji =>
  -- the rule is in no other table
  have hother : t.cls.filter (fun r' => r'.id ≠ r.id) = t.cls := by
    refine filter_eq_self.2 fun r' hr' => decide_eq_true fun heq => ?_
    have hsame := h.unique r' (mem_rules.2 ⟨j, t, hj, hr'⟩) r hr heq
    exact hji (by rw [← hsame, h.home hj r' hr'])
  rw [hother]

theorem learnsOf_filter (h : ∀ r ∈ l, P r = true → P' r = true) (k : UInt64 × Nat) :
    learnsOf (l.filter P') P k = learnsOf l P k := by
  unfold learnsOf
  rw [filter_filter]
  congr 2
  refine filter_congr fun r hr => ?_
  simp_all

theorem Settled.grace (h : Settled p) (hr : r ∈ p.rules) (hremoved : r.removed = true) :
    removeRuleRcu p r.id = .ok (reclaimed p r.id) ∧ Settled (reclaimed p r.id) ∧ Capped p (reclaimed p r.id) := by
  have hkept := h.gone r hr hremoved
  have hmem : ∀ {r' : Rule M}, r' ∈ (reclaimed p r.id).rules ↔ r' ∈ p.rules ∧ r'.id ≠ r.id := by
    intro r'
    rw [rules_reclaimed, mem_filter, decide_eq_true_eq]
  -- a rule in use is another one
  have hother : ∀ r' ∈ p.rules, r'.removed = false → r'.id ≠ r.id := by
    intro r' hr' hin hid
    rw [h.tidy.unique r' hr' r hr hid, hremoved] at hin
    cases hin
  have hprunes : Prunes none [r.id] fun _ (t : OfTable M) => { t with cls := t.cls.filter fun r' => r'.id ≠ r.id } := by
    intro j t
    simp
  refine ⟨removeRuleRcu_eq h.tidy hr hkept, ?_, length_update _ _ _, fun {j t u} ht hu => ?_⟩
  · constructor
    · exact h.tidy.prune hprunes _ _
    · exact fun r' hr' => h.added r' (hmem.1 hr').1
    · exact fun r' hr' => h.removal r' (hmem.1 hr').1
    · exact fun r' hr' => h.gone r' (hmem.1 hr').1
    · exact fun r' hr' => h.leaving r' (hmem.1 hr').1
    · exact forall_mem_nil _
    · exact nodup_nil
    · exact forall_mem_nil _
    · exact nodup_nil
    · intro u hu
      obtain ⟨j, t, ht, rfl⟩ := mem_tables_update hu
      rw [countP_filter]
      refine (h.nFlows t (mem_of_getElem? ht)).trans (countP_congr fun r' hr' => ?_)
      rw [Bool.and_eq_true, decide_eq_true_eq]
      refine ⟨fun hkept' => ⟨hkept', ?_⟩, And.left⟩
      have hr' := mem_rules.2 ⟨j, t, ht, hr'⟩
      exact hother r' hr' (h.in_use hr' hkept')
    · intro u hu
      obtain ⟨j, t, ht, rfl⟩ := mem_tables_update hu
      exact fun r₁ hr₁ r₂ hr₂ => h.single t (mem_of_getElem? ht) r₁ (mem_filter.1 hr₁).1 r₂ (mem_filter.1 hr₂).1
    · intro j u hu id hid
      obtain ⟨t, ht, rfl⟩ := table_update hu
      obtain ⟨heviction, r', hr', hid', hin, htimeout⟩ := h.groups ht id hid
      refine ⟨heviction, r', mem_filter.2 ⟨hr', decide_eq_true ?_⟩, hid', hin, htimeout⟩
      exact hother r' (mem_rules.2 ⟨j, t, ht, hr'⟩) hin
    · intro u hu
      obtain ⟨j, t, ht, rfl⟩ := mem_tables_update hu
      exact h.grouped t (mem_of_getElem? ht)
    · intro id hid
      obtain ⟨r', hr', hid', hin⟩ := h.expirable id hid
      exact ⟨r', hmem.2 ⟨hr', hother r' hr' hin⟩, hid', hin⟩
    · exact h.expires
    · exact h.learned
    · intro k
      have hnone : learnsOf (reclaimed p r.id).rules (fun r => r.id ∈ ([] : List Nat)) k =
          learnsOf p.rules (fun r => r.id ∈ ([] : List Nat)) k := by
        simp [learnsOf]
      rw [hnone, rules_reclaimed, learnsOf_filter fun r' hr' hin => decide_eq_true (hother r' hr' (by simpa using hin))]
      exact h.balance k
  · obtain ⟨t', ht', rfl⟩ := table_update hu
    grind

end LinkerOvs.FlowTable
