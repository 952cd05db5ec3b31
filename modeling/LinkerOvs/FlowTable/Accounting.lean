/-
The books of the flow tables: how the counters, the eviction groups, the list of rules that expire and the
counts of learned cookies agree with the rules, also in the middle of a flow-mod or a bundle, when some
rules are marked but still in the indexes and some are placed whose cookies are not counted yet.
-/
import LinkerOvs.FlowTable.Rollback

namespace LinkerOvs.FlowTable

open Cls Ofp List

variable {M : Type} {q : Ofproto M} {version : Nat} {c : Change M} {olds news : List Nat}

/-! ## Rules of updated tables -/

variable {g : Rule M → Rule M} {l : List LearnedCookie}

theorem flatMap_mapIdx_perm : ∀ (l : List (OfTable M)) (f : Nat → OfTable M → OfTable M) (i : Nat)
    (extra : List (Rule M)), (∀ j t, l[j]? = some t → (f j t).cls = t.cls.map g ++ if j = i then extra else []) →
    (i < l.length ∨ extra = []) → ((l.mapIdx f).flatMap OfTable.cls).Perm ((l.flatMap OfTable.cls).map g ++ extra)
  | [], f, i, extra, hf, hi => by
    simp_all
  | t :: l, f, i, extra, hf, hi => by
    rw [mapIdx_cons, flatMap_cons, flatMap_cons, map_append, hf 0 t rfl]
    cases i with
    | zero =>
      rw [append_assoc, append_assoc]
      refine List.Perm.append_left _ (perm_append_comm.trans (List.Perm.append_right _ ?_))
      have hrest := flatMap_mapIdx_perm l (fun j => f (j + 1)) 0 [] (fun j t' ht' => ?_) (.inr rfl)
      · rwa [append_nil] at hrest
      · rw [hf (j + 1) t' ht', if_neg (Nat.succ_ne_zero j), ite_self]
    | succ i =>
      rw [if_neg (Nat.zero_ne_add_one i), append_nil, append_assoc]
      refine List.Perm.append_left _ (flatMap_mapIdx_perm l (fun j => f (j + 1)) i extra (fun j t' ht' => ?_) ?_)
      · simp [*]
      · exact hi.imp_left Nat.lt_of_succ_lt_succ

theorem rules_update_perm {f : Nat → OfTable M → OfTable M} (cookies expirable : List Nat) (i : Nat)
    (extra : List (Rule M))
    (hf : ∀ j t, q.tables[j]? = some t → (f j t).cls = t.cls.map g ++ if j = i then extra else [])
    (hi : i < q.tables.length ∨ extra = []) : (q.update f cookies expirable).rules.Perm (q.rules.map g ++ extra) :=
  flatMap_mapIdx_perm q.tables f i extra hf hi

theorem RuleWise.rules_perm {f : Nat → OfTable M → OfTable M} (h : RuleWise g f) (cookies expirable : List Nat) :
    (q.update f cookies expirable).rules.Perm (q.rules.map g) := by
  have hcls : ∀ j t, q.tables[j]? = some t → (f j t).cls = t.cls.map g ++ if j = 0 then [] else [] := by
    intro j t _
    rw [h.cls, ite_self, append_nil]
  have hperm := rules_update_perm cookies expirable 0 [] hcls (.inr rfl)
  rwa [append_nil] at hperm

theorem rules_apply_perm [DecidableEq M] (h : Ready q version c) (conjs : List ClsConjunction) :
    (c.apply q version conjs).rules.Perm
      (q.rules.map (Rule.mark (c.old.map Rule.id) (some version)) ++ (c.new.map fun n => n.entered version conjs).toList) := by
  rw [apply_eq h]
  cases hnew : c.new with
  | none =>
    refine rules_update_perm _ _ 0 _ (fun j t _ => ?_) (.inr rfl)
    simp [Change.applyTable, hnew]
  | some n =>
    refine rules_update_perm _ _ n.tableId _ (fun j t _ => ?_) (.inl (h.placeable n hnew).tableId)
    by_cases hj : j = n.tableId
    · simp [Change.applyTable, hnew, hj, Option.filter_some]
    · simp [Change.applyTable, hnew, hj, Ne.symm hj]

/-! ## The counts of learned cookies -/

def LearnedCookie.key (c : LearnedCookie) : UInt64 × Nat := (c.cookie, c.tableId)

/-- How many learn actions with the flag to delete what was learned are counted for a cookie and a table. -/
def learnedCount (l : List LearnedCookie) (k : UInt64 × Nat) : Int :=
  ((l.find? fun c => c.cookie = k.1 && c.tableId = k.2).map LearnedCookie.n).getD 0

/-- The tables with other counts of learned cookies. -/
def Ofproto.withLearned (q : Ofproto M) (l : List LearnedCookie) : Ofproto M := { q with learnedCookies := l }

/-- Each cookie is counted once, and none whose count is zero. -/
structure LearnedOk (l : List LearnedCookie) : Prop where
  nodup : (l.map LearnedCookie.key).Nodup
  pos : ∀ c ∈ l, 0 < c.n

theorem key_eq_iff {c : LearnedCookie} {k : UInt64 × Nat} : (c.cookie = k.1 && c.tableId = k.2) = true ↔ c.key = k := by
  rw [Bool.and_eq_true, decide_eq_true_eq, decide_eq_true_eq, LearnedCookie.key, Prod.ext_iff]

theorem learnedCount_cons (c : LearnedCookie) (l : List LearnedCookie) (k : UInt64 × Nat) :
    learnedCount (c :: l) k = if c.key = k then c.n else learnedCount l k := by
  unfold learnedCount
  rw [find?_cons]
  by_cases hk : c.key = k
  · rw [if_pos hk, key_eq_iff.2 hk]
    rfl
  · rw [if_neg hk, Bool.eq_false_iff.2 fun h => hk (key_eq_iff.1 h)]

theorem learnedCount_of_not_mem {k : UInt64 × Nat} (h : k ∉ l.map LearnedCookie.key) : learnedCount l k = 0 := by
  unfold learnedCount
  rw [find?_eq_none.2 fun c hc hkey => h (mem_map.2 ⟨c, hc, key_eq_iff.1 hkey⟩)]
  rfl

theorem learnedCount_erase {c : LearnedCookie} (k : UInt64 × Nat) : ∀ {l : List LearnedCookie},
    (l.map LearnedCookie.key).Nodup → c ∈ l → learnedCount (l.erase c) k = if c.key = k then 0 else learnedCount l k
  | c' :: l, hnodup, hc => by
    rw [map_cons, nodup_cons] at hnodup
    rw [erase_cons, learnedCount_cons]
    by_cases hcc : c' = c
    · subst hcc
      rw [if_pos (beq_self_eq_true c')]
      by_cases hk : c'.key = k
      · rw [if_pos hk, learnedCount_of_not_mem (hk ▸ hnodup.1)]
      · rw [if_neg hk, if_neg hk]
    · have hmem : c ∈ l := (mem_cons.1 hc).resolve_left (Ne.symm hcc)
      have hne : c'.key ≠ c.key := fun heq => hnodup.1 (heq ▸ mem_map_of_mem hmem)
      rw [if_neg (by simpa using hcc), learnedCount_cons, learnedCount_erase k hnodup.2 hmem]
      grind

theorem LearnedOk.erase (h : LearnedOk l) (c : LearnedCookie) : LearnedOk (l.erase c) :=
  ⟨h.nodup.sublist ((erase_sublist).map _), fun c' hc' => h.pos c' (mem_of_mem_erase hc')⟩

theorem LearnedOk.cons (h : LearnedOk l) {c : LearnedCookie} (hpos : 0 < c.n) (hkey : c.key ∉ l.map LearnedCookie.key)
    : LearnedOk (c :: l) := by
  refine ⟨nodup_cons.2 ⟨hkey, h.nodup⟩, fun c' hc' => ?_⟩
  rcases mem_cons.1 hc' with rfl | hc'
  · exact hpos
  · exact h.pos c' hc'

theorem LearnedOk.nonneg (h : LearnedOk l) (k : UInt64 × Nat) : 0 ≤ learnedCount l k := by
  unfold learnedCount
  cases hfind : l.find? fun c => c.cookie = k.1 && c.tableId = k.2 with
  | none => exact le_rfl
  | some c => exact (h.pos c (mem_of_find?_eq_some hfind)).le

theorem learnedCookiesUpdateOne_eq (h : LearnedOk q.learnedCookies) (dead : List LearnedCookie) (delta : Int)
    (k : UInt64 × Nat) (hcount : 0 ≤ learnedCount q.learnedCookies k + delta) (hdelta : delta ≠ 0) :
    ∃ l dead', learnedCookiesUpdateOne q dead delta k = .ok (q.withLearned l, dead') ∧ LearnedOk l ∧
      ∀ k', learnedCount l k' = learnedCount q.learnedCookies k' + if k' = k then delta else 0 := by
  unfold learnedCookiesUpdateOne
  cases hfind : q.learnedCookies.find? fun c => c.cookie = k.1 && c.tableId = k.2 with
  | some c =>
    have hmem := mem_of_find?_eq_some hfind
    have hfound := find?_some hfind
    have hkey : c.key = k := key_eq_iff.1 hfound
    have hn : learnedCount q.learnedCookies k = c.n := by rw [learnedCount, hfind]; rfl
    have herase := fun k' => learnedCount_erase k' h.nodup hmem
    dsimp only
    rw [if_neg (by omega)]
    by_cases hzero : c.n + delta = 0
    · rw [if_pos hzero]
      refine ⟨_, _, rfl, h.erase c, fun k' => ?_⟩
      grind
    rw [if_neg hzero]
    refine ⟨_, _, rfl, (h.erase c).cons (by show 0 < c.n + delta; omega) ?_, fun k' => ?_⟩
    · intro hmem'
      obtain ⟨c', hc', heq⟩ := mem_map.1 hmem'
      have hcount := h.nodup
      have hperm := (perm_cons_erase hmem).map LearnedCookie.key
      rw [hperm.nodup_iff, map_cons, nodup_cons] at hcount
      exact hcount.1 (heq ▸ mem_map_of_mem hc')
    · rw [learnedCount_cons, herase]
      show (if c.key = k' then c.n + delta else _) = _
      grind
  | none =>
    have hn : learnedCount q.learnedCookies k = 0 := by rw [learnedCount, hfind]; rfl
    rw [if_pos (by omega)]
    refine ⟨_, _, rfl, h.cons (by show 0 < delta; omega) ?_, fun k' => ?_⟩
    · intro hmem
      obtain ⟨c, hc, heq⟩ := mem_map.1 hmem
      exact find?_eq_none.1 hfind c hc (key_eq_iff.2 heq)
    · rw [learnedCount_cons]
      by_cases hk : k = k'
      · subst hk
        rw [if_pos (show (⟨k.1, k.2, delta⟩ : LearnedCookie).key = k from rfl), if_pos rfl, hn, zero_add]
      · have hkey : (⟨k.1, k.2, delta⟩ : LearnedCookie).key ≠ k' := hk
        rw [if_neg hkey, if_neg (Ne.symm hk), add_zero]

/-- The cookies of a rule are counted up, or down if they are counted. -/
theorem learnedCookiesUpdate_eq {delta : Int} (hdelta : delta = 1 ∨ delta = -1) (actions : List Ofpact)
    (dead : List LearnedCookie) (h : LearnedOk q.learnedCookies)
    (hcounted : ∀ k, 0 ≤ learnedCount q.learnedCookies k + delta * (learnsWithDelete actions).count k) :
    ∃ l dead', learnedCookiesUpdate q dead delta actions = .ok (q.withLearned l, dead') ∧ LearnedOk l ∧
      ∀ k, learnedCount l k = learnedCount q.learnedCookies k + delta * (learnsWithDelete actions).count k := by
  unfold learnedCookiesUpdate
  revert hcounted
  generalize learnsWithDelete actions = ks
  intro hcounted
  induction ks generalizing q dead with
  | nil => exact ⟨_, dead, rfl, h, fun k => by simp⟩
  | cons k ks ih =>
    have hnonneg := h.nonneg k
    have hhead := hcounted k
    rw [count_cons_self] at hhead
    obtain ⟨l, dead', hone, hok, hcount⟩ :=
      learnedCookiesUpdateOne_eq h dead delta k (by rcases hdelta with rfl | rfl <;> omega) (by omega)
    -- the first cookie and the others together
    have hboth : ∀ k', learnedCount l k' + delta * ks.count k' =
        learnedCount q.learnedCookies k' + delta * (k :: ks).count k' := by
      grind
    obtain ⟨l', dead'', hrest, hok', hcount'⟩ :=
      ih (q := q.withLearned l) dead' hok fun k' => (hcounted k').trans_eq (hboth k').symm
    refine ⟨l', dead'', ?_, hok', fun k' => (hcount' k').trans (hboth k')⟩
    rw [foldlM_cons, hone, Except.ok_bind, hrest]
    rfl

/-! ## The books -/

/-- How often the learn actions of some of the rules name a cookie and a table. -/
def learnsOf (l : List (Rule M)) (P : Rule M → Bool) (k : UInt64 × Nat) : Nat :=
  ((l.filter P).flatMap fun r => learnsWithDelete r.actions).count k

theorem learnsOf_perm {l l' : List (Rule M)} (h : l.Perm l') (P : Rule M → Bool) (k : UInt64 × Nat) :
    learnsOf l P k = learnsOf l' P k :=
  ((h.filter P).flatMap_right _).count_eq k

theorem learnsOf_append (l l' : List (Rule M)) (P : Rule M → Bool) (k : UInt64 × Nat) :
    learnsOf (l ++ l') P k = learnsOf l P k + learnsOf l' P k := by
  simp [learnsOf]

theorem learnsOf_cons (r : Rule M) (l : List (Rule M)) (P : Rule M → Bool) (k : UInt64 × Nat) :
    learnsOf (r :: l) P k = (if P r then (learnsWithDelete r.actions).count k else 0) + learnsOf l P k := by
  unfold learnsOf
  by_cases hr : P r = true
  · simp [hr]
  · simp [hr]

theorem learnsOf_map {P P' : Rule M → Bool} (k : UInt64 × Nat) : ∀ {l : List (Rule M)},
    (∀ r ∈ l, P (g r) = P' r ∧ (g r).actions = r.actions) → learnsOf (l.map g) P k = learnsOf l P' k
  | [], _ => rfl
  | r :: l, h => by
    obtain ⟨hP, hactions⟩ := h r mem_cons_self
    rw [map_cons, learnsOf_cons, learnsOf_cons, hP, hactions,
      learnsOf_map k fun r' hr' => h r' (mem_cons_of_mem _ hr')]

/-- The books while the rules `olds` are marked but still in the indexes and the cookies of the rules `news` are not
counted yet. Everything that was marked or placed takes effect in versions up to `version`. -/
structure Books (version : Nat) (q : Ofproto M) (olds news : List Nat) : Prop where
  tidy : Tidy q
  added : ∀ r ∈ q.rules, r.versions.addVersion ≤ version
  removal : ∀ r ∈ q.rules, ∀ w ∈ r.versions.removeVersion, w ≤ version
  gone : ∀ r ∈ q.rules, r.removed = true → r.kept = false
  leaving : ∀ r ∈ q.rules, r.kept = false → r.removed = false → r.id ∈ olds
  marked : ∀ id ∈ olds, ∃ r ∈ q.rules, r.id = id ∧ r.kept = false ∧ r.removed = false
  distinct : olds.Nodup
  placed : ∀ id ∈ news, ∃ r ∈ q.rules, r.id = id ∧ r.removed = false
  placedOnce : news.Nodup
  nFlows : ∀ t ∈ q.tables, t.nFlows.toNat = t.cls.countP Rule.kept
  single : ∀ t ∈ q.tables, ∀ r ∈ t.cls, ∀ r' ∈ t.cls, r.kept = true → r'.kept = true → r.mtch = r'.mtch →
    r.priority = r'.priority → r = r'
  groups : ∀ {j : Nat} {t : OfTable M}, q.tables[j]? = some t → ∀ id ∈ t.evictable,
    t.eviction = true ∧ ∃ r ∈ t.cls, r.id = id ∧ r.removed = false ∧ hasTimeout r = true
  grouped : ∀ t ∈ q.tables, t.evictable.Nodup
  expirable : ∀ id ∈ q.expirable, ∃ r ∈ q.rules, r.id = id ∧ r.removed = false
  expires : q.expirable.Nodup
  learned : LearnedOk q.learnedCookies
  balance : ∀ k, learnedCount q.learnedCookies k + learnsOf q.rules (fun r => r.id ∈ news) k =
    learnsOf q.rules (fun r => !r.removed) k

/-- Nothing is begun and not finished. -/
def Settled (p : Ofproto M) : Prop := Books p.tablesVersion p [] []

theorem Settled.atRest {p : Ofproto M} (h : Settled p) : AtRest p where
  tidy := h.tidy
  added := h.added
  removed := h.removal
  groups {j t} ht id hid := by
    obtain ⟨heviction, r, hr, hrid, hremoved, htimeout⟩ := h.groups ht id hid
    refine ⟨heviction, r, hr, hrid, ?_, htimeout⟩
    by_contra hkept
    exact not_mem_nil (h.leaving r (mem_rules.2 ⟨j, t, ht, hr⟩) (Bool.eq_false_iff.2 hkept) hremoved)
  expirable id hid := by
    obtain ⟨r, hr, hrid, -⟩ := h.expirable id hid
    exact ⟨r, hr, hrid⟩

theorem Books.in_use (h : Books version q olds news) {r : Rule M} (hr : r ∈ q.rules) (hkept : r.kept = true) :
    r.removed = false := by
  refine Bool.eq_false_iff.2 fun hremoved => ?_
  rw [h.gone r hr hremoved] at hkept
  cases hkept

theorem Books.visible_iff (h : Books version q olds news) {r : Rule M} (hr : r ∈ q.rules) :
    r.versions.visibleIn (some version) = r.kept := by
  unfold Versions.visibleIn Rule.kept Versions.visibleIn
  cases hremove : r.versions.removeVersion with
  | none => simp [h.added r hr]
  | some w =>
    have hw := h.removal r hr w hremove
    simp [Nat.not_lt.2 hw]

theorem Books.old_kept [DecidableEq M] (h : Books version q olds news) (hready : Ready q version c)
    (hevict : c.evicted = true → ∀ o ∈ c.old, o.kept = true) : ∀ o ∈ c.old, o.kept = true := by
  cases hready with
  | add => simp
  | delete _ hkept =>
    simp [*]
  | evict => exact hevict rfl
  | replace _ hold hvisible =>
    rintro o ⟨⟩
    rcases hvisible with hvisible | hkept
    · rwa [h.visible_iff hold] at hvisible
    · exact hkept

theorem map_mark_of_not_mem {id : Nat} {l : List (Rule M)} (h : ∀ r ∈ l, r.id ≠ id) (version : Option Nat) :
    l.map (Rule.mark (some id) version) = l := by
  conv_rhs => rw [← map_id l]
  exact map_congr_left fun r hr => if_neg fun heq => h r hr (Option.some.inj heq).symm

theorem countP_mark {o : Rule M} {l : List (Rule M)} (hnodup : (l.map Rule.id).Nodup) (ho : o ∈ l)
    (hkept : o.kept = true) (version : Nat) :
    (l.map (Rule.mark (some o.id) (some version))).countP Rule.kept + 1 = l.countP Rule.kept := by
  obtain ⟨l₁, l₂, rfl⟩ := append_of_mem ho
  rw [map_append, map_cons, nodup_middle, nodup_cons, ← map_append] at hnodup
  have hother : ∀ r ∈ l₁ ++ l₂, r.id ≠ o.id := fun r hr heq => hnodup.1 (heq ▸ mem_map_of_mem hr)
  have hgone : ¬ (o.mark (some o.id) (some version)).kept = true := by
    rw [Rule.mark, if_pos rfl]
    exact Bool.false_ne_true
  rw [map_append, map_cons, map_mark_of_not_mem fun r hr => hother r (mem_append_left _ hr),
    map_mark_of_not_mem fun r hr => hother r (mem_append_right _ hr), countP_append, countP_append,
    countP_cons_of_neg hgone, countP_cons_of_pos hkept, Nat.add_assoc]

section

variable {j : Nat} {u : OfTable M} {r : Rule M}

theorem kept_mark {id : Option Nat} {version : Nat} :
    (r.mark id (some version)).kept = true ↔ r.kept = true ∧ id ≠ some r.id := by
  unfold Rule.mark
  by_cases hid : id = some r.id
  · rw [if_pos hid]
    exact ⟨fun hkept => absurd hkept Bool.false_ne_true, fun hkept => absurd hid hkept.2⟩
  · simp [*]

theorem mark_of_kept {id : Option Nat} {version : Nat} (h : (r.mark id (some version)).kept = true) :
    r.mark id (some version) = r :=
  if_neg (kept_mark.1 h).2

theorem mem_applyTable {conjs : List ClsConjunction} :
    r ∈ (c.applyTable version conjs j u).cls ↔ (∃ r₀ ∈ u.cls, r₀.mark (c.old.map Rule.id) (some version) = r) ∨
      ∃ n ∈ c.new, n.tableId = j ∧ n.entered version conjs = r := by
  show r ∈ _ ++ _ ↔ _
  rw [mem_append, mem_map, Option.mem_toList, Option.map_eq_some_iff]
  simp only [← Option.mem_def, Option.mem_filter_iff, decide_eq_true_eq, and_assoc]

theorem mem_groupedIds_singleton {id : Nat} {eviction : Bool} : id ∈ groupedIds j eviction [c] ↔
    ∃ n ∈ c.new, n.tableId = j ∧ eviction = true ∧ hasTimeout n = true ∧ n.id = id := by
  rw [groupedIds, flatMap_singleton, Option.mem_toList, Option.map_eq_some_iff]
  simp only [← Option.mem_def, Option.mem_filter_iff, Bool.and_eq_true, decide_eq_true_eq, and_assoc]

theorem Books.groups_apply (h : Books version q olds news) (conjs : List ClsConjunction)
    (hu : q.tables[j]? = some u) : ∀ id ∈ (c.applyTable version conjs j u).evictable,
      u.eviction = true ∧ ∃ r ∈ (c.applyTable version conjs j u).cls, r.id = id ∧ r.removed = false ∧
        hasTimeout r = true := by
  intro id hid
  rcases mem_append.1 hid with hid | hid
  · obtain ⟨n, hn, htable, heviction, htimeout, rfl⟩ := mem_groupedIds_singleton.1 hid
    exact ⟨heviction, _, mem_applyTable.2 (.inr ⟨n, hn, htable, rfl⟩), rfl, rfl, htimeout⟩
  · obtain ⟨heviction, r, hr, rfl, hremoved, htimeout⟩ := h.groups hu id (diff_subset _ _ hid)
    obtain ⟨-, hrem, htime, -⟩ := Rule.mark_versions (c.old.map Rule.id) (some version) r
    exact ⟨heviction, _, mem_applyTable.2 (.inl ⟨r, hr, rfl⟩), Rule.mark_id _ _ _, hrem.trans hremoved,
      htime.trans htimeout⟩

variable [DecidableEq M] (h : Books version q olds news) (hready : Ready q version c)
include h hready

theorem Books.nFlows_apply (hkept : ∀ o ∈ c.old, o.kept = true) (conjs : List ClsConjunction)
    (hu : q.tables[j]? = some u) :
    (u.nFlows + c.flows j).toNat = (c.applyTable version conjs j u).cls.countP Rule.kept := by
  have hcount := h.nFlows u (mem_of_getElem? hu)
  have hold : ∀ o ∈ c.old, o.tableId = j →
      (u.cls.map (Rule.mark (some o.id) (some version))).countP Rule.kept + 1 = u.cls.countP Rule.kept := by
    intro o ho htable
    obtain ⟨t, ht, hmem⟩ := h.tidy.table (hready.old_mem o ho)
    cases (htable ▸ ht).symm.trans hu
    exact countP_mark (h.tidy.nodup hu) hmem (hkept o ho) version
  have hother : ∀ o : Rule M, o ∈ c.old → o.tableId ≠ j → u.cls.map (Rule.mark (some o.id) (some version)) = u.cls := by
    intro o ho htable
    refine map_mark_of_not_mem (fun r hr heq => htable ?_) _
    rw [← h.tidy.unique r (mem_rules.2 ⟨j, u, hu, hr⟩) o (hready.old_mem o ho) heq]
    exact h.tidy.home hu r hr
  have hplaced : ∀ n : Rule M, (n.entered version conjs).kept = true := fun _ => rfl
  unfold Change.applyTable
  cases hready with
  | @add new t hnew ht hroom hnone =>
    by_cases hj : new.tableId = j
    · subst hj
      cases ht.symm.trans hu
      have hlt : u.nFlows.toNat < u.maxFlows.toNat := UInt32.lt_iff_toNat_lt.1 (UInt32.not_le.1 hroom)
      have hmax := u.maxFlows.toNat_lt
      simp [Change.flows, Option.filter_some, hplaced, hcount]
      omega
    · simp [Change.flows, Option.filter_some, hj, hcount]
  | @replace old new hnew hmem hvisible htable hmatch hpriority =>
    by_cases hj : old.tableId = j
    · have hmark := hold old rfl hj
      simp [Change.flows, Option.filter_some, htable, hj, hplaced, hcount, ← hmark]
    · simp [Change.flows, htable, hj, hother old rfl hj, hcount]
  | @evict old new t hnew hmem htable ht heviction hgroup hfull hnone =>
    by_cases hj : old.tableId = j
    · have hmark := hold old rfl hj
      simp [Change.flows, Option.filter_some, ← htable, hj, hplaced, hcount, ← hmark]
    · simp [Change.flows, ← htable, hj, hother old rfl hj, hcount]
  | @delete old hmem hk =>
    by_cases hj : old.tableId = j
    · have hmark := hold old rfl hj
      have hlt := u.nFlows.toNat_lt
      rw [countP_map] at hmark
      simp [Change.flows, hj]
      omega
    · simp [Change.flows, hj, hother old rfl hj, hcount]

/-- A rule that is placed has no identical one, the one it replaces apart. -/
theorem Books.alone :
    ∀ n ∈ c.new, ∀ {u : OfTable M}, q.tables[n.tableId]? = some u → ∀ r ∈ u.cls, r.kept = true → r.mtch = n.mtch →
      r.priority = n.priority → c.old = some r := by
  have hseen : ∀ {n : Rule M} {u : OfTable M}, q.tables[n.tableId]? = some u →
      findRuleExactly u.cls n.mtch n.priority (some version) = none → ∀ r ∈ u.cls, r.kept = true → r.mtch = n.mtch →
      r.priority = n.priority → c.old = some r := by
    intro n u hu hnone r hr hk hmatch hpriority
    have hnot := find?_eq_none.1 hnone r hr
    rw [h.visible_iff (mem_rules.2 ⟨_, u, hu, hr⟩)] at hnot
    simp [hk, hmatch, hpriority] at hnot
  cases hready with
  | add hnew ht hroom hnone =>
    rintro n ⟨⟩ u hu
    cases ht.symm.trans hu
    exact hseen ht hnone
  | evict hnew hold htable ht heviction hgroup hfull hnone =>
    grind
  | @replace old new hnew hold hvisible htable hmatch hpriority =>
    rintro n ⟨⟩ u hu r hr hk hrmatch hrpriority
    obtain ⟨t, ht, hmem⟩ := h.tidy.table hold
    have hkept : old.kept = true := by
      rcases hvisible with hvisible | hkept
      · rwa [h.visible_iff hold] at hvisible
      · exact hkept
    rw [htable] at hu
    cases ht.symm.trans hu
    rw [h.single _ (mem_of_getElem? ht) r hr old hmem hk hkept (hrmatch.trans hmatch)
      (hrpriority.trans hpriority)]
  | delete => simp

theorem Books.not_clashes : ∀ n ∈ c.new, Clashes q version (c.old.map Rule.id) n = false := by
  intro n hn
  unfold Clashes
  cases hu : q.tables[n.tableId]? with
  | none => rfl
  | some u =>
    rw [Option.any_some, Option.isSome_eq_false_iff, Option.isNone_iff_eq_none]
    refine find?_eq_none.2 fun r' hr' hfound => ?_
    obtain ⟨r, hr, rfl⟩ := mem_map.1 hr'
    simp only [Bool.and_eq_true, decide_eq_true_eq] at hfound
    obtain ⟨⟨hmatch, hpriority⟩, hvisible⟩ := hfound
    have hsame := mark_of_kept hvisible
    rw [hsame] at hmatch hpriority
    obtain ⟨hk, hne⟩ := kept_mark.1 hvisible
    have hold := h.alone hready n hn hu r hr hk hmatch hpriority
    exact hne (by rw [hold, Option.map_some])

theorem Books.single_apply (conjs : List ClsConjunction)
    (hu : q.tables[j]? = some u) : ∀ r ∈ (c.applyTable version conjs j u).cls,
      ∀ r' ∈ (c.applyTable version conjs j u).cls, r.kept = true → r'.kept = true → r.mtch = r'.mtch →
      r.priority = r'.priority → r = r' := by
  -- an old rule that is still kept is not identical to the one placed
  have hapart : ∀ {r n : Rule M}, r ∈ u.cls → (r.mark (c.old.map Rule.id) (some version)).kept = true → n ∈ c.new →
      n.tableId = j → r.mtch = n.mtch → r.priority = n.priority → False := by
    rintro r n hr hk hn rfl hmatch hpriority
    obtain ⟨hk, hne⟩ := kept_mark.1 hk
    exact hne (by rw [h.alone hready n hn hu r hr hk hmatch hpriority, Option.map_some])
  intro r hr r' hr' hk hk' hmatch hpriority
  rcases mem_applyTable.1 hr with ⟨r₀, hr₀, rfl⟩ | ⟨n, hn, htable, rfl⟩ <;>
    rcases mem_applyTable.1 hr' with ⟨r₁, hr₁, rfl⟩ | ⟨n', hn', htable', rfl⟩
  · rw [mark_of_kept hk, mark_of_kept hk'] at hmatch hpriority ⊢
    exact h.single u (mem_of_getElem? hu) r₀ hr₀ r₁ hr₁ (kept_mark.1 hk).1 (kept_mark.1 hk').1 hmatch hpriority
  · rw [mark_of_kept hk] at hmatch hpriority
    exact (hapart hr₀ hk hn' htable' hmatch hpriority).elim
  · rw [mark_of_kept hk'] at hmatch hpriority
    exact (hapart hr₁ hk' hn htable hmatch.symm hpriority.symm).elim
  · rw [Option.mem_unique hn hn']

theorem Books.grouped_apply (conjs : List ClsConjunction)
    (hu : q.tables[j]? = some u) : (c.applyTable version conjs j u).evictable.Nodup := by
  have hone : (groupedIds j u.eviction [c]).Nodup := by
    rw [groupedIds, flatMap_singleton]
    exact Option.toList_nodup _
  refine hone.append (h.grouped u (mem_of_getElem? hu)).diff fun id hid hid' => ?_
  obtain ⟨n, hn, -, -, -, rfl⟩ := mem_groupedIds_singleton.1 hid
  obtain ⟨-, r, hr, hrid, -⟩ := h.groups hu n.id (diff_subset _ _ hid')
  exact (hready.placeable n hn).id r (mem_rules.2 ⟨j, u, hu, hr⟩) hrid

/-- The cookies of a rule that is placed are not counted yet. -/
theorem Books.balance_apply (conjs : List ClsConjunction)
    (k : UInt64 × Nat) : learnedCount (c.apply q version conjs).learnedCookies k +
      learnsOf (c.apply q version conjs).rules (fun r => r.id ∈ (c.new.map Rule.id).toList ++ news) k =
      learnsOf (c.apply q version conjs).rules (fun r => !r.removed) k := by
  have hlearned : (c.apply q version conjs).learnedCookies = q.learnedCookies := by
    rw [apply_eq hready]
    rfl
  have hperm := rules_apply_perm hready conjs
  rw [hlearned, learnsOf_perm hperm, learnsOf_perm hperm, learnsOf_append, learnsOf_append]
  have hold : learnsOf (q.rules.map (Rule.mark (c.old.map Rule.id) (some version)))
      (fun r => r.id ∈ (c.new.map Rule.id).toList ++ news) k = learnsOf q.rules (fun r => r.id ∈ news) k := by
    refine learnsOf_map k fun r hr => ⟨?_, Rule.mark_actions _ _ r⟩
    have hnot : r.id ∉ (c.new.map Rule.id).toList := by
      intro hid
      obtain ⟨n, hn, heq⟩ := mem_toList_map.1 hid
      exact (hready.placeable n hn).id r hr heq.symm
    simp only [Rule.mark_id, mem_append, hnot, false_or]
  have hold' : learnsOf (q.rules.map (Rule.mark (c.old.map Rule.id) (some version))) (fun r => !r.removed) k =
      learnsOf q.rules (fun r => !r.removed) k := by
    refine learnsOf_map k fun r _ => ⟨?_, Rule.mark_actions _ _ r⟩
    rw [(Rule.mark_versions _ _ r).2.1]
  have hnew : learnsOf (c.new.map fun n => n.entered version conjs).toList
      (fun r => r.id ∈ (c.new.map Rule.id).toList ++ news) k =
      learnsOf (c.new.map fun n => n.entered version conjs).toList (fun r => !r.removed) k := by
    cases c.new with
    | none => rfl
    | some n => simp [learnsOf, Rule.entered]
  have hbalance := h.balance k
  omega

/-- A change that marks a rule which was not marked keeps the books. -/
theorem Books.change (hkept : ∀ o ∈ c.old, o.kept = true) (conjs : List ClsConjunction) :
    Books version (c.apply q version conjs) ((c.old.map Rule.id).toList ++ olds) ((c.new.map Rule.id).toList ++ news) := by
  have heq := apply_eq hready conjs
  have htable : ∀ {t : OfTable M}, t ∈ (c.apply q version conjs).tables →
      ∃ j u, q.tables[j]? = some u ∧ t = c.applyTable version conjs j u := by
    intro t ht
    rw [heq] at ht
    obtain ⟨j, u, hu, rfl⟩ := mem_tables_update ht
    exact ⟨j, u, hu, rfl⟩
  constructor
  · exact h.tidy.apply hready conjs
  · intro r hr
    rcases (mem_rules_apply hready).1 hr with ⟨r₀, hr₀, rfl⟩ | ⟨n, hn, rfl⟩
    · rw [(Rule.mark_versions _ _ r₀).1]
      exact h.added r₀ hr₀
    · exact le_rfl
  · intro r hr w hw
    rcases (mem_rules_apply hready).1 hr with ⟨r₀, hr₀, rfl⟩ | ⟨n, hn, rfl⟩
    · rcases (Rule.mark_versions _ _ r₀).2.2.2 w hw with hw | hw
      · exact h.removal r₀ hr₀ w hw
      · simp_all
    · cases hw
  · intro r hr hremoved
    rcases (mem_rules_apply hready).1 hr with ⟨r₀, hr₀, rfl⟩ | ⟨n, hn, rfl⟩
    · rw [(Rule.mark_versions _ _ r₀).2.1] at hremoved
      refine Bool.eq_false_iff.2 fun hk => ?_
      exact absurd ((h.gone r₀ hr₀ hremoved).symm.trans (kept_mark.1 hk).1) Bool.false_ne_true
    · cases hremoved
  · intro r hr hk hremoved
    rcases (mem_rules_apply hready).1 hr with ⟨r₀, hr₀, rfl⟩ | ⟨n, hn, rfl⟩
    · rw [Rule.mark_id]
      by_cases hid : c.old.map Rule.id = some r₀.id
      · exact mem_append_left _ (Option.mem_toList.2 hid)
      · rw [Rule.mark, if_neg hid] at hk hremoved
        exact mem_append_right _ (h.leaving r₀ hr₀ hk hremoved)
    · cases hk
  · intro id hid
    rcases mem_append.1 hid with hid | hid
    · obtain ⟨o, ho, rfl⟩ := mem_toList_map.1 hid
      refine ⟨_, mark_mem_apply hready conjs (hready.old_mem o ho), Rule.mark_id _ _ _, ?_, ?_⟩
      · exact Bool.eq_false_iff.2 fun hk => (kept_mark.1 hk).2 (Option.mem_toList.1 hid)
      · rw [(Rule.mark_versions _ _ o).2.1]
        exact h.in_use (hready.old_mem o ho) (hkept o ho)
    · obtain ⟨r, hr, rfl, hk, hremoved⟩ := h.marked id hid
      refine ⟨_, mark_mem_apply hready conjs hr, Rule.mark_id _ _ _, ?_, (Rule.mark_versions _ _ r).2.1.trans hremoved⟩
      exact Bool.eq_false_iff.2 fun hk' => Bool.eq_false_iff.1 hk (kept_mark.1 hk').1
  · refine (Option.toList_nodup _).append h.distinct fun id hid hid' => ?_
    obtain ⟨o, ho, rfl⟩ := mem_toList_map.1 hid
    obtain ⟨r, hr, hrid, hk, -⟩ := h.marked o.id hid'
    rw [h.tidy.unique r hr o (hready.old_mem o ho) hrid, hkept o ho] at hk
    cases hk
  · intro id hid
    rcases mem_append.1 hid with hid | hid
    · obtain ⟨n, hn, rfl⟩ := mem_toList_map.1 hid
      exact ⟨_, (mem_rules_apply hready).2 (.inr ⟨n, hn, rfl⟩), rfl, rfl⟩
    · obtain ⟨r, hr, rfl, hremoved⟩ := h.placed id hid
      exact ⟨_, mark_mem_apply hready conjs hr, Rule.mark_id _ _ _, (Rule.mark_versions _ _ r).2.1.trans hremoved⟩
  · refine (Option.toList_nodup _).append h.placedOnce fun id hid hid' => ?_
    obtain ⟨n, hn, rfl⟩ := mem_toList_map.1 hid
    obtain ⟨r, hr, hrid, -⟩ := h.placed n.id hid'
    exact (hready.placeable n hn).id r hr hrid
  · intro t ht
    obtain ⟨j, u, hu, rfl⟩ := htable ht
    exact h.nFlows_apply hready hkept conjs hu
  · intro t ht
    obtain ⟨j, u, hu, rfl⟩ := htable ht
    exact h.single_apply hready conjs hu
  · intro j t ht
    rw [heq] at ht
    obtain ⟨u, hu, rfl⟩ := table_update ht
    exact h.groups_apply conjs hu
  · intro t ht
    obtain ⟨j, u, hu, rfl⟩ := htable ht
    exact h.grouped_apply hready conjs hu
  · intro id hid
    rw [heq] at hid
    rcases mem_append.1 hid with hid | hid
    · obtain ⟨c', hc', n, hn, rfl⟩ := mem_newIds.1 (expiringIds_subset hid)
      cases mem_singleton.1 hc'
      exact ⟨_, (mem_rules_apply hready).2 (.inr ⟨n, hn, rfl⟩), rfl, rfl⟩
    · obtain ⟨r, hr, rfl, hremoved⟩ := h.expirable id hid
      exact ⟨_, mark_mem_apply hready conjs hr, Rule.mark_id _ _ _, (Rule.mark_versions _ _ r).2.1.trans hremoved⟩
  · rw [heq]
    have hone : (expiringIds [c]).Nodup := by
      rw [expiringIds, flatMap_singleton]
      exact Option.toList_nodup _
    refine hone.append h.expires fun id hid hid' => ?_
    obtain ⟨c', hc', n, hn, rfl⟩ := mem_newIds.1 (expiringIds_subset hid)
    cases mem_singleton.1 hc'
    obtain ⟨r, hr, hrid, -⟩ := h.expirable n.id hid'
    exact (hready.placeable n hn).id r hr hrid
  · rw [heq]
    exact h.learned
  · exact h.balance_apply hready conjs

end

end LinkerOvs.FlowTable
