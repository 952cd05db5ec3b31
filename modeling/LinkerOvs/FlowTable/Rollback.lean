/-
A commit that fails takes everything back. While messages are begun and reverted, the tables are those from
before the commit together with a list of changes: without the rules placed, and with the marks forgotten,
they are what they were. A begun message adds its changes to the list, and its revert removes them, in
whatever order; when the list is empty the tables are the old ones.
-/
import LinkerOvs.FlowTable.CommitPoints
import LinkerOvs.FlowTable.Starts

namespace LinkerOvs.FlowTable

open Cls Ofp List
open Option (map_some filter_some map_none toList_none toList_some toList_nodup)
open Rule (mark mark_id mark_tableId)

variable {M : Type} {p q : Ofproto M} {c : Change M} {cs : List (Change M)}

/-! ## A list of changes -/

def newIds (cs : List (Change M)) : List Nat := cs.flatMap fun c => (c.new.map Rule.id).toList

def oldIds (cs : List (Change M)) : List Nat := cs.flatMap fun c => (c.old.map Rule.id).toList

/-- The rules that the changes placed and that expire. -/
def expiringIds (cs : List (Change M)) : List Nat :=
  cs.flatMap fun c => ((c.new.filter fun r => hasTimeout r).map Rule.id).toList

/-- The rules of a table with eviction groups that the changes placed into them. -/
def groupedIds (j : Nat) (eviction : Bool) (cs : List (Change M)) : List Nat :=
  cs.flatMap fun c => ((c.new.filter fun r => r.tableId = j && (eviction && hasTimeout r)).map Rule.id).toList

/-- The rules of a table that the changes took out of its eviction groups. -/
def evictedIds (j : Nat) (cs : List (Change M)) : List Nat :=
  cs.flatMap fun c => ((c.old.filter fun r => c.evicted && r.tableId = j).map Rule.id).toList

/-- How many flows more a table has after a change. -/
def Change.flows (j : Nat) (c : Change M) : UInt32 :=
  match c.old, c.new with
  | none, some new => if new.tableId = j then 1 else 0
  | some old, none => if old.tableId = j then -1 else 0
  | _, _ => 0

def flowsMore (j : Nat) : List (Change M) → UInt32
  | [] => 0
  | c :: cs => c.flows j + flowsMore j cs

theorem flowsMore_perm (j : Nat) {cs cs' : List (Change M)} (h : cs.Perm cs') : flowsMore j cs = flowsMore j cs' := by
  induction h with
  | nil => rfl
  | cons c _ ih => rw [flowsMore, flowsMore, ih]
  | swap c c' cs => simp only [flowsMore, ← UInt32.add_assoc, UInt32.add_comm (c.flows j)]
  | trans _ _ ih₁ ih₂ => rw [ih₁, ih₂]

/-- Rules with these addresses, as if nothing had removed them. -/
def Rule.forget (ids : List Nat) (r : Rule M) : Rule M := if r.id ∈ ids then r.setRemoveVersion none else r

open Rule (forget)

@[simp] theorem Rule.forget_id (ids : List Nat) (r : Rule M) : (r.forget ids).id = r.id := by
  unfold forget; split <;> rfl

@[simp] theorem Rule.forget_hasTimeout (ids : List Nat) (r : Rule M) : hasTimeout (r.forget ids) = hasTimeout r := by
  unfold forget; split <;> rfl

@[simp] theorem map_forget_nil (l : List (Rule M)) : l.map (forget []) = l := by
  conv_rhs => rw [← map_id l]
  exact map_congr_left fun r _ => if_neg not_mem_nil

theorem forget_mark_none (ids : List Nat) (old : Option Nat) (r : Rule M) :
    (r.mark old none).forget ids = r.forget (old.toList ++ ids) := by
  unfold forget mark
  cases old with
  | none => rfl
  | some id =>
    by_cases hid : id = r.id
    · subst hid
      simp [Rule.setRemoveVersion]
    · simp [hid, Ne.symm hid]

theorem forget_mark_some (ids : List Nat) (old : Option Nat) (version : Option Nat) (r : Rule M) :
    (r.mark old version).forget (old.toList ++ ids) = (r.forget ids).forget old.toList := by
  unfold forget mark
  cases old with
  | none => simp
  | some id =>
    by_cases hid : id = r.id
    · subst hid
      by_cases hmem : r.id ∈ ids <;> simp [Rule.setRemoveVersion, hmem]
    · by_cases hmem : r.id ∈ ids <;> simp [hid, Ne.symm hid, hmem, Rule.setRemoveVersion]

/-! ## The tables with changes pending -/

/-- No change is pending: what is removed is removed in the published version, the eviction groups hold rules with
timeouts that are not removed, and what may expire is a rule. -/
structure AtRest (p : Ofproto M) : Prop where
  tidy : Tidy p
  added : ∀ r ∈ p.rules, r.versions.addVersion ≤ p.tablesVersion
  removed : ∀ r ∈ p.rules, ∀ w ∈ r.versions.removeVersion, w ≤ p.tablesVersion
  groups : ∀ {j : Nat} {t : OfTable M}, p.tables[j]? = some t → ∀ id ∈ t.evictable,
    t.eviction = true ∧ ∃ r ∈ t.cls, r.id = id ∧ r.kept = true ∧ hasTimeout r = true
  expirable : ∀ id ∈ p.expirable, ∃ r ∈ p.rules, r.id = id

/-- A table is an old one with the changes. Of the rules that were placed, some may have left their groups again. -/
structure TablePending (j : Nat) (cs : List (Change M)) (t u : OfTable M) : Prop where
  cls : (u.cls.filter fun r => r.id ∉ newIds cs).map (forget (oldIds cs)) = t.cls
  nFlows : u.nFlows = t.nFlows + flowsMore j cs
  grouped : ∀ id, (u.evictable ++ evictedIds j cs).count id ≤ (groupedIds j t.eviction cs ++ t.evictable).count id
  evictable : ∀ id ∉ newIds cs, (u.evictable ++ evictedIds j cs).count id = t.evictable.count id
  maxFlows : u.maxFlows = t.maxFlows
  hidden : u.hidden = t.hidden
  readonly : u.readonly = t.readonly
  eviction : u.eviction = t.eviction

/-- The tables `q` are the tables `p` with the changes, which take effect in versions up to `version`. -/
structure Pending (p : Ofproto M) (version : Nat) (q : Ofproto M) (cs : List (Change M)) : Prop where
  tidy : Tidy q
  length : q.tables.length = p.tables.length
  tables : ∀ {j : Nat} {t u : OfTable M}, p.tables[j]? = some t → q.tables[j]? = some u → TablePending j cs t u
  cookies : q.cookies.Perm (newIds cs ++ p.cookies)
  expirable : q.expirable.Perm (expiringIds cs ++ p.expirable)
  others : q.tablesVersion = p.tablesVersion ∧ q.learnedCookies = p.learnedCookies ∧ q.groups = p.groups ∧
    q.meters = p.meters ∧ q.ports = p.ports
  nextId : p.nextId ≤ q.nextId
  newer : ∀ id ∈ newIds cs, ∀ r ∈ p.rules, r.id ≠ id
  distinct : (newIds cs).Nodup
  new : ∀ c ∈ cs, ∀ n ∈ c.new, ∃ r ∈ q.rules, r.id = n.id ∧ r.tableId = n.tableId ∧ hasTimeout r = hasTimeout n ∧
    r.removed = false ∧ p.tablesVersion < r.versions.addVersion
  old : ∀ c ∈ cs, ∀ o ∈ c.old, ∃ r ∈ q.rules, r.id = o.id ∧ r.tableId = o.tableId ∧
    (c.evicted = true → hasTimeout r = true) ∧ ∀ w ∈ r.versions.removeVersion, p.tablesVersion < w
  evicted : ∀ c ∈ cs, c.evicted = true → c.new.isSome = true ∧
    ∀ o ∈ c.old, ∀ {u : OfTable M}, q.tables[o.tableId]? = some u → u.eviction = true
  added : ∀ r ∈ q.rules, r.versions.addVersion ≤ version

theorem Pending.nil (h : AtRest p) : Pending p p.tablesVersion p [] := by
  refine ⟨h.tidy, rfl, fun {j t u} ht hu => ?_, .refl _, .refl _, ⟨rfl, rfl, rfl, rfl, rfl⟩, le_rfl, forall_mem_nil _,
    nodup_nil, forall_mem_nil _, forall_mem_nil _, forall_mem_nil _, h.added⟩
  cases ht.symm.trans hu
  have hcls : (t.cls.filter fun r => r.id ∉ newIds ([] : List (Change M))).map (forget (oldIds ([] : List (Change M))))
      = t.cls := by
    simp [newIds, oldIds]
  exact ⟨hcls, by simp [flowsMore], by simp [evictedIds, groupedIds], by simp [evictedIds], rfl, rfl, rfl, rfl⟩

theorem Pending.mono {version version' : Nat} (h : Pending p version q cs) (hle : version ≤ version') :
    Pending p version' q cs :=
  { h with added := fun r hr => (h.added r hr).trans hle }

theorem Pending.perm {version : Nat} {cs' : List (Change M)} (h : Pending p version q cs) (hperm : cs.Perm cs') :
    Pending p version q cs' := by
  have hnew : (newIds cs).Perm (newIds cs') := hperm.flatMap_right _
  have hold : (oldIds cs).Perm (oldIds cs') := hperm.flatMap_right _
  refine { h with
    tables := fun {j t u} ht hu => ?_
    cookies := h.cookies.trans (hnew.append_right _)
    expirable := h.expirable.trans ((hperm.flatMap_right _).append_right _)
    newer := fun id hid => h.newer id (hnew.mem_iff.2 hid)
    distinct := hnew.nodup_iff.1 h.distinct
    new := fun c hc => h.new c (hperm.mem_iff.2 hc)
    old := fun c hc => h.old c (hperm.mem_iff.2 hc)
    evicted := fun c hc => h.evicted c (hperm.mem_iff.2 hc) }
  have htable := h.tables ht hu
  have hevicted : (evictedIds j cs).Perm (evictedIds j cs') := hperm.flatMap_right _
  have hgrouped : (groupedIds j t.eviction cs).Perm (groupedIds j t.eviction cs') := hperm.flatMap_right _
  refine { htable with cls := ?_, nFlows := ?_, grouped := fun id => ?_, evictable := fun id hid => ?_ }
  · have hforget : forget (M := M) (oldIds cs') = forget (oldIds cs) := by
      funext r
      simp only [forget, hold.mem_iff]
    rw [hforget, ← htable.cls]
    simp only [hnew.mem_iff]
  · rw [htable.nFlows]
    rw [flowsMore_perm j hperm]
  · rw [← (hevicted.append_left _).count_eq, ← (hgrouped.append_right _).count_eq]
    exact htable.grouped id
  · rw [← (hevicted.append_left _).count_eq]
    exact htable.evictable id fun hmem => hid (hnew.mem_iff.1 hmem)

variable {j id : Nat} {t u : OfTable M}

theorem TablePending.mem_cls (h : TablePending j cs t u) {r : Rule M} :
    r ∈ t.cls ↔ ∃ r₀ ∈ u.cls, r₀.id ∉ newIds cs ∧ r₀.forget (oldIds cs) = r := by
  rw [← h.cls, mem_map]
  simp only [mem_filter, decide_eq_true_eq, and_assoc]

theorem mem_newIds : id ∈ newIds cs ↔ ∃ c ∈ cs, ∃ n ∈ c.new, n.id = id := by
  simp [newIds]

theorem mem_oldIds : id ∈ oldIds cs ↔ ∃ c ∈ cs, ∃ o ∈ c.old, o.id = id := by
  simp [oldIds]

theorem mem_toList_map {α β : Type} {o : Option α} {f : α → β} {b : β} : b ∈ (o.map f).toList ↔ ∃ a, o = some a ∧ f a = b :=
  Option.mem_toList.trans Option.map_eq_some_iff

theorem ids_filter_subset (f : Change M → Option (Rule M)) (keep : Change M → Rule M → Bool) :
    (cs.flatMap fun c => (((f c).filter (keep c)).map Rule.id).toList) ⊆ cs.flatMap fun c => ((f c).map Rule.id).toList := by
  intro id hid
  obtain ⟨c, hc, hmem⟩ := mem_flatMap.1 hid
  obtain ⟨r, hr, rfl⟩ := mem_toList_map.1 hmem
  exact mem_flatMap.2 ⟨c, hc, mem_toList_map.2 ⟨r, (Option.mem_filter_iff.1 hr).1, rfl⟩⟩

theorem expiringIds_subset : expiringIds cs ⊆ newIds cs := ids_filter_subset _ _

theorem TablePending.mem_evictable (h : TablePending j cs t u) (hid : id ∈ u.evictable) :
    id ∈ t.evictable ∨ ∃ c ∈ cs, ∃ n ∈ c.new, n.id = id ∧ n.tableId = j ∧ hasTimeout n = true := by
  have hpos := (count_pos_iff.2 (mem_append_left (evictedIds j cs) hid)).trans_le (h.grouped id)
  rcases mem_append.1 (count_pos_iff.1 hpos) with hid | hid
  · obtain ⟨c, hc, hmem⟩ := mem_flatMap.1 hid
    obtain ⟨n, hn, rfl⟩ := mem_toList_map.1 hmem
    obtain ⟨hn, hprop⟩ := Option.mem_filter_iff.1 hn
    grind
  · exact .inl hid

theorem TablePending.evictable_perm (h : TablePending j [] t u) : u.evictable.Perm t.evictable :=
  perm_iff_count.2 fun id => by simpa [evictedIds, newIds] using h.evictable id

theorem Pending.table {version : Nat} (h : Pending p version q cs) (ht : p.tables[j]? = some t) :
    ∃ u, q.tables[j]? = some u ∧ TablePending j cs t u := by
  have hlt := (List.getElem?_eq_some_iff.1 ht).1
  rw [← h.length] at hlt
  exact ⟨_, getElem?_eq_getElem hlt, h.tables ht (getElem?_eq_getElem hlt)⟩

theorem Pending.oldTable {version : Nat} (h : Pending p version q cs) (hu : q.tables[j]? = some u) :
    ∃ t, p.tables[j]? = some t ∧ TablePending j cs t u := by
  have hlt := (List.getElem?_eq_some_iff.1 hu).1
  rw [h.length] at hlt
  exact ⟨_, getElem?_eq_getElem hlt, h.tables (getElem?_eq_getElem hlt) hu⟩

theorem Pending.rule {version : Nat} {r : Rule M} (h : Pending p version q cs) (hr : r ∈ p.rules) :
    ∃ r₀ ∈ q.rules, r₀.id = r.id := by
  obtain ⟨j, t, ht, hmem⟩ := mem_rules.1 hr
  obtain ⟨u, hu, htable⟩ := h.table ht
  obtain ⟨r₀, hr₀, -, rfl⟩ := htable.mem_cls.1 hmem
  exact ⟨r₀, mem_rules.2 ⟨j, u, hu, hr₀⟩, (Rule.forget_id _ _).symm⟩

/-- The eviction groups hold rules of their table that have a timeout. -/
theorem Pending.groups (hp : AtRest p) {version : Nat} (h : Pending p version q cs)
    (hu : q.tables[j]? = some u) (hid : id ∈ u.evictable) :
    ∃ r ∈ q.rules, r.id = id ∧ r.tableId = j ∧ hasTimeout r = true := by
  obtain ⟨t, ht, htable⟩ := h.oldTable hu
  rcases htable.mem_evictable hid with hid | ⟨c, hc, n, hn, rfl, rfl, htimeout⟩
  · obtain ⟨-, r, hr, rfl, -, htimeout⟩ := hp.groups ht id hid
    obtain ⟨r₀, hr₀, -, rfl⟩ := htable.mem_cls.1 hr
    rw [Rule.forget_hasTimeout] at htimeout
    exact ⟨r₀, mem_rules.2 ⟨j, u, hu, hr₀⟩, (Rule.forget_id _ _).symm, h.tidy.home hu r₀ hr₀, htimeout⟩
  · obtain ⟨r, hr, hid, htable, htime, -⟩ := h.new c hc n hn
    exact ⟨r, hr, hid, htable, htime.trans htimeout⟩

/-! ## Making a change -/

def Change.applyTable (version : Nat) (conjs : List ClsConjunction) (c : Change M) (j : Nat) (u : OfTable M) : OfTable M :=
  { u with
    cls := u.cls.map (mark (c.old.map Rule.id) (some version)) ++
      ((c.new.filter fun n => n.tableId = j).map fun n => n.entered version conjs).toList
    nFlows := u.nFlows + c.flows j
    evictable := groupedIds j u.eviction [c] ++ u.evictable.diff (evictedIds j [c]) }

theorem expiring_cons (new : Rule M) (ids : List Nat) : (if hasTimeout new then new.id :: ids else ids) =
    ((if hasTimeout new then some new else none).map Rule.id).toList ++ ids := by
  split <;> rfl

variable {version : Nat}

theorem newIds_cons (c : Change M) (cs : List (Change M)) : newIds (c :: cs) = (c.new.map Rule.id).toList ++ newIds cs :=
  flatMap_cons

theorem expiringIds_cons (c : Change M) (cs : List (Change M)) :
    expiringIds (c :: cs) = expiringIds [c] ++ expiringIds cs := by simp [expiringIds]

theorem groupedIds_cons (eviction : Bool) (c : Change M) (cs : List (Change M)) :
    groupedIds j eviction (c :: cs) = groupedIds j eviction [c] ++ groupedIds j eviction cs := by simp [groupedIds]

theorem evictedIds_cons (c : Change M) (cs : List (Change M)) :
    evictedIds j (c :: cs) = evictedIds j [c] ++ evictedIds j cs := by simp [evictedIds]

theorem oldIds_cons (c : Change M) (cs : List (Change M)) : oldIds (c :: cs) = (c.old.map Rule.id).toList ++ oldIds cs :=
  flatMap_cons

theorem map_forget_kept {ids : List Nat} {l : List (Rule M)} (h : ∀ r ∈ l, r.id ∈ ids → r.kept = true) :
    l.map (forget ids) = l := by
  conv_rhs => rw [← map_id l]
  refine map_congr_left fun r hr => ?_
  unfold forget
  split
  · next hid =>
    have hkept : r.versions.removeVersion = none := Option.isNone_iff_eq_none.1 (h r hr hid)
    rw [Rule.setRemoveVersion, ← hkept, id_eq]
  · rfl

theorem TablePending.apply (h : TablePending j cs t u) (conjs : List ClsConjunction)
    (hkept : ∀ o ∈ c.old, ∀ r ∈ t.cls, r.id = o.id → r.kept = true) (hnew : ∀ n ∈ c.new, ∀ r ∈ u.cls, r.id ≠ n.id)
    (hgroup : ∀ id ∈ evictedIds j [c], id ∈ u.evictable) :
    TablePending j (c :: cs) t (c.applyTable version conjs j u) := by
  have hcount : ∀ id, (evictedIds j [c]).count id ≤ u.evictable.count id := by
    have hnodup : (evictedIds j [c]).Nodup := by
      rw [evictedIds, flatMap_singleton]
      exact toList_nodup _
    exact fun id => (hnodup.subperm hgroup).count_le id
  have hevictable : ∀ id, ((c.applyTable version conjs j u).evictable ++ evictedIds j (c :: cs)).count id =
      (groupedIds j t.eviction [c]).count id + (u.evictable ++ evictedIds j cs).count id := by
    intro id
    have hle := hcount id
    simp only [Change.applyTable, h.eviction, evictedIds_cons c cs, count_append, count_diff]
    omega
  refine { h with cls := ?_, nFlows := ?_, grouped := fun id => ?_, evictable := fun id hid => ?_ }
  · have hplaced : (((c.new.filter fun n => n.tableId = j).map fun n => n.entered version conjs).toList.filter
        fun r => r.id ∉ newIds (c :: cs)) = [] := by
      refine filter_eq_nil_iff.2 fun r hr => ?_
      obtain ⟨n, hn, rfl⟩ := mem_toList_map.1 hr
      have hmem : n.id ∈ newIds (c :: cs) :=
        mem_newIds.2 ⟨c, mem_cons_self, n, (Option.mem_filter_iff.1 hn).1, rfl⟩
      exact fun hnot => of_decide_eq_true hnot hmem
    have hothers : (u.cls.filter fun r => r.id ∉ newIds (c :: cs)) = u.cls.filter fun r => r.id ∉ newIds cs := by
      refine filter_congr fun r hr => ?_
      have hne : r.id ∉ (c.new.map Rule.id).toList := by
        intro hmem
        obtain ⟨n, hn, heq⟩ := mem_toList_map.1 hmem
        exact hnew n hn r hr heq.symm
      simp only [newIds_cons, mem_append, hne, false_or]
    have hfilter : ∀ l : List (Rule M), (l.map (mark (c.old.map Rule.id) (some version))).filter
        (fun r => r.id ∉ newIds (c :: cs)) = (l.filter fun r => r.id ∉ newIds (c :: cs)).map
          (mark (c.old.map Rule.id) (some version)) := by
      intro l
      rw [filter_map]
      congr 2
      funext r
      rw [Function.comp_apply, mark_id]
    show List.map _ (List.filter _ (_ ++ _)) = _
    rw [filter_append, hplaced, append_nil, hfilter, hothers, map_map]
    calc (u.cls.filter fun r => r.id ∉ newIds cs).map
          (forget (oldIds (c :: cs)) ∘ mark (c.old.map Rule.id) (some version))
        = ((u.cls.filter fun r => r.id ∉ newIds cs).map (forget (oldIds cs))).map
            (forget (c.old.map Rule.id).toList) := by
          rw [map_map]
          refine map_congr_left fun r _ => ?_
          rw [Function.comp_apply, Function.comp_apply, oldIds_cons, forget_mark_some]
      _ = t.cls := by
          rw [h.cls]
          refine map_forget_kept fun r hr hid => ?_
          obtain ⟨o, ho, heq⟩ := mem_toList_map.1 hid
          exact hkept o ho r hr heq.symm
  · show u.nFlows + c.flows j = t.nFlows + (c.flows j + flowsMore j cs)
    rw [h.nFlows, UInt32.add_assoc, UInt32.add_comm (flowsMore j cs)]
  · have hle := h.grouped id
    rw [hevictable]
    simp only [groupedIds_cons _ c cs, count_append] at hle ⊢
    omega
  · rw [newIds_cons, mem_append, not_or] at hid
    have hzero : (groupedIds j t.eviction [c]).count id = 0 := by
      refine count_eq_zero.2 fun hmem => hid.1 ?_
      have hnew : id ∈ newIds [c] := ids_filter_subset Change.new _ hmem
      simpa [newIds] using hnew
    rw [hevictable, hzero, Nat.zero_add, h.evictable id hid.2]

theorem Rule.mark_versions (id : Option Nat) (version : Option Nat) (r : Rule M) :
    (r.mark id version).versions.addVersion = r.versions.addVersion ∧ (r.mark id version).removed = r.removed ∧
      hasTimeout (r.mark id version) = hasTimeout r ∧
      ∀ w ∈ (r.mark id version).versions.removeVersion, w ∈ r.versions.removeVersion ∨ w ∈ version := by
  unfold mark
  split
  · exact ⟨rfl, rfl, rfl, fun w hw => .inr hw⟩
  · exact ⟨rfl, rfl, rfl, fun w hw => .inl hw⟩

/-- Placing a rule is a change that takes nothing out of an eviction group. -/
theorem placed_eq (old : Option (Rule M)) (new : Rule M) (conjs : List ClsConjunction) :
    placed q version (old.map Rule.id) new conjs = q.update (Change.applyTable version conjs ⟨old, some new, false⟩)
      (newIds [⟨old, some new, false⟩] ++ q.cookies) (expiringIds [⟨old, some new, false⟩] ++ q.expirable) := by
  simp only [placed, expiringIds, filter_some, flatMap_singleton, expiring_cons]
  refine update_congr _ _ fun j u hj => ?_
  by_cases hji : j = new.tableId
  · subst hji
    cases old <;> cases hev : u.eviction <;> cases htimeout : hasTimeout new <;>
      simp [Change.applyTable, Change.flows, groupedIds, evictedIds, hev, htimeout, filter_some]
  · cases old <;>
      simp [hji, Ne.symm hji, Change.applyTable, Change.flows, groupedIds, evictedIds, filter_some]

section

variable [DecidableEq M]

section

variable (h : Ready q version c)
include h

theorem apply_eq (conjs : List ClsConjunction) :
    c.apply q version conjs = q.update (c.applyTable version conjs) (newIds [c] ++ q.cookies)
      (expiringIds [c] ++ q.expirable) := by
  cases h with
  | @add new => exact placed_eq none new conjs
  | @replace old new => exact placed_eq (some old) new conjs
  | @evict old new t hnew hold htable ht heviction hgroup hfull hnone =>
    simp only [Change.apply, placed, evictOut, if_true, update_update, newIds, expiringIds, map_some,
      filter_some, flatMap_singleton, expiring_cons]
    refine update_congr _ _ fun j u hj => ?_
    by_cases hji : j = new.tableId
    · subst hji
      cases hev : u.eviction <;> cases htimeout : hasTimeout new <;>
        simp [Change.applyTable, Change.flows, groupedIds, evictedIds, hev, htimeout, htable, filter_some]
    · simp [hji, Ne.symm hji, Change.applyTable, Change.flows, groupedIds, evictedIds, htable, filter_some]
  | @delete old hold hkept =>
    refine update_congr _ _ fun j u hj => ?_
    by_cases hji : j = old.tableId
    · simp [hji, Change.applyTable, Change.flows, groupedIds, evictedIds, UInt32.sub_eq_add_neg]
    · simp [hji, Ne.symm hji, Change.applyTable, Change.flows, groupedIds, evictedIds]

theorem Ready.old_mem : ∀ o ∈ c.old, o ∈ q.rules := by
  cases h with
  | add => simp
  | replace _ hold | evict _ hold | delete hold =>
    simp [*]

theorem Ready.placeable : ∀ n ∈ c.new, Placeable q n := by
  cases h with
  | delete => simp
  | add hnew | replace hnew | evict hnew =>
    simp [*]

theorem Ready.grouped (hevicted : c.evicted = true) : c.new.isSome = true ∧
    ∀ o ∈ c.old, ∃ u, q.tables[o.tableId]? = some u ∧ u.eviction = true ∧ o.id ∈ u.evictable := by
  cases h with
  | add => cases hevicted
  | replace => cases hevicted
  | delete => cases hevicted
  | @evict old new t hnew hold htable ht heviction hgroup =>
    simp [*]

theorem mem_rules_apply {conjs : List ClsConjunction} {r : Rule M} :
    r ∈ (c.apply q version conjs).rules ↔ (∃ r₀ ∈ q.rules, r₀.mark (c.old.map Rule.id) (some version) = r) ∨
      ∃ n ∈ c.new, r = n.entered version conjs := by
  cases h with
  | add hnew =>
    simp only [Option.mem_some_iff, exists_eq_left']
    exact mem_rules_placed hnew.tableId
  | replace hnew =>
    simp only [Option.mem_some_iff, exists_eq_left']
    exact mem_rules_placed hnew.tableId
  | @evict old new t hnew =>
    have hplaced : r ∈ (placed (evictOut q old) version (some old.id) new conjs).rules ↔ _ :=
      mem_rules_placed (by simpa [evictOut] using hnew.tableId)
    simpa only [Change.apply, map_some, Option.mem_some_iff, exists_eq_left', if_true, rules_evictOut] using hplaced
  | @delete old =>
    simp only [Option.not_mem_none, false_and, exists_false, or_false]
    exact (ruleWise_deleted version old).mem_rules

theorem mark_mem_apply (conjs : List ClsConjunction) {r : Rule M} (hr : r ∈ q.rules) :
    r.mark (c.old.map Rule.id) (some version) ∈ (c.apply q version conjs).rules :=
  (mem_rules_apply h).2 (.inl ⟨r, hr, rfl⟩)

end

theorem Tidy.apply (ht : Tidy q) (h : Ready q version c) (conjs : List ClsConjunction) :
    Tidy (c.apply q version conjs) := by
  cases h with
  | add hnew => exact ht.placed hnew.tableId hnew.id hnew.lt
  | replace hnew => exact ht.placed hnew.tableId hnew.id hnew.lt
  | @evict old new t hnew =>
    exact (ht.update (ruleWise_evictOut old) _ _).placed (by simpa [evictOut] using hnew.tableId)
      (fun r hr => hnew.id r ((rules_evictOut old).1 hr)) hnew.lt
  | @delete old => exact ht.deleted version old

/-- An old rule of `p` that a change is about is not removed in `p`. -/
theorem Pending.old_kept (hp : AtRest p) (hlt : p.tablesVersion < version) (h : Pending p version q cs)
    (hready : Ready q version c) {o : Rule M} (ho : o ∈ c.old) {r : Rule M} (hr : r ∈ p.rules) (hid : r.id = o.id) :
    r.kept = true := by
  obtain ⟨j, t, ht, hmem⟩ := mem_rules.1 hr
  obtain ⟨u, hu, htable⟩ := h.table ht
  obtain ⟨r₀, hr₀, -, rfl⟩ := htable.mem_cls.1 hmem
  rw [Rule.forget_id] at hid
  obtain rfl := h.tidy.unique r₀ (mem_rules.2 ⟨j, u, hu, hr₀⟩) o (hready.old_mem o ho) hid
  by_cases hold : r₀.id ∈ oldIds cs
  · rw [forget, if_pos hold]
    rfl
  have hforget : r₀.forget (oldIds cs) = r₀ := if_neg hold
  rw [hforget] at hr hmem ⊢
  cases hready with
  | add => cases ho
  | delete _ hkept =>
    cases ho
    exact hkept
  | replace _ _ hvisible =>
    cases ho
    -- it is seen in the version of the change, and what removes a rule of `p` is older
    rcases hvisible with hvisible | hkept
    · unfold Rule.kept Versions.visibleIn
      unfold Versions.visibleIn at hvisible
      cases hremove : r₀.versions.removeVersion with
      | none => rfl
      | some w =>
        have hw := hp.removed r₀ hr w hremove
        grind
    · exact hkept
  | evict _ _ htab hu' _ hgroup =>
    cases ho
    have hhome := h.tidy.home hu r₀ hr₀
    rw [← htab, hhome, hu] at hu'
    cases hu'
    rcases htable.mem_evictable hgroup with hgroup | ⟨c, hc, n, hn, heq, -⟩
    · obtain ⟨-, r', hr', hid', hkept, -⟩ := hp.groups ht _ hgroup
      rwa [hp.tidy.unique r' (mem_rules.2 ⟨j, t, ht, hr'⟩) r₀ hr hid'] at hkept
    · -- a rule that was placed is no rule of `p`
      exact absurd heq.symm (h.newer n.id (mem_newIds.2 ⟨c, hc, n, hn, rfl⟩) r₀ hr)

theorem Pending.change (hp : AtRest p) (hlt : p.tablesVersion < version) (h : Pending p version q cs)
    (hready : Ready q version c) (conjs : List ClsConjunction) :
    Pending p version (c.apply q version conjs) (c :: cs) := by
  have heq := apply_eq hready conjs
  constructor
  · exact h.tidy.apply hready conjs
  · rw [heq, length_update, h.length]
  · intro j t u ht hu
    rw [heq] at hu
    obtain ⟨u, hu', rfl⟩ := table_update hu
    clear hu
    rename' hu' => hu
    refine (h.tables ht hu).apply conjs ?_ ?_ ?_
    · exact fun o ho r hr => h.old_kept hp hlt hready ho (mem_rules.2 ⟨j, t, ht, hr⟩)
    · exact fun n hn r hr => (hready.placeable n hn).id r (mem_rules.2 ⟨j, u, hu, hr⟩)
    · intro id hid
      simp only [evictedIds, flatMap_singleton, Option.mem_toList, Option.map_eq_some_iff] at hid
      obtain ⟨o, ho, rfl⟩ := hid
      obtain ⟨ho, hprop⟩ := Option.mem_filter_iff.1 ho
      simp only [Bool.and_eq_true, decide_eq_true_eq] at hprop
      obtain ⟨u', hu', -, hgroup⟩ := (hready.grouped hprop.1).2 o ho
      simp_all
  · rw [heq]
    have happend : newIds (c :: cs) = newIds [c] ++ newIds cs := by simp [newIds]
    rw [happend, append_assoc]
    exact h.cookies.append_left _
  · rw [heq]
    rw [expiringIds_cons c cs, append_assoc]
    exact h.expirable.append_left _
  · rw [heq]
    exact h.others
  · rw [heq]
    exact h.nextId
  · intro id hid r hr
    rcases mem_append.1 (newIds_cons c cs ▸ hid) with hid | hid
    · obtain ⟨n, hn, rfl⟩ := mem_toList_map.1 hid
      obtain ⟨r₀, hr₀, heq⟩ := h.rule hr
      exact heq ▸ (hready.placeable n hn).id r₀ hr₀
    · exact h.newer id hid r hr
  · refine (toList_nodup _).append h.distinct fun id hid hid' => ?_
    obtain ⟨n, hn, rfl⟩ := mem_toList_map.1 hid
    obtain ⟨c', hc', n', hn', heq⟩ := mem_newIds.1 hid'
    obtain ⟨r, hr, hr', -⟩ := h.new c' hc' n' hn'
    exact (hready.placeable n hn).id r hr (hr'.trans heq)
  · intro c' hc' n hn
    rcases mem_cons.1 hc' with rfl | hc'
    · exact ⟨_, (mem_rules_apply hready).2 (.inr ⟨n, hn, rfl⟩), rfl, rfl, rfl, rfl, hlt⟩
    · obtain ⟨r, hr, hid, htable, htimeout, hremoved, hadded⟩ := h.new c' hc' n hn
      obtain ⟨hadd, hrem, htime, -⟩ := Rule.mark_versions (c.old.map Rule.id) (some version) r
      exact ⟨_, mark_mem_apply hready conjs hr, by rw [mark_id, hid], by rw [mark_tableId, htable], htime.trans htimeout,
        hrem.trans hremoved, hadd ▸ hadded⟩
  · intro c' hc' o ho
    rcases mem_cons.1 hc' with rfl | hc'
    · refine ⟨_, mark_mem_apply hready conjs (hready.old_mem o ho), mark_id _ _ _, mark_tableId _ _ _, fun hevicted => ?_, ?_⟩
      · obtain ⟨u, hu, -, hgroup⟩ := (hready.grouped hevicted).2 o ho
        obtain ⟨r, hr, hid, -, htimeout⟩ := h.groups hp hu hgroup
        rw [(Rule.mark_versions _ _ o).2.2.1, ← h.tidy.unique r hr o (hready.old_mem o ho) hid]
        exact htimeout
      · have hold : c'.old.map Rule.id = some o.id := by rw [Option.mem_def.1 ho, map_some]
        rw [mark, if_pos hold]
        rintro w ⟨⟩
        exact hlt
    · obtain ⟨r, hr, hid, htable, htimeout, hremove⟩ := h.old c' hc' o ho
      obtain ⟨-, -, htime, hw⟩ := Rule.mark_versions (c.old.map Rule.id) (some version) r
      refine ⟨_, mark_mem_apply hready conjs hr, by rw [mark_id, hid], by rw [mark_tableId, htable],
        fun hevicted => htime.trans (htimeout hevicted), fun w hmem => ?_⟩
      grind
  · intro c' hc' hevicted
    have heviction : ∀ o : Rule M, (∀ {u : OfTable M}, q.tables[o.tableId]? = some u → u.eviction = true) →
        ∀ {u : OfTable M}, (c.apply q version conjs).tables[o.tableId]? = some u → u.eviction = true := by
      intro o ho u hu
      rw [heq] at hu
      obtain ⟨u₀, hu₀, rfl⟩ := table_update hu
      show u₀.eviction = true
      exact ho hu₀
    rcases mem_cons.1 hc' with rfl | hc'
    · refine ⟨(hready.grouped hevicted).1, fun o ho => heviction o fun {u} hu => ?_⟩
      obtain ⟨u', hu', heviction', -⟩ := (hready.grouped hevicted).2 o ho
      cases hu.symm.trans hu'
      exact heviction'
    · obtain ⟨hnew, hold⟩ := h.evicted c' hc' hevicted
      exact ⟨hnew, fun o ho => heviction o (hold o ho)⟩
  · intro r hr
    rcases (mem_rules_apply hready).1 hr with ⟨r₀, hr₀, rfl⟩ | ⟨n, hn, rfl⟩
    · rw [(Rule.mark_versions _ _ r₀).1]
      exact h.added r₀ hr₀
    · exact le_rfl

theorem Pending.keptByChanges (env : Provider M) (q₀ : Ofproto M) (fm : FlowMod M) (hp : AtRest p)
    (hlt : p.tablesVersion < version) : KeptByChanges env q₀ fm version (fun _ => True) (Pending p version) where
  tidy h := h.tidy
  versions h := h.added
  groups {_ _} h {_ _} ht id hid := by
    obtain ⟨r, hr, hrid, htable, -⟩ := h.groups hp ht hid
    exact ⟨r, hr, hrid, htable⟩
  nextId {q cs} h :=
    { h with
      tidy := h.tidy.of_tables rfl (Nat.le_succ _)
      nextId := Nat.le_succ_of_le h.nextId }
  change h hready _ conjs := h.change hp hlt hready conjs
  clash _ _ _ _ _ := trivial

end

/-! ## Taking a change back -/

/-- What the revert of a change does to a table. -/
def Change.undoTable (c : Change M) (j : Nat) (u : OfTable M) : OfTable M :=
  { u with
    cls := (u.cls.map (mark (c.old.map Rule.id) none)).filter fun r => r.id ∉ newIds [c]
    nFlows := u.nFlows - c.flows j
    evictable := (evictedIds j [c] ++ u.evictable).diff ((c.new.filter fun n => n.tableId = j).map Rule.id).toList }

def Change.undo (c : Change M) (q : Ofproto M) : Ofproto M :=
  q.update c.undoTable (q.cookies.diff (newIds [c])) (q.expirable.diff (newIds [c]))

theorem Pending.revert_eq (h : Pending p version q (c :: cs)) : c.ids.revert q = .ok (c.undo q) := by
  obtain ⟨old, new, evicted⟩ := c
  have hnew := h.new _ mem_cons_self
  have hold := h.old _ mem_cons_self
  have hevicted := h.evicted _ mem_cons_self
  cases new with
  | none =>
    cases old with
    | none =>
      refine congrArg Except.ok ?_
      refine (update_self fun j u _ => ?_).symm
      simp [Change.undoTable, Change.flows, newIds, evictedIds]
    | some old =>
      obtain ⟨o, ho, hid, htable, -⟩ := hold old rfl
      have hnot : evicted = false := by
        grind
      subst hnot
      show (do
        let r ← q.rule old.id
        let p ← q.modifyTable r.tableId fun t => { t with nFlows := t.nFlows + 1 }
        .ok (restoreVisibility p old.id)) = _
      rw [← hid, h.tidy.rule ho, Except.ok_bind, modifyTable_eq _ (h.tidy.tableId_lt ho), Except.ok_bind, restoreVisibility,
        modifyRule_eq, update_update, ← mark_some, Change.undo]
      refine congrArg Except.ok ?_
      refine update_congr _ _ fun j u _ => ?_
      by_cases hj : o.tableId = j <;>
        simp [Change.undoTable, Change.flows, newIds, evictedIds, @eq_comm _ j, hj, ← htable, hid]
  | some new =>
    obtain ⟨n, hn, hid, htable, -, hremoved, -⟩ := hnew new rfl
    have hplain : replaceRuleRevert q (old.map Rule.id) new.id = .ok (Change.undo ⟨old, some new, false⟩ q) := by
      rw [← hid, replaceRuleRevert_eq h.tidy hn hremoved, Change.undo]
      refine congrArg Except.ok ?_
      simp only [newIds, flatMap_singleton, map_some, toList_some, diff_cons, ← hid]
      refine update_congr _ _ fun j u _ => ?_
      by_cases hj : n.tableId = j <;> cases old <;>
        simp [Change.undoTable, Change.flows, newIds, evictedIds, @eq_comm _ j, hj, ← htable, hid, filter_some]
    cases old with
    | none => exact hplain
    | some old =>
      obtain ⟨o, ho, hoid, hotable, htimeout, -⟩ := hold old rfl
      cases evicted with
      | false => exact hplain
      | true =>
        show (do
          let p ← do
            let r ← q.rule old.id
            evictionGroupAddRule q r
          replaceRuleRevert p (some old.id) new.id) = _
        have htidy : Tidy (evictIn q o) := h.tidy.update (ruleWise_evictIn o) q.cookies q.expirable
        have hmem : n ∈ (evictIn q o).rules := (ruleWise_evictIn o).mem_rules.2 ⟨n, hn, rfl⟩
        rw [← hoid, ← hid, h.tidy.rule ho, Except.ok_bind, evictionGroupAdd_eq h.tidy ho, Except.ok_bind,
          replaceRuleRevert_eq htidy hmem hremoved, unplaced, evictIn, update_update, Change.undo]
        refine congrArg Except.ok ?_
        simp only [newIds, flatMap_singleton, map_some, toList_some, diff_cons, ← hid]
        refine update_congr _ _ fun j u hu => ?_
        have heviction : o.tableId = j → u.eviction = true :=
          fun hj => (hevicted rfl).2 old rfl (hotable.symm.trans hj ▸ hu)
        by_cases hjo : o.tableId = j <;> by_cases hj : n.tableId = j <;>
          simp [Change.undoTable, Change.flows, newIds, evictedIds, @eq_comm _ j, hjo, hj, ← htable, hid, filter_some,
            heviction, htimeout, ← hotable, hoid]

theorem erase_perm {l ids rest : List Nat} (h : l.Perm (ids ++ rest)) (hids : ids = [id] ∨ ids = [] ∧ id ∉ rest) :
    (l.erase id).Perm rest := by
  have herase := h.erase id
  rcases hids with rfl | ⟨rfl, hrest⟩
  · rwa [singleton_append, erase_cons_head] at herase
  · rwa [nil_append, erase_of_not_mem hrest] at herase

theorem TablePending.undo (h : TablePending j (c :: cs) t u)
    (hold : ∀ n ∈ c.new, n.id ∉ oldIds cs) (hnew : ∀ n ∈ c.new, n.id ∉ newIds cs) (hgroup : ∀ n ∈ c.new, n.id ∉ t.evictable) :
    TablePending j cs t (c.undoTable j u) := by
  have hnewest : ∀ id ∈ newIds [c], (evictedIds j cs).count id = 0 ∧ (groupedIds j t.eviction cs ++ t.evictable).count id = 0 := by
    intro id hid
    obtain ⟨c', hc', n, hn, rfl⟩ := mem_newIds.1 hid
    cases mem_singleton.1 hc'
    refine ⟨count_eq_zero.2 fun hmem => hold n hn (ids_filter_subset _ _ hmem), count_eq_zero.2 fun hmem => ?_⟩
    rcases mem_append.1 hmem with hmem | hmem
    · exact hnew n hn (ids_filter_subset _ _ hmem)
    · exact hgroup n hn hmem
  have hdrop : ∀ id, (groupedIds j t.eviction [c]).count id ≤ ((c.new.filter fun n => n.tableId = j).map Rule.id).toList.count id ∧
      (id ∉ newIds [c] → ((c.new.filter fun n => n.tableId = j).map Rule.id).toList.count id = 0) := by
    intro id
    cases hc : c.new with
    | none => simp [groupedIds, hc]
    | some n => by_cases hj : n.tableId = j <;> by_cases ht : t.eviction && hasTimeout n <;> simp [groupedIds, newIds, hc, hj, ht, filter_some, count_singleton, @eq_comm _ id]
  have hevictable : ∀ id, ((c.undoTable j u).evictable ++ evictedIds j cs).count id ≤
        (groupedIds j t.eviction cs ++ t.evictable).count id ∧
      (id ∉ newIds cs → ((c.undoTable j u).evictable ++ evictedIds j cs).count id = t.evictable.count id) := by
    intro id
    have hle := h.grouped id
    have heq := h.evictable id
    have hzero := hnewest id
    obtain ⟨hgroups, hothers⟩ := hdrop id
    simp only [evictedIds_cons c cs, groupedIds_cons _ c cs, Change.undoTable, count_append, count_diff] at *
    by_cases hid : id ∈ newIds [c]
    · have := hzero hid
      omega
    · have := hothers hid
      refine ⟨by omega, fun hcs => ?_⟩
      have := heq (by rw [newIds_cons, mem_append, not_or]; exact ⟨by simpa [newIds] using hid, hcs⟩)
      omega
  refine { h with cls := ?_, nFlows := ?_, grouped := fun id => (hevictable id).1, evictable := fun id => (hevictable id).2 }
  · have hfilter : ((u.cls.map (mark (c.old.map Rule.id) none)).filter fun r => r.id ∉ newIds [c]).filter
        (fun r => r.id ∉ newIds cs) = (u.cls.filter fun r => r.id ∉ newIds (c :: cs)).map
          (mark (c.old.map Rule.id) none) := by
      rw [filter_filter, filter_map]
      congr 2
      funext r
      rw [Bool.eq_iff_iff, Function.comp_apply, Bool.and_eq_true, decide_eq_true_eq, decide_eq_true_eq, decide_eq_true_eq,
        mark_id, newIds_cons c cs, newIds_cons c [], mem_append, mem_append]
      simp [newIds, and_comm]
    show List.map _ (List.filter _ (List.filter _ _)) = _
    rw [hfilter, map_map, ← h.cls]
    refine map_congr_left fun r _ => ?_
    rw [Function.comp_apply, forget_mark_none, oldIds_cons]
  · show u.nFlows - c.flows j = _
    rw [h.nFlows, flowsMore, UInt32.add_comm (c.flows j), ← UInt32.add_assoc, UInt32.add_sub_cancel]

theorem Pending.undo (hp : AtRest p) (h : Pending p version q (c :: cs)) (hold : ∀ n ∈ c.new, n.id ∉ oldIds cs) :
    Pending p version (c.undo q) cs := by
  have hprune : Prunes (c.old.map Rule.id) (newIds [c]) (c.undoTable : Nat → OfTable M → OfTable M) := fun _ _ => rfl
  have hmark : ∀ {r : Rule M}, r ∈ q.rules → r.id ∉ newIds [c] → r.mark (c.old.map Rule.id) none ∈ (c.undo q).rules :=
    fun {r} hr hid => hprune.mem_rules.2 ⟨r, hr, hid, rfl⟩
  have hdistinct := h.distinct
  rw [newIds_cons, nodup_append] at hdistinct
  have hnewIds : newIds [c] = (c.new.map Rule.id).toList := by simp [newIds]
  have hnew : ∀ n ∈ c.new, n.id ∉ newIds cs := by
    intro n hn hid
    exact hdistinct.2.2 n.id (by simpa using ⟨n, hn, rfl⟩) n.id hid rfl
  have hnewer : ∀ n ∈ c.new, ∀ r ∈ p.rules, r.id ≠ n.id :=
    fun n hn => h.newer n.id (mem_newIds.2 ⟨c, mem_cons_self, n, hn, rfl⟩)
  constructor
  · exact h.tidy.prune hprune _ _
  · rw [Change.undo, length_update, h.length]
  · intro j t u ht hu
    obtain ⟨u, hu', rfl⟩ := table_update hu
    refine (h.tables ht hu').undo hold hnew fun n hn hid => ?_
    obtain ⟨-, r, hr, hrid, -⟩ := hp.groups ht n.id hid
    exact hnewer n hn r (mem_rules.2 ⟨j, t, ht, hr⟩) hrid
  · show (q.cookies.diff (newIds [c])).Perm _
    have hcookies := h.cookies
    rw [newIds_cons, ← hnewIds, append_assoc] at hcookies
    cases hc : c.new with
    | none => simpa [newIds, hc] using hcookies
    | some n =>
      have hone : newIds [c] = [n.id] := by simp [newIds, hc]
      rw [hone, diff_cons]
      exact erase_perm hcookies (.inl hone)
  · show (q.expirable.diff (newIds [c])).Perm _
    have hexpirable := h.expirable
    rw [expiringIds_cons, append_assoc] at hexpirable
    cases hc : c.new with
    | none => simpa [newIds, expiringIds, hc] using hexpirable
    | some n =>
      have hone : newIds [c] = [n.id] := by simp [newIds, hc]
      have hrest : n.id ∉ expiringIds cs ++ p.expirable := by
        intro hid
        rcases mem_append.1 hid with hid | hid
        · exact hnew n hc (expiringIds_subset hid)
        · obtain ⟨r, hr, hrid⟩ := hp.expirable n.id hid
          exact hnewer n hc r hr hrid
      rw [hone, diff_cons]
      refine erase_perm hexpirable ?_
      rw [expiringIds, flatMap_singleton, hc, filter_some]
      simp [*]
  · exact h.others
  · exact h.nextId
  · exact fun id hid => h.newer id (by rw [newIds_cons]; exact mem_append_right _ hid)
  · exact hdistinct.2.1
  · intro c' hc' n hn
    obtain ⟨r, hr, hid, htable, htimeout, hremoved, hadded⟩ := h.new c' (mem_cons_of_mem _ hc') n hn
    obtain ⟨hadd, hrem, htime, -⟩ := Rule.mark_versions (c.old.map Rule.id) none r
    refine ⟨_, hmark hr ?_, by rw [mark_id, hid], by rw [mark_tableId, htable], htime.trans htimeout,
      hrem.trans hremoved, hadd ▸ hadded⟩
    rw [hnewIds, hid]
    intro hmem
    exact hdistinct.2.2 n.id hmem n.id (mem_newIds.2 ⟨c', hc', n, hn, rfl⟩) rfl
  · intro c' hc' o ho
    obtain ⟨r, hr, hid, htable, htimeout, hremove⟩ := h.old c' (mem_cons_of_mem _ hc') o ho
    obtain ⟨-, -, htime, hw⟩ := Rule.mark_versions (c.old.map Rule.id) none r
    refine ⟨_, hmark hr ?_, by rw [mark_id, hid], by rw [mark_tableId, htable],
      fun hevicted => htime.trans (htimeout hevicted), fun w hmem => ?_⟩
    · rw [hnewIds, hid]
      intro hmem
      obtain ⟨n, hn, heq⟩ := mem_toList_map.1 hmem
      exact hold n hn (heq ▸ mem_oldIds.2 ⟨c', hc', o, ho, rfl⟩)
    · grind
  · intro c' hc' hevicted
    obtain ⟨hsome, heviction⟩ := h.evicted c' (mem_cons_of_mem _ hc') hevicted
    refine ⟨hsome, fun o ho {u} hu => ?_⟩
    obtain ⟨u, hu', rfl⟩ := table_update hu
    show u.eviction = true
    exact heviction o ho hu'
  · intro r hr
    obtain ⟨r₀, hr₀, -, rfl⟩ := hprune.mem_rules.1 hr
    rw [(Rule.mark_versions _ _ r₀).1]
    exact h.added r₀ hr₀

/-- Taking the changes of a message back, in the order it recorded them. -/
theorem Pending.revertAll (hp : AtRest p) : ∀ {ds : List (Change M)} {q : Ofproto M}, Pending p version q (ds ++ cs) →
    (∀ d ∈ ds, ∀ n ∈ d.new, n.id ∉ oldIds (ds ++ cs)) →
    ∃ q', (ds.map Change.ids).foldlM IdChange.revert q = .ok q' ∧ Pending p version q' cs
  | [], q, h, _ => ⟨q, rfl, h⟩
  | d :: ds, q, h, hold => by
    have hsub : ∀ {id}, id ∉ oldIds (d :: (ds ++ cs)) → id ∉ oldIds (ds ++ cs) :=
      fun hid hmem => hid (by rw [oldIds_cons]; exact mem_append_right _ hmem)
    have hundo := Pending.undo hp h fun n hn => hsub (hold d mem_cons_self n hn)
    obtain ⟨q', hq', hpending⟩ := Pending.revertAll hp hundo
      fun d' hd' n hn => hsub (hold d' (mem_cons_of_mem _ hd') n hn)
    refine ⟨q', ?_, hpending⟩
    rw [map_cons, foldlM_cons, Pending.revert_eq h, Except.ok_bind, hq']

end LinkerOvs.FlowTable
