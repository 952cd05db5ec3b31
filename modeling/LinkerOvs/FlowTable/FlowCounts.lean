/-
Sequences of flow-mods, bundle commits and removals after the grace period, with the books kept: each table
counts the rules that the next version shows, an add does not take it over its limit, and no assertion fails.
A commit needs care: the eviction groups still hold the rules that its own messages have marked.
-/
import LinkerOvs.FlowTable.FailedCommit
import LinkerOvs.FlowTable.Finishing
import LinkerOvs.Lib.Run

namespace LinkerOvs.FlowTable

open Cls Ofp List

variable {M : Type} {env : Provider M} {p q : Ofproto M} {version : Nat} {c : Change M} {cs : List (Change M)}
  {olds news : List Nat}

/-! ## The start phase -/

/-- A flow-mod that is begun now will not evict a rule that is already marked. -/
def EvictsKept (env : Provider M) (q : Ofproto M) (fm : FlowMod M) : Prop :=
  ∀ (j : Nat) (t : OfTable M), q.tables[j]? = some t → t.eviction = true → fm.addsTo env q j →
    (∀ id ∈ t.evictable, ∃ r ∈ t.cls, r.id = id ∧ r.kept = true) ∨ t.nFlows.toNat < t.maxFlows.toNat

/-- What a flow-mod begun with the tables `q₀` has done so far. -/
structure StartBooks (env : Provider M) (q₀ : Ofproto M) (fm : FlowMod M) (version : Nat) (q : Ofproto M)
    (cs : List (Change M)) : Prop where
  books : Books version q (oldIds cs) (newIds cs)
  capped : Capped q₀ q
  grown : ∀ {j : Nat} {t u : OfTable M}, q₀.tables[j]? = some t → q.tables[j]? = some u →
    u.nFlows.toNat ≤ t.nFlows.toNat ∨ fm.addsTo env q₀ j ∧ u.nFlows.toNat ≤ t.nFlows.toNat + 1
  noLearns : NoLearns q₀ → learnsWithDelete fm.ofpacts = [] → NoLearns q

variable {q₀ : Ofproto M} {fm : FlowMod M}

section

variable [DecidableEq M]

theorem StartBooks.old_kept (hq₀ : EvictsKept env q₀ fm) (h : StartBooks env q₀ fm version q cs)
    (hready : Ready q version c) (hmade : c.MadeBy env q₀ fm q) : ∀ o ∈ c.old, o.kept = true := by
  refine h.books.old_kept hready fun hevicted => ?_
  cases hready with
  | add => cases hevicted
  | replace => cases hevicted
  | delete => cases hevicted
  | @evict old new t hnew hold htable ht heviction hgroup hfull hnone =>
    rintro o ⟨⟩
    obtain ⟨htables, htarget⟩ := hmade.first rfl
    have hfirst : q₀.tables[new.tableId]? = some t := htables ▸ ht
    rcases hq₀ _ t hfirst heviction (htarget new rfl) with hkept | hroom
    · obtain ⟨r, hr, hid, hkept⟩ := hkept old.id hgroup
      rwa [h.books.tidy.unique r (mem_rules.2 ⟨_, t, ht, hr⟩) old hold hid] at hkept
    · exact absurd (UInt32.le_iff_toNat_le.1 hfull) (Nat.not_le.2 hroom)

theorem StartBooks.grown_change (h : StartBooks env q₀ fm version q cs) (hready : Ready q version c)
    (hmade : c.MadeBy env q₀ fm q) (hkept : ∀ o ∈ c.old, o.kept = true) (conjs : List ClsConjunction) {j : Nat}
    {t u : OfTable M} (ht : q₀.tables[j]? = some t) (hu : (c.apply q version conjs).tables[j]? = some u) :
    u.nFlows.toNat ≤ t.nFlows.toNat ∨ fm.addsTo env q₀ j ∧ u.nFlows.toNat ≤ t.nFlows.toNat + 1 := by
  rw [apply_eq hready] at hu
  obtain ⟨u, hu', rfl⟩ := table_update hu
  have hgrown := h.grown ht hu'
  have hcount := h.books.nFlows u (mem_of_getElem? hu')
  have happly := h.books.nFlows_apply hready hkept conjs hu'
  show (u.nFlows + c.flows j).toNat ≤ _ ∨ _ ∧ (u.nFlows + c.flows j).toNat ≤ _
  cases hready with
  | @add new t' hnew ht' hroom hnone =>
    by_cases hj : new.tableId = j
    · subst hj
      obtain ⟨htables, htarget⟩ := hmade.first rfl
      rw [htables] at hu'
      cases hu'.symm.trans ht
      refine .inr ⟨htarget new rfl, ?_⟩
      simp [Change.flows]
      omega
    · simpa [Change.flows, hj] using hgrown
  | replace => simpa [Change.flows] using hgrown
  | evict => simpa [Change.flows] using hgrown
  | @delete old hmem hk =>
    have hle : (u.nFlows + Change.flows j ⟨some old, none, false⟩).toNat ≤ u.nFlows.toNat := by
      rw [happly, hcount]
      simp only [Change.applyTable, Option.filter_none, Option.map_none, Option.toList_none, append_nil,
        countP_map]
      exact countP_mono_left fun r _ hr => (kept_mark.1 hr).1
    exact hgrown.imp hle.trans (And.imp_right hle.trans)

theorem NoLearns.change (h : NoLearns q) (hready : Ready q version c)
    (hnew : ∀ n ∈ c.new, learnsWithDelete n.actions = []) (conjs : List ClsConjunction) :
    NoLearns (c.apply q version conjs) := by
  intro r hr hremoved
  rcases (mem_rules_apply hready).1 hr with ⟨r₀, hr₀, rfl⟩ | ⟨n, hn, rfl⟩
  · rw [(Rule.mark_versions _ _ r₀).2.1] at hremoved
    rw [Rule.mark_actions]
    exact h r₀ hr₀ hremoved
  · exact hnew n hn

theorem StartBooks.keptByChanges (hq₀ : EvictsKept env q₀ fm) :
    KeptByChanges env q₀ fm version (fun _ => False) (StartBooks env q₀ fm version) where
  tidy h := h.books.tidy
  versions h := h.books.added
  groups {_ _} h {_ _} ht id hid := by
    obtain ⟨-, r, hr, hrid, -⟩ := h.books.groups ht id hid
    exact ⟨r, mem_rules.2 ⟨_, _, ht, hr⟩, hrid, h.books.tidy.home ht r hr⟩
  nextId {_ _} h :=
    ⟨h.books.of_tables rfl (Nat.le_succ _) rfl rfl, h.capped.trans (.of_tables rfl), h.grown, h.noLearns⟩
  change {_ _ _} h hready hmade conjs := by
    have hkept := h.old_kept hq₀ hready hmade
    refine ⟨?_, h.capped.trans (h.books.capped_change hready hkept conjs), h.grown_change hready hmade hkept conjs, ?_⟩
    · rw [oldIds_cons, newIds_cons]
      exact h.books.change hready hkept conjs
    · intro hlearns hfm
      exact (h.noLearns hlearns hfm).change hready (fun n hn => by rw [hmade.actions n hn, hfm]) conjs
  clash h hready n hn hclash := by
    rw [h.books.not_clashes hready n hn] at hclash
    cases hclash

end

/-! ## The messages of a commit -/

theorem inOrder_append : ∀ {ds es : List (Change M)}, InOrder (ds ++ es) ↔
    InOrder ds ∧ InOrder es ∧ ∀ d ∈ ds, ∀ o ∈ d.old, o.id ∉ newIds es
  | [], es => by simp [InOrder]
  | d :: ds, es => by
    have hnew : newIds (ds ++ es) = newIds ds ++ newIds es := flatMap_append
    rw [cons_append, InOrder, InOrder, inOrder_append, hnew]
    grind

theorem inOrder_since {n : Nat} : ∀ {ds : List (Change M)}, (∀ d ∈ ds, d.Since n) → InOrder ds
  | [], _ => trivial
  | d :: ds, h => by
    refine ⟨fun o ho hid => ?_, inOrder_since fun d' hd' => h d' (mem_cons_of_mem _ hd')⟩
    obtain ⟨d', hd', r, hr, hrid⟩ := mem_newIds.1 hid
    have hold := (h d mem_cons_self).old o ho
    have hnew := (h d' (mem_cons_of_mem _ hd')).new r hr
    omega

variable {begun bs : List (Begun M)} {fms : List (FlowMod M)} {flags : UInt16} {msgs : List (BundleEntry M)}

theorem Stacked.inOrder (h : Stacked begun cs) : InOrder cs.reverse := by
  induction h with
  | nil => trivial
  | portMod _ ih => exact ih
  | @flowMod ofm bs cs ds n _ _ _ hsince hold ih =>
    rw [reverse_append, reverse_reverse, inOrder_append]
    refine ⟨ih, inOrder_since hsince, fun d hd o ho hid => ?_⟩
    obtain ⟨d', hd', r, hr, hrid⟩ := mem_newIds.1 hid
    have hlt := hold o.id (mem_oldIds.2 ⟨d, mem_reverse.1 hd, o, ho, rfl⟩)
    have hle := (hsince d' hd').new r hr
    omega

/-- The changes that the messages still have to finish, in order. -/
inductive Queued : List (Begun M) → List (Change M) → Prop
  | nil : Queued [] []
  | portMod {pm : PortMod} {port : OfPort} {bs : List (Begun M)} {es : List (Change M)} (h : Queued bs es) :
      Queued (.portMod pm port :: bs) es
  | flowMod {ofm : OfprotoFlowMod M} {bs : List (Begun M)} {ds es : List (Change M)} (hbegun : ofm.Begun)
      (hchanges : ofm.changes = ds.map Change.ids) (h : Queued bs es) : Queued (.flowMod ofm :: bs) (ds ++ es)

theorem Queued.append {bs' : List (Begun M)} {ds ds' : List (Change M)} (h : Queued bs ds) (h' : Queued bs' ds') :
    Queued (bs ++ bs') (ds ++ ds') := by
  induction h with
  | nil => exact h'
  | portMod _ ih => exact .portMod ih
  | flowMod hbegun hchanges _ ih =>
    rw [append_assoc]
    exact .flowMod hbegun hchanges ih

theorem Stacked.queued (h : Stacked begun cs) : Queued begun.reverse cs.reverse := by
  induction h with
  | nil => exact .nil
  | @portMod pm port bs cs _ ih =>
    have hqueued := ih.append (.portMod .nil : Queued [.portMod pm port] [])
    rwa [append_nil, ← reverse_cons] at hqueued
  | @flowMod ofm bs cs ds n _ hbegun hchanges _ _ ih =>
    rw [reverse_cons, reverse_append, reverse_reverse, ← append_nil ds]
    exact ih.append (.flowMod hbegun hchanges .nil)

def flowMods (msgs : List (BundleEntry M)) : List (FlowMod M) :=
  msgs.filterMap fun
    | .flowMod fm => some fm
    | .portMod _ => none

def begunFlowMods (bs : List (Begun M)) : List (OfprotoFlowMod M) :=
  bs.filterMap fun
    | .flowMod ofm => some ofm
    | .portMod .. => none

/-- The version published when the messages are finished. -/
def lastVersion (v : Nat) (bs : List (Begun M)) : Nat := (begunFlowMods bs).foldl (fun v ofm => max v ofm.version) v

theorem Queued.eq_nil {ds : List (Change M)} (h : Queued bs ds) (hbs : begunFlowMods bs = []) : ds = [] := by
  induction h with
  | nil => rfl
  | portMod _ ih => exact ih hbs
  | flowMod => cases hbs

theorem begunFlowMods_reverse (bs : List (Begun M)) : begunFlowMods bs.reverse = (begunFlowMods bs).reverse :=
  filterMap_reverse

theorem Stacked.eq_nil (h : Stacked bs cs) (hbs : begunFlowMods bs = []) : cs = [] := by
  have hreverse := h.queued.eq_nil (by rw [begunFlowMods_reverse, hbs, reverse_nil])
  exact reverse_eq_nil_iff.1 hreverse

theorem lastVersion_append_flowMod (v : Nat) (bs : List (Begun M)) (ofm : OfprotoFlowMod M) :
    lastVersion v (bs ++ [.flowMod ofm]) = max (lastVersion v bs) ofm.version := by
  simp [lastVersion, begunFlowMods]

theorem lastVersion_append_portMod (v : Nat) (bs : List (Begun M)) (pm : PortMod) (port : OfPort) :
    lastVersion v (bs ++ [.portMod pm port]) = lastVersion v bs := by
  simp [lastVersion, begunFlowMods]

/-- The rules that a flow-mod deletes, replaces or evicts. -/
def OfprotoFlowMod.displaced (ofm : OfprotoFlowMod M) : List Nat := ofm.changes.filterMap IdChange.old

theorem Stacked.displaced (h : Stacked begun cs) :
    ((begunFlowMods begun).flatMap OfprotoFlowMod.displaced).Perm (oldIds cs) := by
  induction h with
  | nil => exact .nil
  | portMod _ ih => exact ih
  | @flowMod ofm bs cs ds n _ _ hchanges _ _ ih =>
    have hds : ofm.displaced = oldIds ds := by
      rw [OfprotoFlowMod.displaced, hchanges, filterMap_map, filterMap_eq_flatMap_toList]
      rfl
    have hcons : (begunFlowMods (.flowMod ofm :: bs)).flatMap OfprotoFlowMod.displaced =
        ofm.displaced ++ (begunFlowMods bs).flatMap OfprotoFlowMod.displaced := flatMap_cons
    have happend : oldIds (ds.reverse ++ cs) = oldIds ds.reverse ++ oldIds cs := flatMap_append
    rw [hcons, hds, happend]
    exact ((reverse_perm ds).symm.flatMap_right _).append ih

/-! ## What a commit needs -/

instance (env : Provider M) (p : Ofproto M) (fm : FlowMod M) (j : Nat) : Decidable (fm.addsTo env p j) := by
  unfold FlowMod.addsTo FlowModCommand.modifies
  infer_instance

/-- Each table with eviction groups to which the flow-mods may add has room for all of them. -/
def RoomFor (env : Provider M) (p : Ofproto M) (fms : List (FlowMod M)) : Prop :=
  ∀ (j : Nat) (t : OfTable M), p.tables[j]? = some t → t.eviction = true →
    fms.countP (fun fm => fm.addsTo env p j) = 0 ∨
      t.nFlows.toNat + fms.countP (fun fm => fm.addsTo env p j) ≤ t.maxFlows.toNat

/-- The bundle has one flow-mod at most; or no cookies of learned flows are counted, and there is room where there
are eviction groups. -/
def CommitSafe (env : Provider M) (p : Ofproto M) (fms : List (FlowMod M)) : Prop :=
  fms.length ≤ 1 ∨ NoLearns p ∧ (∀ fm ∈ fms, learnsWithDelete fm.ofpacts = []) ∧ RoomFor env p fms

def ChoosesTables (env : Provider M) (p : Ofproto M) : Prop := ∀ fm i, addTable env p fm = .ok i → i < p.tables.length

theorem ChoosesTables.congr (h : ChoosesTables env p) (hlength : q.tables.length = p.tables.length) :
    ChoosesTables env q := by
  intro fm i hi
  rw [addTable_congr env fm hlength] at hi
  rw [hlength]
  exact h fm i hi

/-- How the commit avoids evicting rules that its own messages have marked and flushing flows that they add. -/
inductive CommitMode (env : Provider M) (q : Ofproto M) (begun : List (Begun M)) (fms : List (FlowMod M)) : Prop
  | single (h : (begunFlowMods begun).length + fms.length ≤ 1)
  | roomy (hlearns : NoLearns q) (hnone : ∀ fm ∈ fms, learnsWithDelete fm.ofpacts = []) (hroom : RoomFor env q fms)

/-- The books at the points of a commit that started with the tables `p`. -/
def CountsAt (env : Provider M) (p : Ofproto M) : CommitPoint M → Prop
  | .beginning q version _ begun todo => ∃ cs, Pending p version q cs ∧ Stacked begun cs ∧
      Books (lastVersion p.tablesVersion begun.reverse) q (oldIds cs) (newIds cs) ∧
      lastVersion p.tablesVersion begun.reverse ≤ version ∧ p.tablesVersion < version ∧ Capped p q ∧
      (∀ fm ∈ flowMods todo, fm.Decoded) ∧ CommitMode env q begun (flowMods todo)
  | .reverting q begun => (∃ version cs, Pending p version q cs ∧ Stacked begun cs) ∨
      Settled q ∧ Capped p q ∧ begunFlowMods begun = []
  | .finishing q todo => ∃ ds, Queued todo ds ∧ InOrder ds ∧
      Books (lastVersion q.tablesVersion todo) q (oldIds ds) (newIds ds) ∧ Capped p q ∧
      ((begunFlowMods todo).length ≤ 1 ∨ NoLearns q)
  | .published q ofm todo => ∃ ds es, ofm.Begun ∧ ofm.changes = ds.map Change.ids ∧ Queued todo es ∧ InOrder (ds ++ es) ∧
      Books (lastVersion q.tablesVersion todo) q (oldIds (ds ++ es)) (newIds (ds ++ es)) ∧ Capped p q ∧
      (begunFlowMods todo = [] ∨ NoLearns q)
  | .answered q _ => Settled q ∧ Capped p q

theorem Settled.countsAt_start (hp : Settled p) (hdecoded : ∀ fm ∈ flowMods msgs, fm.Decoded)
    (hsafe : CommitSafe env p (flowMods msgs)) : CountsAt env p (commitStart p msgs) := by
  refine ⟨[], (Pending.nil hp.atRest).mono (Nat.le_succ _), .nil, hp, Nat.le_succ _, Nat.lt_succ_self _, .of_tables rfl,
    hdecoded, ?_⟩
  rcases hsafe with hone | ⟨hlearns, hnone, hroom⟩
  · refine .single ?_
    show 0 + _ ≤ 1
    rwa [Nat.zero_add]
  · exact .roomy hlearns hnone hroom

theorem Books.groups_kept (h : Books version q [] news) {j : Nat} {t : OfTable M} (ht : q.tables[j]? = some t) :
    ∀ id ∈ t.evictable, ∃ r ∈ t.cls, r.id = id ∧ r.kept = true := by
  intro id hid
  obtain ⟨-, r, hr, hrid, hremoved, -⟩ := h.groups ht id hid
  refine ⟨r, hr, hrid, ?_⟩
  by_contra hkept
  exact not_mem_nil (h.leaving r (mem_rules.2 ⟨j, t, ht, hr⟩) (Bool.eq_false_iff.2 hkept) hremoved)

theorem RoomFor.lt (h : RoomFor env q (fm :: fms)) {j : Nat} {t : OfTable M} (ht : q.tables[j]? = some t)
    (heviction : t.eviction = true) (hadds : fm.addsTo env q j) : t.nFlows.toNat < t.maxFlows.toNat := by
  have hcount : 0 < (fm :: fms).countP (fun fm => fm.addsTo env q j) :=
    countP_pos_iff.2 ⟨fm, mem_cons_self, decide_eq_true hadds⟩
  rcases h j t ht heviction with hzero | hle
  · omega
  · omega

theorem CommitMode.evictsKept {fm : FlowMod M}
    (h : CommitMode env q begun (fm :: fms)) (hstacked : Stacked begun cs) (hbooks : Books version q (oldIds cs) news) :
    EvictsKept env q fm := by
  intro j t ht heviction hadds
  cases h with
  | single h =>
    have hnone : begunFlowMods begun = [] := by
      rw [length_cons] at h
      exact length_eq_zero_iff.1 (by omega)
    obtain rfl := hstacked.eq_nil hnone
    exact .inl (hbooks.groups_kept ht)
  | roomy _ _ hroom => exact .inr (hroom.lt ht heviction hadds)

/-- A commit that was taken back leaves the books as they were. -/
theorem Settled.of_pending (hp : Settled p) (h : Pending p version q []) : Settled q ∧ Capped p q := by
  have hsame := h.sameTables
  have hrules : q.rules = p.rules := by
    rw [Ofproto.rules, Ofproto.rules, flatMap_def, flatMap_def, hsame.cls]
  have htable : ∀ {j : Nat} {u : OfTable M}, q.tables[j]? = some u → ∃ t : OfTable M, p.tables[j]? = some t ∧
      u.cls = t.cls ∧ u.nFlows = t.nFlows ∧ u.evictable.Perm t.evictable ∧ TablePending j [] t u := by
    intro j u hu
    obtain ⟨t, ht, htab⟩ := h.oldTable hu
    refine ⟨t, ht, ?_, ?_, ?_, htab⟩
    · rw [← htab.cls]
      simp [newIds, oldIds]
    · rw [htab.nFlows]
      simp [flowsMore]
    · exact htab.evictable_perm
  constructor
  · unfold Settled
    rw [h.others.1]
    refine hp.transfer h.tidy (.of_eq hrules) (fun hu => ?_) hsame.expirable h.others.2.1
    obtain ⟨t, ht, hcls, hflows, hperm, htab⟩ := htable hu
    exact ⟨t, ht, hcls, hflows, htab.eviction, hperm.subperm⟩
  · refine ⟨h.length, fun {j t u} ht hu => ?_⟩
    obtain ⟨t', ht', -, hflows, -, htab⟩ := htable hu
    cases ht.symm.trans ht'
    exact ⟨htab.maxFlows, htab.eviction, by rw [hflows]; exact le_max_left _ _⟩

theorem Books.evictOut (h : Books version q olds news) (o : Rule M) :
    Books version (FlowTable.evictOut q o) olds news ∧ Capped q (FlowTable.evictOut q o) := by
  have hperm : (FlowTable.evictOut q o).rules.Perm q.rules := by
    have hwise := (ruleWise_evictOut o).rules_perm (q := q) q.cookies q.expirable
    rwa [map_id] at hwise
  have htable : ∀ {j : Nat} {u : OfTable M}, (FlowTable.evictOut q o).tables[j]? = some u →
      ∃ t : OfTable M, q.tables[j]? = some t ∧ ∃ ids, ids.Sublist t.evictable ∧ u = { t with evictable := ids } := by
    intro j u hu
    obtain ⟨t, ht, rfl⟩ := table_update hu
    refine ⟨t, ht, ?_⟩
    split
    · exact ⟨_, erase_sublist, rfl⟩
    · exact ⟨_, .refl _, rfl⟩
  constructor
  · refine h.transfer (h.tidy.update (ruleWise_evictOut o) _ _) hperm (fun hu => ?_) (.refl _) rfl
    obtain ⟨t, ht, ids, hids, rfl⟩ := htable hu
    exact ⟨t, ht, rfl, rfl, rfl, hids.subperm⟩
  · refine ⟨length_update _ _ _, fun {j t u} ht hu => ?_⟩
    grind

/-! ## The steps of a commit -/

theorem RoomFor.start {q' : Ofproto M} (h : RoomFor env q (fm :: fms)) (hstart : StartBooks env q fm version q' cs) :
    RoomFor env q' fms := by
  intro j u hu heviction
  have hlt := (List.getElem?_eq_some_iff.1 hu).1
  rw [hstart.capped.length] at hlt
  have ht := getElem?_eq_getElem hlt
  obtain ⟨hmax, hev, -⟩ := hstart.capped.table ht hu
  have hcount : fms.countP (fun fm => fm.addsTo env q' j) = fms.countP (fun fm => fm.addsTo env q j) :=
    countP_congr fun fm _ => by
      rw [decide_eq_true_eq, decide_eq_true_eq, FlowMod.addsTo, FlowMod.addsTo, addTable_congr env fm hstart.capped.length]
  rw [hcount, hmax]
  have hroom := h j _ ht (hev ▸ heviction)
  rw [countP_cons] at hroom
  have hgrown := hstart.grown ht hu
  grind

theorem CommitMode.start {q' : Ofproto M} {ofm : OfprotoFlowMod M}
    (h : CommitMode env q begun (fm :: fms)) (hstart : StartBooks env q fm version q' cs) :
    CommitMode env q' (.flowMod ofm :: begun) fms := by
  cases h with
  | single h =>
    refine .single ?_
    show (begunFlowMods begun).length + 1 + fms.length ≤ 1
    rw [length_cons] at h
    omega
  | roomy hlearns hnone hroom =>
    exact .roomy (hstart.noLearns hlearns (hnone fm mem_cons_self))
      (fun fm' hfm' => hnone fm' (mem_cons_of_mem _ hfm')) (hroom.start hstart)

theorem publish_eq (q : Ofproto M) (v : Nat) : publish q v = { q with tablesVersion := max q.tablesVersion v } := by
  unfold publish
  by_cases hlt : q.tablesVersion < v
  · rw [if_pos hlt, max_eq_right hlt.le]
  · rw [if_neg hlt, max_eq_left (Nat.not_lt.1 hlt)]

variable [DecidableEq M]

theorem CountsAt.step_beginning {prevIsPortMod : Bool}
    {todo : List (BundleEntry M)} (hp : Settled p) (hchoose : ChoosesTables env p)
    (h : CountsAt env p (.beginning q version prevIsPortMod begun (.flowMod fm :: todo))) :
    (commitStep env flags (.beginning q version prevIsPortMod begun (.flowMod fm :: todo))).Meets (fun _ => False)
      (CountsAt env p) := by
  obtain ⟨cs, hpending, hstacked, hbooks, hlast, hlt, hcapped, hdecoded, hmode⟩ := h
  have hle : version ≤ if prevIsPortMod then version + 1 else version := by split <;> omega
  have hbegin : StartBooks env q fm (if prevIsPortMod then version + 1 else version) q cs := by
    refine ⟨hbooks.mono (hlast.trans hle), .of_tables rfl, fun {j t u} ht hu => ?_, fun hlearns _ => hlearns⟩
    simp_all
  have hstart := ((StartBooks.keptByChanges (hmode.evictsKept hstacked hbooks)).and
    (Pending.keptByChanges env q fm hp.atRest (hlt.trans_le hle))).start
      ⟨fm, if prevIsPortMod then version + 1 else version, [], [], none⟩ ⟨hbegin, hpending.mono hle⟩ rfl rfl
      (hdecoded fm mem_cons_self) fun i hi => .inl (hchoose.congr hcapped.length fm i hi)
  rw [commitStep]
  refine hstart.bind ?_
  rintro ⟨q', r⟩ hr
  cases r with
  | error e =>
    rcases hr with ⟨-, hq'⟩ | ⟨old, ⟨hold, hadds, t, ht, heviction, -, hfull, -⟩, rfl⟩
    · exact .inl ⟨_, cs, hq', hstacked⟩
    cases hmode with
    | single hone =>
      -- nothing is begun, and the rule has left its eviction group
      have hnone : begunFlowMods begun = [] := by
        change _ + ((flowMods todo).length + 1) ≤ 1 at hone
        exact length_eq_zero_iff.1 (by omega)
      obtain rfl := hstacked.eq_nil hnone
      have hversion : lastVersion p.tablesVersion begun.reverse = p.tablesVersion := by
        rw [lastVersion, begunFlowMods_reverse, hnone]
        rfl
      obtain ⟨hbooks', hcapped'⟩ := hbooks.evictOut old
      refine .inr ⟨?_, hcapped.trans hcapped', hnone⟩
      show Books q.tablesVersion _ _ _
      rw [hpending.others.1, ← hversion]
      exact hbooks'
    | roomy _ _ hroom => exact absurd (UInt32.le_iff_toNat_le.1 hfull) (Nat.not_le.2 (hroom.lt ht heviction hadds))
  | ok ofm =>
    obtain ⟨hofm, hversion, ds, hchanges, hsince, hstart', hpending'⟩ := hr
    have hold : ∀ id ∈ oldIds cs, id < q.nextId := by
      intro id hid
      obtain ⟨c, hc, o, ho, rfl⟩ := mem_oldIds.1 hid
      obtain ⟨r, hr, hrid, -⟩ := hpending.old c hc o ho
      rw [← hrid]
      exact hpending.tidy.fresh r hr
    have hlast' : lastVersion p.tablesVersion (Begun.flowMod ofm :: begun).reverse =
        if prevIsPortMod then version + 1 else version := by
      rw [reverse_cons, lastVersion_append_flowMod, hversion]
      exact max_eq_right (hlast.trans hle)
    refine ⟨_, hpending', .flowMod hstacked hofm hchanges hsince hold, ?_, hlast'.le, hlt.trans_le hle,
      hcapped.trans hstart'.capped, fun fm' hfm' => hdecoded fm' (mem_cons_of_mem _ hfm'), hmode.start hstart'⟩
    rw [hlast']
    exact hstart'.books

theorem CountsAt.step_published {ofm : OfprotoFlowMod M} {todo : List (Begun M)}
    (h : CountsAt env p (.published q ofm todo)) :
    (commitStep env flags (.published q ofm todo)).Meets (fun _ => False) (CountsAt env p) := by
  obtain ⟨ds, es, hofm, hchanges, hqueued, horder, hbooks, hcapped, hmode⟩ := h
  obtain ⟨q₁, dead, heq, hfinished⟩ := Books.finishAll [] hbooks horder
  have horder' : InOrder es := (inOrder_append.1 horder).2.1
  rw [commitStep, flowModFinish_eq env hofm, hchanges, heq, Except.ok_bind]
  rcases hmode with hnone | hlearns
  · -- it is the last flow-mod, so the flush finds the books settled
    obtain rfl := hqueued.eq_nil hnone
    have hversion : ∀ v, lastVersion v todo = v := by
      intro v
      rw [lastVersion, hnone]
      rfl
    have hsettled : Settled q₁ := by
      have hbooks₁ := hfinished.books
      rw [hversion, ← hfinished.tablesVersion] at hbooks₁
      exact hbooks₁
    obtain ⟨q₂, heq₂, hsettled₂, hcapped₂⟩ := Settled.flushRounds env (q₁.rules.length + 1) dead hsettled
    rw [show learnedCookiesFlush env q₁ dead = .ok q₂ from heq₂, Except.ok_bind]
    refine ⟨[], hqueued, trivial, ?_, (hcapped.trans hfinished.capped).trans hcapped₂, .inl (by rw [hnone]; exact Nat.zero_le _)⟩
    rw [hversion]
    exact hsettled₂
  · -- no cookies are counted, so none is dead
    obtain ⟨hlearns₁, rfl⟩ := hfinished.noLearns hlearns
    rw [learnedCookiesFlush_nil, Except.ok_bind]
    refine ⟨es, hqueued, horder', ?_, hcapped.trans hfinished.capped, .inr hlearns₁⟩
    rw [hfinished.tablesVersion]
    exact hfinished.books

theorem CountsAt.step (flags : UInt16) (hp : Settled p) (hchoose : ChoosesTables env p) (c : CommitPoint M)
    (h : CountsAt env p c) : (commitStep env flags c).Meets (fun _ => False) (CountsAt env p) := by
  cases c with
  | beginning q version prevIsPortMod begun todo =>
    cases todo with
    | nil =>
      obtain ⟨cs, hpending, hstacked, hbooks, -, -, hcapped, -, hmode⟩ := h
      refine ⟨cs.reverse, hstacked.queued, hstacked.inOrder, ?_, hcapped, ?_⟩
      · rw [hpending.others.1]
        exact hbooks.perm ((reverse_perm cs).symm.flatMap_right _) ((reverse_perm cs).symm.flatMap_right _)
      · cases hmode with
        | single hone =>
          refine .inl ?_
          rw [begunFlowMods_reverse, length_reverse]
          exact (Nat.le_add_right _ _).trans hone
        | roomy hlearns => exact .inr hlearns
    | cons entry todo =>
      cases entry with
      | flowMod fm => exact CountsAt.step_beginning hp hchoose h
      | portMod pm =>
        obtain ⟨cs, hpending, hstacked, hbooks, hlast, hlt, hcapped, hdecoded, hmode⟩ := h
        rw [commitStep]
        split
        · exact .inl ⟨version, cs, hpending, hstacked⟩
        split
        · exact .inl ⟨version, cs, hpending, hstacked⟩
        next port hport =>
        have hversion : lastVersion p.tablesVersion (Begun.portMod pm port :: begun).reverse =
            lastVersion p.tablesVersion begun.reverse := by
          rw [reverse_cons, lastVersion_append_portMod]
        refine ⟨cs, hpending, .portMod hstacked, ?_, ?_, hlt, hcapped, hdecoded, ?_⟩
        · simp_all
        · omega
        · cases hmode with
          | single hone => exact .single hone
          | roomy hlearns hnone hroom => exact .roomy hlearns hnone hroom
  | reverting q begun =>
    rcases h with ⟨version, cs, hpending, hstacked⟩ | ⟨hsettled, hcapped, hnone⟩
    · cases hstacked with
      | nil => exact hp.of_pending hpending
      | portMod hstacked => exact .inl ⟨version, _, hpending, hstacked⟩
      | flowMod hstacked hbegun hchanges hsince hold =>
        obtain ⟨q', hq', hpending'⟩ := hpending.revert hp.atRest hbegun hchanges hsince hold
        rw [commitStep, hq']
        exact .inl ⟨version, _, hpending', hstacked⟩
    · cases begun with
      | nil => exact ⟨hsettled, hcapped⟩
      | cons b begun =>
        cases b with
        | portMod pm port => exact .inr ⟨hsettled, hcapped, hnone⟩
        | flowMod ofm => cases hnone
  | finishing q todo =>
    obtain ⟨ds, hqueued, horder, hbooks, hcapped, hmode⟩ := h
    cases hqueued with
    | nil => exact ⟨hbooks, hcapped⟩
    | portMod hqueued =>
      refine ⟨ds, hqueued, horder, hbooks.of_tables rfl le_rfl rfl rfl, hcapped.trans (.of_tables rfl), ?_⟩
      exact hmode
    | @flowMod ofm bs ds es hbegun hchanges hqueued =>
      have hsame := publish_eq q ofm.version
      refine ⟨ds, es, hbegun, hchanges, hqueued, horder, ?_, ?_, ?_⟩
      · rw [hsame]
        exact hbooks.of_tables rfl le_rfl rfl rfl
      · exact hcapped.trans (.of_tables (by rw [hsame]))
      · refine hmode.imp (fun hone => ?_) fun hlearns => by rw [hsame]; exact hlearns
        change (begunFlowMods bs).length + 1 ≤ 1 at hone
        exact length_eq_zero_iff.1 (by omega)
  | published q ofm todo => exact CountsAt.step_published h
  | answered q answer => exact h

/-! ## The operations -/

theorem Settled.commit (hp : Settled p) (hchoose : ChoosesTables env p)
    (hdecoded : ∀ fm ∈ flowMods msgs, fm.Decoded) (hsafe : CommitSafe env p (flowMods msgs)) :
    (commitBundle env flags p msgs).Meets (fun _ => False) fun r => Settled r.1 ∧ Capped p r.1 :=
  outcome_meets (CountsAt.step flags hp hchoose) _ (hp.countsAt_start hdecoded hsafe)

/-- A flow-mod of its own goes the way of a bundle with one message. -/
theorem Settled.flowMod (hp : Settled p) (hchoose : ChoosesTables env p) (hdecoded : fm.Decoded) :
    (handleFlowModCommon env p fm).Meets (fun _ => False) fun r => Settled r.1 ∧ Capped p r.1 := by
  have hstart : CountsAt env p (commitStart p [.flowMod fm]) := by
    refine hp.countsAt_start ?_ (.inl le_rfl)
    intro fm' hfm'
    cases mem_singleton.1 hfm'
    exact hdecoded
  have hstep := CountsAt.step 0 hp hchoose
  have hbegun := hstep _ hstart
  have hversion := (Pending.keptByChanges env p fm hp.atRest (Nat.lt_succ_self _)).start
    ⟨fm, p.tablesVersion + 1, [], [], none⟩ ((Pending.nil hp.atRest).mono (Nat.le_succ _)) rfl rfl hdecoded
    fun i hi => .inl (hchoose fm i hi)
  unfold commitStart at hbegun
  rw [commitStep, if_neg Bool.false_ne_true] at hbegun
  obtain ⟨_, hc, -⟩ := hbegun.exists_ok
  obtain ⟨⟨q, r⟩, hs, -⟩ := Except.bind_eq_ok hc
  rw [hs, Except.ok_bind] at hbegun
  rw [hs] at hversion
  rw [handleFlowModCommon, hs, Except.ok_bind]
  cases r with
  | error e => exact hstep (.reverting q []) hbegun
  | ok ofm =>
    obtain ⟨-, hversion, ds, -, -, hpending⟩ := hversion
    -- the version of the flow-mod is the one that is published
    have hpublish : publish q ofm.version = ofprotoBumpTablesVersion q := by
      rw [publish_eq, hversion, hpending.others.1, max_eq_right (Nat.le_succ _), ofprotoBumpTablesVersion,
        hpending.others.1]
    have hpublished := hstep (.finishing q [.flowMod ofm])
      (hstep (.beginning q (p.tablesVersion + 1) false [.flowMod ofm] []) hbegun)
    have hfinished := hstep (.published (publish q ofm.version) ofm []) hpublished
    rw [hpublish] at hfinished
    obtain ⟨c, hc, hcounts⟩ := hfinished.exists_ok
    obtain ⟨q', hq', hc⟩ := Except.bind_eq_ok hc
    cases hc
    dsimp only
    rw [hq', Except.ok_bind]
    exact hstep (.finishing q' []) hcounts

/-! ## Runs -/

/-- What happens to the tables: a flow-mod of its own, the commit of a bundle of a connection, or the removal of a
rule after the grace period. -/
inductive FlowOp (M : Type)
  | flowMod (fm : FlowMod M)
  | commit (ofconn : Ofconn M) (id : UInt32) (flags : UInt16)
  | grace (id : Nat)

def FlowOp.run (env : Provider M) (sw : Switch M) : FlowOp M → Except Abort (Switch M)
  | .flowMod fm => do
    let r ← handleFlowModCommon env sw.ofproto fm
    .ok { sw with ofproto := r.1 }
  | .commit ofconn id flags => do
    let r ← doBundleCommit env { sw with ofconn := ofconn } id flags
    .ok r.1
  | .grace id => do
    let p ← removeRuleRcu sw.ofproto id
    .ok { sw with ofproto := p }

/-- The flow-mods come from the decoder, a bundle meets its condition, and a rule whose grace period is over has left
the indexes. -/
def FlowOp.Safe (env : Provider M) (sw : Switch M) : FlowOp M → Prop
  | .flowMod fm => fm.Decoded
  | .commit ofconn id _ => ∀ b ∈ ofconnGetBundle ofconn id,
      (∀ fm ∈ flowMods b.msgList, fm.Decoded) ∧ CommitSafe env sw.ofproto (flowMods b.msgList)
  | .grace id => ∃ r ∈ sw.ofproto.rules, r.id = id ∧ r.removed = true

/-- Tables without rules, with any limits and any eviction. -/
structure Vacant (p : Ofproto M) : Prop where
  tables : ∀ t ∈ p.tables, t.cls = [] ∧ t.nFlows = 0 ∧ t.evictable = []
  expirable : p.expirable = []
  learnedCookies : p.learnedCookies = []

omit [DecidableEq M] in
theorem Vacant.settled (h : Vacant p) : Settled p := by
  have hrules : ∀ r, r ∉ p.rules := by
    intro r hr
    obtain ⟨t, ht, hr⟩ := mem_flatMap.1 hr
    rw [(h.tables t ht).1] at hr
    exact not_mem_nil hr
  have hvoid : ∀ {P : Rule M → Prop}, ∀ r ∈ p.rules, P r := fun r hr => absurd hr (hrules r)
  have hnone : p.rules = [] := eq_nil_iff_forall_not_mem.2 hrules
  have hcls : ∀ {j : Nat} {t : OfTable M}, p.tables[j]? = some t → t.cls = [] :=
    fun ht => (h.tables _ (mem_of_getElem? ht)).1
  refine ⟨⟨?_, ?_, ?_, ?_⟩, ?_, ?_, ?_, ?_, ?_, ?_, ?_, ?_, ?_, ?_, ?_, ?_, ?_, ?_, ?_, ?_⟩
  · grind
  · intro j t ht
    rw [hcls ht]
    exact nodup_nil
  · exact hvoid
  · exact hvoid
  · exact hvoid
  · exact hvoid
  · exact hvoid
  · exact hvoid
  · exact forall_mem_nil _
  · exact nodup_nil
  · exact forall_mem_nil _
  · exact nodup_nil
  · intro t ht
    obtain ⟨hcls, hflows, -⟩ := h.tables t ht
    rw [hcls, hflows]
    rfl
  · intro t ht r hr
    rw [(h.tables t ht).1] at hr
    exact absurd hr not_mem_nil
  · intro j t ht id hid
    rw [(h.tables t (mem_of_getElem? ht)).2.2] at hid
    exact absurd hid not_mem_nil
  · intro t ht
    rw [(h.tables t ht).2.2]
    exact nodup_nil
  · rw [h.expirable]
    exact forall_mem_nil _
  · rw [h.expirable]
    exact nodup_nil
  · rw [h.learnedCookies]
    exact ⟨nodup_nil, forall_mem_nil _⟩
  · intro k
    rw [h.learnedCookies, hnone]
    rfl

theorem Settled.bundle {sw : Switch M} {ofconn : Ofconn M} {id : UInt32} (hp : Settled sw.ofproto)
    (hchoose : ChoosesTables env sw.ofproto) (hsafe : (FlowOp.commit ofconn id flags).Safe env sw) :
    ((FlowOp.commit ofconn id flags).run env sw).Meets (fun _ => False) fun sw' =>
      Settled sw'.ofproto ∧ Capped sw.ofproto sw'.ofproto := by
  rw [FlowOp.run]
  cases hb : ofconnGetBundle ofconn id with
  | none =>
    have hnone : doBundleCommit env { sw with ofconn := ofconn } id flags =
        .ok ({ sw with ofconn := ofconn }, .error .ofpbfcBadId) := by
      rw [doBundleCommit, hb]
    rw [hnone]
    exact ⟨hp, .of_tables rfl⟩
  | some b =>
    by_cases hflags : b.flags = flags
    · obtain ⟨hdecoded, hsafe⟩ := hsafe b hb
      have hcommit : doBundleCommit env { sw with ofconn := ofconn } id flags = _ := doBundleCommit_eq env flags hb hflags
      rw [hcommit, bind_assoc]
      exact (hp.commit hchoose hdecoded hsafe).bind fun r hr => hr
    have hbad : doBundleCommit env { sw with ofconn := ofconn } id flags =
        .ok ({ sw with ofconn := ofpBundleRemove ofconn id }, .error .ofpbfcBadFlags) := by
      rw [doBundleCommit, hb]
      exact if_pos hflags
    rw [hbad]
    exact ⟨hp, .of_tables rfl⟩

/-- Every operation keeps the books settled. -/
theorem Settled.run {sw : Switch M} {op : FlowOp M} (hp : Settled sw.ofproto) (hchoose : ChoosesTables env sw.ofproto)
    (hsafe : op.Safe env sw) : (op.run env sw).Meets (fun _ => False) fun sw' =>
      Settled sw'.ofproto ∧ Capped sw.ofproto sw'.ofproto := by
  cases op with
  | flowMod fm => exact (hp.flowMod hchoose hsafe).bind fun r hr => hr
  | commit ofconn id flags => exact hp.bundle hchoose hsafe
  | grace id =>
    obtain ⟨r, hr, rfl, hremoved⟩ := hsafe
    obtain ⟨heq, hsettled, hcapped⟩ := hp.grace hr hremoved
    rw [FlowOp.run, heq]
    exact ⟨hsettled, hcapped⟩

/-- No message of a bundle displaces a rule that an earlier one displaced already. -/
theorem Settled.displaced_once (hp : Settled p)
    (hchoose : ChoosesTables env p) (hdecoded : ∀ fm ∈ flowMods msgs, fm.Decoded)
    (hsafe : CommitSafe env p (flowMods msgs)) {version : Nat} {prevIsPortMod : Bool}
    {todo : List (BundleEntry M)}
    (h : CommitReaches env flags (commitStart p msgs) (.beginning q version prevIsPortMod begun todo)) :
    ((begunFlowMods begun).flatMap OfprotoFlowMod.displaced).Nodup := by
  obtain ⟨cs, -, hstacked, hbooks, -⟩ := h.keeps (CountsAt.step flags hp hchoose) (hp.countsAt_start hdecoded hsafe)
  exact hstacked.displaced.nodup_iff.2 hbooks.distinct

/-- In every run of flow-mods, commits and removals each table counts the rules that the next version shows; the
next operation does not abort, takes no table over its limit that was not over it, and displaces a rule once. -/
theorem flow_runs_counted (env : Provider M) (sw₀ sw : Switch M) (ops : List (FlowOp M)) (hvacant : Vacant sw₀.ofproto)
    (hchoose : ChoosesTables env sw₀.ofproto)
    (hrun : Run.Meets (fun sw op sw' => FlowOp.run env sw op = .ok sw') (FlowOp.Safe env) sw₀ ops sw) :
    (∀ t ∈ sw.ofproto.tables, t.nFlows.toNat =
      t.cls.countP fun r => r.versions.visibleIn (some (sw.ofproto.tablesVersion + 1))) ∧
    (∀ op, FlowOp.Safe env sw op → ∃ sw', FlowOp.run env sw op = .ok sw' ∧
      ∀ (j : Nat) (t t' : OfTable M), sw.ofproto.tables[j]? = some t → sw'.ofproto.tables[j]? = some t' →
        t'.maxFlows = t.maxFlows ∧ t'.nFlows.toNat ≤ max t.nFlows.toNat t.maxFlows.toNat) ∧
    ∀ ofconn id flags b, ofconnGetBundle ofconn id = some b → FlowOp.Safe env sw (.commit ofconn id flags) →
      ∀ q version prevIsPortMod begun todo, CommitReaches env flags
          (.beginning sw.ofproto (sw.ofproto.tablesVersion + 1) false [] b.msgList)
          (.beginning q version prevIsPortMod begun todo) →
        ((begunFlowMods begun).flatMap OfprotoFlowMod.displaced).Nodup := by
  have hinv : Settled sw.ofproto ∧ ChoosesTables env sw.ofproto := by
    refine hrun.invariant (I := fun sw : Switch M => Settled sw.ofproto ∧ ChoosesTables env sw.ofproto) ?_
      ⟨hvacant.settled, hchoose⟩
    rintro s op s' ⟨hs, hchoose⟩ hsafe hstep
    have hnext := hs.run hchoose hsafe
    rw [hstep] at hnext
    exact ⟨hnext.1, hchoose.congr hnext.2.length⟩
  obtain ⟨hsettled, hchoose⟩ := hinv
  refine ⟨fun t ht => ?_, fun op hsafe => ?_, fun ofconn id flags b hb hsafe q version prev begun todo hreach => ?_⟩
  · rw [hsettled.nFlows t ht]
    refine countP_congr fun r hr => ?_
    have hnext := (Books.mono hsettled (Nat.le_succ _)).visible_iff (mem_flatMap.2 ⟨t, ht, hr⟩)
    rw [hnext]
  · obtain ⟨sw', hop, -, hcapped⟩ := (hsettled.run hchoose hsafe).exists_ok
    refine ⟨sw', hop, fun j t t' ht ht' => ?_⟩
    obtain ⟨hmax, -, hle⟩ := hcapped.table ht ht'
    exact ⟨hmax, hle⟩
  · obtain ⟨hdecoded, hsafe⟩ := hsafe b hb
    exact hsettled.displaced_once hchoose hdecoded hsafe hreach

/-! ## A table with eviction groups -/

/-- An empty table with room for some flows, from which one that expires is evicted. -/
def smallSwitch (maxFlows : UInt32) : Switch Nat where
  ofproto := ⟨[⟨[], 0, maxFlows, false, false, true, []⟩], 1, [], [], [], [], [], [], 0⟩
  gtp := Gtp.gtpManagerInit ⟨0, 0, 0, 0, 0, 0, 0⟩
  ofconn := ⟨true, false, []⟩

def agingFlowMod (m : Nat) : FlowMod Nat := { plainFlowMod .add m with hardTimeout := 10 }

def bundleOf (fms : List (FlowMod Nat)) : Ofconn Nat := ⟨true, false, [⟨1, 0, true, fms.map .flowMod⟩]⟩

/-- Flows 1 to 3 fill the table and flow 3 is evicted for flow 4; when flow 2 is gone, a bundle removes flow 1 and adds
flow 5. -/
def smallOps : List (FlowOp Nat) :=
  [.flowMod (agingFlowMod 1), .flowMod (agingFlowMod 2), .flowMod (agingFlowMod 3), .flowMod (agingFlowMod 4),
    .flowMod (plainFlowMod .delete 2), .commit (bundleOf [plainFlowMod .delete 1, agingFlowMod 5]) 1 0, .grace 0]

theorem small_vacant (maxFlows : UInt32) : Vacant (smallSwitch maxFlows).ofproto := by
  refine ⟨fun t ht => ?_, rfl, rfl⟩
  cases mem_singleton.1 ht
  exact ⟨rfl, rfl, rfl⟩

theorem small_choosesTables (maxFlows : UInt32) : ChoosesTables plainProvider (smallSwitch maxFlows).ofproto := by
  intro fm i hi
  unfold addTable at hi
  split at hi
  · cases hi
  split at hi
  · cases hi
    exact Nat.zero_lt_one
  grind

theorem small_run : ∃ sw, Run.exec (fun sw op => (FlowOp.run plainProvider sw op).toOption) (smallSwitch 3) smallOps =
      some sw ∧ Run.Meets (fun sw op sw' => FlowOp.run plainProvider sw op = .ok sw') (FlowOp.Safe plainProvider)
        (smallSwitch 3) smallOps sw := by
  refine ⟨_, rfl, .cons ⟨rfl, [], rfl⟩ rfl <| .cons ⟨rfl, [], rfl⟩ rfl <| .cons ⟨rfl, [], rfl⟩ rfl <|
    .cons ⟨rfl, [], rfl⟩ rfl <| .cons ⟨rfl, [], rfl⟩ rfl <| .cons ?_ rfl <| .cons ⟨_, mem_cons_self, rfl, rfl⟩ rfl (.nil _)⟩
  rintro b ⟨⟩
  have hdecoded : ∀ fm ∈ [plainFlowMod .delete 1, agingFlowMod 5], fm.Decoded ∧ learnsWithDelete fm.ofpacts = [] := by
    intro fm hfm
    rcases mem_pair.1 hfm with rfl | rfl
    · exact ⟨plainFlowMod_decoded .delete 1, rfl⟩
    · exact ⟨⟨rfl, [], rfl⟩, rfl⟩
  refine ⟨fun fm hfm => (hdecoded fm hfm).1, .inr ⟨?_, fun fm hfm => (hdecoded fm hfm).2, fun j t ht _ => .inr ?_⟩⟩
  · unfold NoLearns
    decide
  cases j with
  | zero =>
    cases ht
    decide
  | succ j => cases ht

theorem flow_runs_counted_small : ∃ sw, Run.exec (fun sw op => (FlowOp.run plainProvider sw op).toOption) (smallSwitch 3)
      smallOps = some sw ∧ sw.ofproto.tables.map OfTable.nFlows = [2] ∧ ∀ t ∈ sw.ofproto.tables, t.nFlows.toNat =
        t.cls.countP fun r => r.versions.visibleIn (some (sw.ofproto.tablesVersion + 1)) := by
  obtain ⟨sw, hexec, hrun⟩ := small_run
  refine ⟨sw, hexec, ?_, (flow_runs_counted plainProvider _ sw smallOps (small_vacant 3) (small_choosesTables 3) hrun).1⟩
  cases hexec
  rfl

/-- A bundle deletes the only flow, adds one that does not expire and then another one: the eviction group still holds
the deleted rule, which is evicted, and the second removal fails an assertion. -/
theorem bundle_evicts_deleted_rule : ∃ sw,
    FlowOp.run plainProvider (smallSwitch 1) (.flowMod (agingFlowMod 1)) = .ok sw ∧
    (∀ fm ∈ [plainFlowMod .delete 1, plainFlowMod .add 2, plainFlowMod .add 3], fm.Decoded) ∧
    FlowOp.run plainProvider sw
        (.commit (bundleOf [plainFlowMod .delete 1, plainFlowMod .add 2, plainFlowMod .add 3]) 1 0) =
      .error .assertFailed := by
  refine ⟨_, rfl, fun fm hfm => ?_, rfl⟩
  simp only [mem_cons, not_mem_nil, or_false] at hfm
  rcases hfm with rfl | rfl | rfl
  · exact plainFlowMod_decoded _ _
  · exact plainFlowMod_decoded _ _
  · exact plainFlowMod_decoded _ _

/-! ## The indexes -/

/-- The switches to which safe operations lead from empty tables. -/
def FlowReachable (env : Provider M) (sw : Switch M) : Prop :=
  ∃ sw₀ ops, Vacant sw₀.ofproto ∧ ChoosesTables env sw₀.ofproto ∧
    Run.Meets (fun sw op sw' => FlowOp.run env sw op = .ok sw') (FlowOp.Safe env) sw₀ ops sw

variable {sw : Switch M}

theorem FlowReachable.settled (h : FlowReachable env sw) : Settled sw.ofproto := by
  obtain ⟨sw₀, ops, hvacant, hchoose, hrun⟩ := h
  refine (hrun.invariant (I := fun sw => Settled sw.ofproto ∧ ChoosesTables env sw.ofproto) ?_
    ⟨hvacant.settled, hchoose⟩).1
  rintro s op s' ⟨hs, hchoose⟩ hsafe hstep
  have hnext := hs.run hchoose hsafe
  rw [hstep] at hnext
  exact ⟨hnext.1, hchoose.congr hnext.2.length⟩

/-- No table keeps two flows with one match and priority, and its eviction groups hold kept flows of it that expire,
each once. -/
theorem flowReachable_table (h : FlowReachable env sw) {j : Nat} {t : OfTable M} (ht : sw.ofproto.tables[j]? = some t) :
    (∀ r ∈ t.cls, ∀ r' ∈ t.cls, r.kept = true → r'.kept = true → r.mtch = r'.mtch → r.priority = r'.priority → r = r') ∧
    t.evictable.Nodup ∧ ∀ id ∈ t.evictable, t.eviction = true ∧
      ∃ r ∈ t.cls, r.id = id ∧ r.tableId = j ∧ r.kept = true ∧ hasTimeout r = true := by
  have hsettled := h.settled
  refine ⟨hsettled.single t (mem_of_getElem? ht), hsettled.grouped t (mem_of_getElem? ht), fun id hid => ?_⟩
  obtain ⟨heviction, r, hr, hrid, hkept, htimeout⟩ := hsettled.atRest.groups ht id hid
  exact ⟨heviction, r, hr, hrid, hsettled.tidy.home ht r hr, hkept, htimeout⟩

/-- The counts of learned cookies, one for each cookie and table, are those of the learn actions in the rules that are
not removed. -/
theorem flowReachable_learned (h : FlowReachable env sw) :
    (sw.ofproto.learnedCookies.map LearnedCookie.key).Nodup ∧ (∀ c ∈ sw.ofproto.learnedCookies, 0 < c.n) ∧
    ∀ k, learnedCount sw.ofproto.learnedCookies k = learnsOf sw.ofproto.rules (fun r => !r.removed) k := by
  have hsettled := h.settled
  refine ⟨hsettled.learned.nodup, hsettled.learned.pos, fun k => ?_⟩
  have hbalance := hsettled.balance k
  have hnews : learnsOf sw.ofproto.rules (fun r => r.id ∈ ([] : List Nat)) k = 0 := by simp [learnsOf]
  rwa [hnews, Nat.cast_zero, add_zero] at hbalance

/-- After the run, flows 4 and 5 are in the eviction groups. -/
theorem flowReachable_table_small : ∃ sw t, FlowReachable plainProvider sw ∧ sw.ofproto.tables[0]? = some t ∧
    t.evictable = [4, 3] ∧ ∀ id ∈ [4, 3], ∃ r ∈ t.cls, r.id = id ∧ r.tableId = 0 ∧ r.kept = true ∧ hasTimeout r = true := by
  obtain ⟨sw, hexec, hrun⟩ := small_run
  have h : FlowReachable plainProvider sw := ⟨_, smallOps, small_vacant 3, small_choosesTables 3, hrun⟩
  have hgroups : (Run.exec (fun sw op => (FlowOp.run plainProvider sw op).toOption) (smallSwitch 3) smallOps).map
      (fun sw => sw.ofproto.tables.map OfTable.evictable) = some [[4, 3]] := by decide
  rw [hexec] at hgroups
  obtain ⟨t, htables, hevictable⟩ := map_eq_singleton_iff.1 (Option.some.inj hgroups)
  have ht : sw.ofproto.tables[0]? = some t := by rw [htables, getElem?_cons_zero]
  exact ⟨sw, t, h, ht, hevictable, fun id hid => ((flowReachable_table h ht).2.2 id (hevictable ▸ hid)).2⟩

/-- A flow with an action that learns flows with cookie 7, which are deleted with it. -/
def learningFlowMod (m : Nat) : FlowMod Nat := { plainFlowMod .add m with ofpacts := [.learn 7 0 true] }

/-- Of two flows that learn, one is removed. -/
theorem flowReachable_learned_small : ∃ sw, FlowReachable plainProvider sw ∧
    learnsOf sw.ofproto.rules (fun r => !r.removed) (7, 0) = 1 ∧ learnedCount sw.ofproto.learnedCookies (7, 0) = 1 := by
  have h : ∃ sw, learnsOf sw.ofproto.rules (fun r => !r.removed) (7, 0) = 1 ∧ FlowReachable plainProvider sw :=
    ⟨_, rfl, _, [.flowMod (learningFlowMod 1), .flowMod (learningFlowMod 2), .flowMod (plainFlowMod .delete 1)],
      small_vacant 3, small_choosesTables 3,
      .cons ⟨rfl, [], rfl⟩ rfl <| .cons ⟨rfl, [], rfl⟩ rfl <| .cons ⟨rfl, [], rfl⟩ rfl (.nil _)⟩
  obtain ⟨sw, hcount, hreach⟩ := h
  exact ⟨sw, hreach, hcount, ((flowReachable_learned hreach).2.2 (7, 0)).trans (congrArg Nat.cast hcount)⟩

end LinkerOvs.FlowTable
