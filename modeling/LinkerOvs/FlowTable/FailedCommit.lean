/-
A bundle of which a message fails. Its commit takes the messages back that were begun, and then the tables
are as before; while it runs, a lookup sees no change. The one thing that is not taken back is an eviction
for a flow which the provider then refuses.
-/
import LinkerOvs.FlowTable.GtpTransport
import LinkerOvs.FlowTable.Rollback

namespace LinkerOvs.FlowTable

open Cls Ofp List

variable {M : Type} {p q : Ofproto M} {cs : List (Change M)} {version : Nat}

/-! ## What is the same -/

/-- What a lookup sees of a rule. -/
def Rule.unversioned (r : Rule M) : Rule M := { r with versions := ⟨0, none⟩ }

/-- What lookups in a version see, table by table. -/
def Ofproto.seen (p : Ofproto M) (v : Nat) : List (List (Rule M)) :=
  p.tables.map fun t => (t.cls.filter fun r => r.versions.visibleIn (some v)).map Rule.unversioned

/-- The tables hold the same rules, with their versions, and count as many; the same rules are in the eviction
groups, in the cookie index and among those that expire. -/
structure SameTables (p q : Ofproto M) : Prop where
  cls : q.tables.map OfTable.cls = p.tables.map OfTable.cls
  nFlows : q.tables.map OfTable.nFlows = p.tables.map OfTable.nFlows
  evictable : List.Forall₂ (fun t u : OfTable M => u.evictable.Perm t.evictable) p.tables q.tables
  cookies : q.cookies.Perm p.cookies
  expirable : q.expirable.Perm p.expirable
  tablesVersion : q.tablesVersion = p.tablesVersion

theorem Pending.map_tables (h : Pending p version q cs) {α : Type} {f : OfTable M → α}
    (hf : ∀ {j : Nat} {t u : OfTable M}, q.tables[j]? = some u → TablePending j cs t u → f u = f t) :
    q.tables.map f = p.tables.map f := by
  refine ext_getElem? fun j => ?_
  rw [getElem?_map, getElem?_map]
  cases hj : p.tables[j]? with
  | none => rw [getElem?_eq_none (h.length ▸ List.getElem?_eq_none_iff.1 hj)]
  | some t =>
    obtain ⟨u, hu, htable⟩ := h.table hj
    rw [hu, Option.map_some, Option.map_some, hf hu htable]

theorem Pending.sameTables (h : Pending p version q []) : SameTables p q := by
  constructor
  · refine h.map_tables fun {j t u} _ htable => ?_
    rw [← htable.cls]
    simp [newIds, oldIds]
  · refine h.map_tables fun {j t u} _ htable => ?_
    rw [htable.nFlows]
    simp [flowsMore]
  · refine forall₂_iff_get.2 ⟨h.length.symm, fun j hp hq => ?_⟩
    exact (h.tables (getElem?_eq_getElem hp) (getElem?_eq_getElem hq)).evictable_perm
  · exact h.cookies
  · exact h.expirable
  · exact h.others.1

theorem Pending.seen (h : Pending p version q cs) : q.seen p.tablesVersion = p.seen p.tablesVersion := by
  refine h.map_tables fun {j t u} hu htable => ?_
  rw [← htable.cls, filter_map, map_map, filter_filter]
  have hunversioned : Rule.unversioned ∘ Rule.forget (oldIds cs) = (Rule.unversioned : Rule M → Rule M) := by
    funext r
    unfold Function.comp Rule.forget
    split <;> rfl
  rw [hunversioned]
  congr 1
  refine filter_congr fun r hr => ?_
  have hmem : r ∈ q.rules := mem_rules.2 ⟨j, u, hu, hr⟩
  by_cases hnew : r.id ∈ newIds cs
  · -- a rule that was placed is not seen yet
    obtain ⟨c, hc, n, hn, hid⟩ := mem_newIds.1 hnew
    obtain ⟨r', hr', hrid, -, -, -, hadded⟩ := h.new c hc n hn
    obtain rfl := h.tidy.unique r' hr' r hmem (hrid.trans hid)
    have hlate : ¬ r'.versions.addVersion ≤ p.tablesVersion := Nat.not_le.2 hadded
    simp [hnew, Versions.visibleIn, hlate]
  by_cases hold : r.id ∈ oldIds cs
  · -- a rule that was marked is still seen
    obtain ⟨c, hc, o, ho, hid⟩ := mem_oldIds.1 hold
    obtain ⟨r', hr', hrid, -, -, hremove⟩ := h.old c hc o ho
    obtain rfl := h.tidy.unique r' hr' r hmem (hrid.trans hid)
    have hall : (r'.versions.removeVersion.all fun w => decide (p.tablesVersion < w)) = true := by
      rw [Option.all_eq_true]
      exact fun w hw => decide_eq_true (hremove w hw)
    simp [hnew, hold, Versions.visibleIn, Rule.forget, Rule.setRemoveVersion, hall]
  · simp [hnew, hold, Rule.forget]

/-! ## The commit -/

/-- The changes of the messages begun, the last one first. -/
inductive Stacked : List (Begun M) → List (Change M) → Prop
  | nil : Stacked [] []
  | portMod {pm : PortMod} {port : OfPort} {bs : List (Begun M)} {cs : List (Change M)} (h : Stacked bs cs) :
      Stacked (.portMod pm port :: bs) cs
  | flowMod {ofm : OfprotoFlowMod M} {bs : List (Begun M)} {cs ds : List (Change M)} {n : Nat} (h : Stacked bs cs)
      (hbegun : ofm.Begun) (hchanges : ofm.changes = ds.map Change.ids) (hsince : ∀ d ∈ ds, d.Since n)
      (hold : ∀ id ∈ oldIds cs, id < n) : Stacked (.flowMod ofm :: bs) (ds.reverse ++ cs)

theorem Pending.revert {ofm : OfprotoFlowMod M} {ds : List (Change M)} {n : Nat} (hp : AtRest p)
    (h : Pending p version q (ds.reverse ++ cs)) (hbegun : ofm.Begun) (hchanges : ofm.changes = ds.map Change.ids)
    (hsince : ∀ d ∈ ds, d.Since n) (hold : ∀ id ∈ oldIds cs, id < n) :
    ∃ q', ofprotoFlowModRevert q ofm = .ok q' ∧ Pending p version q' cs := by
  rw [flowModRevert_eq hbegun, hchanges]
  refine (h.perm ((reverse_perm ds).append_right cs)).revertAll hp fun d hd r hr hid => ?_
  have hnew := (hsince d hd).new r hr
  rw [oldIds, flatMap_append, mem_append] at hid
  rcases hid with hid | hid
  · obtain ⟨d', hd', o, ho, heq⟩ := mem_oldIds.1 hid
    have hlt := (hsince d' hd').old o ho
    omega
  · have hlt := hold r.id hid
    omega

/-! ## An eviction that is not taken back -/

/-- The rule is in an eviction group. -/
def Ofproto.Grouped (p : Ofproto M) (r : Rule M) : Prop := ∃ t, p.tables[r.tableId]? = some t ∧ r.id ∈ t.evictable

theorem EvictRefused.grouped {env : Provider M} {fm : FlowMod M} {o : Rule M} (h : EvictRefused env q fm o) :
    q.Grouped o := by
  obtain ⟨-, -, t, ht, -, hmem, -⟩ := h
  exact ⟨t, ht, hmem⟩

theorem table_evictOut {o : Rule M} {j : Nat} {u : OfTable M} (hu : (evictOut q o).tables[j]? = some u) :
    ∃ u₀, q.tables[j]? = some u₀ ∧ u = { u₀ with evictable := if j = o.tableId then u₀.evictable.erase o.id else u₀.evictable } := by
  obtain ⟨u₀, hu₀, rfl⟩ := table_update hu
  exact ⟨u₀, hu₀, by split <;> rfl⟩

theorem evictOut_of_not_grouped {o : Rule M} (h : ¬p.Grouped o) : evictOut p o = p := by
  refine update_self fun j t ht => ?_
  split
  · next hj =>
    rw [erase_of_not_mem fun hmem => h ⟨t, hj ▸ ht, hmem⟩]
  · rfl

theorem seen_evictOut (o : Rule M) (v : Nat) : (evictOut p o).seen v = p.seen v := by
  refine ext_getElem? fun j => ?_
  rw [Ofproto.seen, Ofproto.seen, getElem?_map, getElem?_map, evictOut, getElem?_update, Option.map_map]
  grind

theorem AtRest.evictOut (h : AtRest p) (o : Rule M) : AtRest (evictOut p o) where
  tidy := h.tidy.update (ruleWise_evictOut o) _ _
  added r hr := h.added r ((rules_evictOut o).1 hr)
  removed r hr := h.removed r ((rules_evictOut o).1 hr)
  groups ht id hid := by
    obtain ⟨t₀, ht₀, rfl⟩ := table_evictOut ht
    refine h.groups ht₀ id ?_
    grind
  expirable id hid := by
    obtain ⟨r, hr, hrid⟩ := h.expirable id hid
    exact ⟨r, (rules_evictOut o).2 hr, hrid⟩

/-- Where a rule leaves its group, it is missing from before the commit on; one that was placed was not there. -/
theorem Pending.evictOut {o : Rule M} (h : Pending p version q cs) (ho : q.Grouped o) :
    Pending (evictOut p o) version (evictOut q o) cs := by
  refine { h with
    tidy := h.tidy.update (ruleWise_evictOut o) _ _
    length := by simpa [FlowTable.evictOut] using h.length
    tables := fun {j t u} ht hu => ?_
    newer := fun id hid r hr => h.newer id hid r ((rules_evictOut o).1 hr)
    new := fun c hc n hn => ?_
    old := fun c hc r hr => ?_
    evicted := fun c hc he => ⟨(h.evicted c hc he).1, fun r hr {u} hu => ?_⟩
    added := fun r hr => h.added r ((rules_evictOut o).1 hr) }
  · obtain ⟨t₀, ht₀, rfl⟩ := table_evictOut ht
    obtain ⟨u₀, hu₀, rfl⟩ := table_evictOut hu
    have htable := h.tables ht₀ hu₀
    split
    · next hj =>
      obtain ⟨u₁, hu₁, hmem⟩ := ho
      cases (hj ▸ hu₀).symm.trans hu₁
      have hpos := count_pos_iff.2 hmem
      refine { htable with grouped := fun id => ?_, evictable := fun id hid => ?_ }
      · have hle := htable.grouped id
        grind
      · have heq := htable.evictable id hid
        grind
    · exact htable
  · obtain ⟨r, hr, hrest⟩ := h.new c hc n hn
    exact ⟨r, (rules_evictOut o).2 hr, hrest⟩
  · obtain ⟨r', hr', hrest⟩ := h.old c hc r hr
    exact ⟨r', (rules_evictOut o).2 hr', hrest⟩
  · obtain ⟨u₀, hu₀, rfl⟩ := table_evictOut hu
    show u₀.eviction = true
    exact (h.evicted c hc he).2 r hr hu₀

/-- The tables with a rule taken out of its group are not the tables. -/
theorem SameTables.not_evictOut {p' : Ofproto M} {o : Rule M} (ho : p.Grouped o) (h : SameTables (evictOut p o) p') :
    ¬ SameTables p p' := by
  intro hsame
  obtain ⟨t, ht, hmem⟩ := ho
  obtain ⟨hlt, rfl⟩ := List.getElem?_eq_some_iff.1 ht
  obtain ⟨hlength, hperm⟩ := forall₂_iff_get.1 hsame.evictable
  have hout := (forall₂_iff_get.1 h.evictable).2 o.tableId (by simpa [evictOut] using hlt) (hlength ▸ hlt)
  have hlist : (p.tables[o.tableId].evictable.erase o.id).length = p.tables[o.tableId].evictable.length := by
    simpa [evictOut, Ofproto.update] using hout.length_eq.symm.trans (hperm o.tableId hlt (hlength ▸ hlt)).length_eq
  grind

theorem addTable_congr (env : Provider M) (fm : FlowMod M) (h : q.tables.length = p.tables.length) :
    addTable env q fm = addTable env p fm := by
  unfold addTable checkTableId
  rw [h]

section

variable [DecidableEq M] {env : Provider M} {flags : UInt16} {c : CommitPoint M}

/-- The next message takes a rule, which was in a group before the commit, out of it to make room in a full table; then
the provider refuses the flow. -/
def CommitPoint.LosesEviction (env : Provider M) (p : Ofproto M) : CommitPoint M → Prop
  | .beginning q version prevIsPortMod _ (.flowMod fm :: _) => ∃ o e, EvictRefused env q fm o ∧ p.Grouped o ∧
      ofprotoFlowModStart env q ⟨fm, if prevIsPortMod then version + 1 else version, [], [], none⟩ =
        .ok (evictOut q o, .error e)
  | _ => False

/-- The messages of a commit that fails are begun. -/
def Begins (env : Provider M) (flags : UInt16) (p : Ofproto M) : CommitPoint M → Prop
  | .beginning q version prevIsPortMod begun todo =>
    (∃ q' bs e, bundleBegin env flags q version prevIsPortMod todo = .ok (q', bs, some e)) ∧
      p.tablesVersion < version ∧ (∀ fm, .flowMod fm ∈ todo → fm.Decoded) ∧ ∃ cs, Pending p version q cs ∧ Stacked begun cs
  | _ => False

/-- They are taken back, and then the tables are `p`. -/
def Reverts (p : Ofproto M) : CommitPoint M → Prop
  | .reverting q begun => ∃ version cs, Pending p version q cs ∧ Stacked begun cs
  | .answered q answer => answer = .error .ofpbfcMsgFailed ∧ ∃ version, Pending p version q []
  | _ => False

theorem Reverts.step (hp : AtRest p) (c : CommitPoint M) (h : Reverts p c) :
    (commitStep env flags c).Meets (fun _ => False) (Reverts p) := by
  cases c with
  | reverting q begun =>
    obtain ⟨version, cs, hpending, hstacked⟩ := h
    cases hstacked with
    | nil => exact ⟨rfl, version, hpending⟩
    | portMod hstacked => exact ⟨version, _, hpending, hstacked⟩
    | flowMod hstacked hbegun hchanges hsince hold =>
      obtain ⟨q', hq', hpending'⟩ := hpending.revert hp hbegun hchanges hsince hold
      rw [commitStep, hq']
      exact ⟨version, _, hpending', hstacked⟩
  | answered q answer => exact h
  | beginning => exact h.elim
  | finishing => exact h.elim
  | published => exact h.elim

theorem Begins.step (hp : AtRest p) (h : Begins env flags p c) : (commitStep env flags c).Meets (fun _ => False) fun c' =>
    Begins env flags p c' ∨ Reverts p c' ∨ c.LosesEviction env p ∧ ∃ o, p.Grouped o ∧ Reverts (evictOut p o) c' := by
  cases c with
  | beginning q version prevIsPortMod begun todo =>
    obtain ⟨⟨q', bs, e, hbegin⟩, hlt, htodo, cs, hpending, hstacked⟩ := h
    cases todo with
    | nil => cases hbegin
    | cons entry todo =>
      have hrest : ∀ fm, .flowMod fm ∈ todo → fm.Decoded := fun fm hfm => htodo fm (mem_cons_of_mem _ hfm)
      cases entry with
      | portMod pm =>
        rw [bundleBegin] at hbegin
        rw [commitStep]
        split
        · exact .inr (.inl ⟨version, cs, hpending, hstacked⟩)
        next hatomic =>
        rw [if_neg hatomic] at hbegin
        split
        · exact .inr (.inl ⟨version, cs, hpending, hstacked⟩)
        next port hport =>
        rw [hport] at hbegin
        obtain ⟨⟨q₁, bs₁, e₁⟩, hbegin, hlast⟩ := Except.bind_eq_ok hbegin
        cases hlast
        exact .inl ⟨⟨_, _, _, hbegin⟩, hlt, hrest, cs, hpending, .portMod hstacked⟩
      | flowMod fm =>
        have hle : version ≤ if prevIsPortMod then version + 1 else version := by split <;> omega
        have hpending' := hpending.mono hle
        have hstart := (Pending.keptByChanges env q fm hp (hlt.trans_le hle)).start
          ⟨fm, if prevIsPortMod then version + 1 else version, [], [], none⟩ hpending' rfl rfl
          (htodo fm mem_cons_self) fun _ _ => .inr trivial
        obtain ⟨⟨q₁, r⟩, hbegun, hbegin⟩ := Except.bind_eq_ok hbegin
        rw [hbegun] at hstart
        rw [commitStep, hbegun]
        cases r with
        | error e' =>
          rcases hstart with hstart | ⟨o, hrefused, rfl⟩
          · exact .inr (.inl ⟨_, cs, hstart, hstacked⟩)
          have hout := hpending'.evictOut hrefused.grouped
          by_cases ho : p.Grouped o
          · exact .inr (.inr ⟨⟨o, e', hrefused, ho, hbegun⟩, o, ho, _, cs, hout, hstacked⟩)
          · rw [evictOut_of_not_grouped ho] at hout
            exact .inr (.inl ⟨_, cs, hout, hstacked⟩)
        | ok ofm =>
          obtain ⟨hofm, -, ds, hchanges, hsince, hq₁⟩ := hstart
          obtain ⟨⟨q₂, bs₂, e₂⟩, hbegin, hlast⟩ := Except.bind_eq_ok hbegin
          cases hlast
          refine .inl ⟨⟨_, _, _, hbegin⟩, hlt.trans_le hle, hrest, _, hq₁, .flowMod hstacked hofm hchanges hsince ?_⟩
          intro id hid
          obtain ⟨c, hc, o, ho, rfl⟩ := mem_oldIds.1 hid
          obtain ⟨r, hr, hrid, -⟩ := hpending.old c hc o ho
          rw [← hrid]
          exact hpending.tidy.fresh r hr
  | reverting => exact h.elim
  | finishing => exact h.elim
  | published => exact h.elim
  | answered => exact h.elim

/-- A commit that fails and is at the point `c`. -/
inductive RollsBack (env : Provider M) (flags : UInt16) (p : Ofproto M) (start c : CommitPoint M) : Prop
  | begins (h : Begins env flags p c)
  | reverts (h : Reverts p c)
  | loses {c₀ : CommitPoint M} {o : Rule M} (hc₀ : CommitReaches env flags start c₀) (hloses : c₀.LosesEviction env p)
      (ho : p.Grouped o) (h : Reverts (evictOut p o) c)

theorem RollsBack.step (hp : AtRest p) {start c : CommitPoint M}
    (h : CommitReaches env flags start c ∧ RollsBack env flags p start c) :
    (commitStep env flags c).Meets (fun _ => False) fun c' =>
      CommitReaches env flags start c' ∧ RollsBack env flags p start c' := by
  obtain ⟨hreach, h⟩ := h
  have hstep : (commitStep env flags c).Meets (fun _ => False) (RollsBack env flags p start) := by
    cases h with
    | begins h =>
      refine (h.step hp).mono ?_
      rintro c' (h | h | ⟨hloses, o, ho, h⟩)
      · exact .begins h
      · exact .reverts h
      · exact .loses hreach hloses ho h
    | reverts h => exact (h.step hp c).mono fun c' h => .reverts h
    | loses hc₀ hloses ho h => exact (h.step (hp.evictOut _) c).mono fun c' h => .loses hc₀ hloses ho h
  obtain ⟨c', hc', h'⟩ := hstep.exists_ok
  rw [hc']
  exact ⟨.step hreach hc', h'⟩

omit [DecidableEq M] in
theorem Reverts.seen : ∀ {c : CommitPoint M}, Reverts p c → c.ofproto.seen p.tablesVersion = p.seen p.tablesVersion
  | .reverting .., ⟨_, _, hpending, _⟩ => hpending.seen
  | .answered .., ⟨_, _, hpending⟩ => hpending.seen

theorem RollsBack.seen {start c : CommitPoint M} (h : RollsBack env flags p start c) :
    c.ofproto.seen p.tablesVersion = p.seen p.tablesVersion := by
  cases h with
  | begins h =>
    cases c with
    | beginning =>
      obtain ⟨-, -, -, cs, hpending, -⟩ := h
      exact hpending.seen
    | _ => exact h.elim
  | reverts h => exact h.seen
  | @loses c₀ o _ _ _ h =>
    have hseen := h.seen
    rwa [seen_evictOut] at hseen

theorem CommitReaches.outcome_eq {c c' : CommitPoint M} (h : CommitReaches env flags c c') :
    outcome env flags c = outcome env flags c' := by
  induction h with
  | refl => rfl
  | step _ hstep ih => rw [ih, FlowTable.outcome_eq, hstep, Except.ok_bind]

theorem CommitPoint.LosesEviction.lost {start c : CommitPoint M} (hp : AtRest p) (hloses : c.LosesEviction env p)
    (hreach : CommitReaches env flags start c) (h : RollsBack env flags p start c) : ∃ o r, p.Grouped o ∧
      outcome env flags start = .ok r ∧ SameTables (evictOut p o) r.1 := by
  cases c with
  | beginning q version prevIsPortMod begun todo =>
    match todo, hloses with
    | .flowMod fm :: todo, ⟨o, e, hrefused, ho, hstart⟩ =>
    cases h with
    | begins h =>
      obtain ⟨-, -, -, cs, hpending, hstacked⟩ := h
      have hnext : commitStep env flags (.beginning q version prevIsPortMod begun (.flowMod fm :: todo)) =
          .ok (.reverting (evictOut q o) begun) := by
        rw [commitStep, hstart]
        rfl
      have hreverts : Reverts (evictOut p o) (.reverting (evictOut q o) begun) :=
        ⟨version, cs, hpending.evictOut hrefused.grouped, hstacked⟩
      obtain ⟨r, hr, -, v, hdone⟩ := (outcome_meets (Reverts.step (hp.evictOut o)) _ hreverts).exists_ok
      exact ⟨o, r, ho, by rw [hreach.outcome_eq, FlowTable.outcome_eq, hnext, Except.ok_bind, hr], hdone.sameTables⟩
    | reverts h => exact h.elim
    | loses _ _ _ h => exact h.elim
  | _ => exact hloses.elim

end

/-! ## A full table -/

/-- A rule that expires. -/
def agingRule : Rule Nat where
  id := 0
  tableId := 0
  mtch := 1
  priority := 100
  flowCookie := 0
  idleTimeout := 0
  hardTimeout := 10
  importance := 0
  flags := 0
  actions := []
  versions := ⟨1, none⟩
  conjs := []
  removed := false

/-- A table with room for one rule, which may be evicted. -/
def fullTables : Ofproto Nat := ⟨[⟨[agingRule], 1, 1, false, false, true, [0]⟩], 1, [0], [0], [], [], [], [], 1⟩

def plainFlowMod (command : FlowModCommand) (m : Nat) : FlowMod Nat := { gtpFlowMod command [] with mtch := m }

/-- The full table and a bundle with these messages. -/
def fullSwitch (fms : List (FlowMod Nat)) : Switch Nat where
  ofproto := fullTables
  gtp := Gtp.gtpManagerInit ⟨0, 0, 0, 0, 0, 0, 0⟩
  ofconn := ⟨true, false, [⟨1, 0, true, fms.map .flowMod⟩]⟩

theorem fullTables_atRest : AtRest fullTables := by
  have htable : ∀ {j : Nat} {t : OfTable Nat}, fullTables.tables[j]? = some t →
      j = 0 ∧ t = ⟨[agingRule], 1, 1, false, false, true, [0]⟩ := by
    intro j t ht
    cases j with
    | zero => exact ⟨rfl, (Option.some.inj ht).symm⟩
    | succ j => cases ht
  have hrule : ∀ {r : Rule Nat}, r ∈ fullTables.rules → r = agingRule := mem_singleton.1
  refine ⟨⟨?_, ?_, ?_, ?_⟩, ?_, ?_, ?_, ?_⟩
  · intro j t ht r hr
    obtain ⟨rfl, rfl⟩ := htable ht
    cases mem_singleton.1 hr
    rfl
  · grind
  · intro r hr r' hr' _
    rw [hrule hr, hrule hr']
  · intro r hr
    rw [hrule hr]
    exact Nat.zero_lt_one
  · intro r hr
    rw [hrule hr]
    exact le_rfl
  · intro r hr w hw
    rw [hrule hr] at hw
    cases hw
  · intro j t ht id hid
    obtain ⟨-, rfl⟩ := htable ht
    cases mem_singleton.1 hid
    exact ⟨rfl, agingRule, mem_singleton.2 rfl, rfl, rfl, rfl⟩
  · intro id hid
    cases mem_singleton.1 hid
    exact ⟨agingRule, mem_singleton.2 rfl, rfl⟩

theorem plainFlowMod_decoded (command : FlowModCommand) (m : Nat) : (plainFlowMod command m).Decoded := ⟨rfl, [], rfl⟩

/-- A provider that refuses every rule. -/
def refusingProvider : Provider Nat := { plainProvider with ruleConstruct := fun _ => some (.provider 1) }

end LinkerOvs.FlowTable
