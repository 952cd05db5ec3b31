/-
The GTP configuration arrives in flow-mods. `handle_flow_mod` takes such a flow-mod to the GTP manager and
keeps it from the tables; a bundle does neither. This module says for which flow-mods that makes no
difference.
-/
import LinkerOvs.FlowTable.Idle

namespace LinkerOvs.FlowTable

open Cls Ofp List

variable {M : Type} [DecidableEq M] {env : Provider M} {dec : Decoder M} {g : Garbage} {p p' : Ofproto M}
  {sw sw' : Switch M}

/-- Both transports answer, leave the GTP manager in the same state and the tables as they were. -/
def SameEffect (env : Provider M) (dec : Decoder M) (g : Garbage) (sw : Switch M) (id : UInt32) (flags : UInt16)
    (oh : List UInt8) : Prop :=
  ∃ sw₁ r₁ sw₂ r₂, handleFlowMod env dec g sw oh = .ok (sw₁, r₁) ∧ bundledFlowMod env dec sw id flags oh = .ok (sw₂, r₂) ∧
    sw₁.gtp = sw₂.gtp ∧ sw₁.ofproto.contents = sw.ofproto.contents ∧ sw₂.ofproto.contents = sw.ofproto.contents

/-- The GTP manager already is as the operation would make it: the first free slot holds the very entry to be
added, no slot with the address is left to be cleared, or the parameters are the same. -/
structure ConfigKept (x : GtpArgs) (s : Gtp.Manager) : Prop where
  add : x.operation = 1 → ∃ i, Gtp.slotOf s 0 = some i ∧ s.pgwList i = x.pgw
  del : x.operation = 2 → ∀ i, Gtp.slotOf s x.gtpPgwIp = some i →
    (s.pgwList i).gtpPgwIp = 0 ∧ (s.pgwList i).gtpPgwPort = 0 ∧ (s.pgwList i).pgwSgiPort = 0
  params : x.operation = 3 →
    s.ovsId = x.ovsId ∧ s.ovsTotal = x.ovsTotal ∧ s.ovsPhyPort = x.ovsPhyPort ∧ s.pgwFastpath = x.pgwFastpath

/-! ## The GTP manager -/

theorem updatePgw_eq_self_iff (s : Gtp.Manager) (i : Nat) (e : Gtp.GtpPgwNode) :
    { s with pgwList := Function.update s.pgwList i e } = s ↔ s.pgwList i = e := by
  constructor
  · intro h
    have hlist : Function.update s.pgwList i e = s.pgwList := congrArg Gtp.Manager.pgwList h
    rw [← hlist, Function.update_self]
  · rintro rfl
    rw [Function.update_eq_self]

theorem addPgw_eq_self_iff (s : Gtp.Manager) (e : Gtp.GtpPgwNode) :
    Gtp.gtpManagerAddPgw s e = .ok s ↔ ∃ i, Gtp.slotOf s 0 = some i ∧ s.pgwList i = e := by
  unfold Gtp.gtpManagerAddPgw
  cases Gtp.slotOf s 0 with
  | some i => simp [updatePgw_eq_self_iff]
  | none =>
    simp only [reduceCtorEq, false_and, exists_false, iff_false]
    split
    · intro h
      -- a new slot makes the list longer
      grind
    · rintro ⟨⟩

theorem delPgw_eq_self_iff (s : Gtp.Manager) (ip : UInt32) :
    Gtp.gtpManagerDelPgw s ip = s ↔ ∀ i, Gtp.slotOf s ip = some i →
      (s.pgwList i).gtpPgwIp = 0 ∧ (s.pgwList i).gtpPgwPort = 0 ∧ (s.pgwList i).pgwSgiPort = 0 := by
  unfold Gtp.gtpManagerDelPgw
  cases Gtp.slotOf s ip with
  | none => simp
  | some i =>
    simp only [updatePgw_eq_self_iff, Option.some.injEq, forall_eq']
    constructor
    · grind
    · rintro ⟨h₁, h₂, h₃⟩
      generalize s.pgwList i = e at h₁ h₂ h₃ ⊢
      cases e
      simp_all

theorem setParams_eq_self_iff (s : Gtp.Manager) (ovsId total phyport : UInt16) (fastpath : UInt8) :
    Gtp.gtpManagerSetParams s ovsId total phyport fastpath = s ↔
      s.ovsId = ovsId ∧ s.ovsTotal = total ∧ s.ovsPhyPort = phyport ∧ s.pgwFastpath = fastpath := by
  constructor
  · intro h
    rw [← h]
    exact ⟨rfl, rfl, rfl, rfl⟩
  · rintro ⟨rfl, rfl, rfl, rfl⟩
    rfl

theorem operate_eq_self_iff (x : GtpArgs) (s : Gtp.Manager) : x.operate s = .ok s ↔ ConfigKept x s := by
  unfold GtpArgs.operate
  by_cases h₁ : x.operation = 1
  · rw [if_pos h₁, addPgw_eq_self_iff]
    exact ⟨fun h => ⟨fun _ => h, by simp [h₁], by simp [h₁]⟩, fun h => h.add h₁⟩
  by_cases h₂ : x.operation = 2
  · rw [if_neg h₁, if_pos h₂, Except.ok.injEq, delPgw_eq_self_iff]
    exact ⟨fun h => ⟨by simp [h₂], fun _ => h, by simp [h₂]⟩, fun h => h.del h₂⟩
  by_cases h₃ : x.operation = 3
  · rw [if_neg h₁, if_neg h₂, if_pos h₃, Except.ok.injEq, setParams_eq_self_iff]
    exact ⟨fun h => ⟨by simp [h₃], by simp [h₃], fun _ => h⟩, fun h => h.params h₃⟩
  · rw [if_neg h₁, if_neg h₂, if_neg h₃]
    exact ⟨fun _ => ⟨fun h => absurd h h₁, fun h => absurd h h₂, fun h => absurd h h₃⟩, fun _ => rfl⟩

/-! ## A flow-mod carried out -/

variable {fm : FlowMod M} {id : UInt32} {oh : List UInt8}

theorem Idle.handle (h : Idle env p fm (p.tablesVersion + 1)) :
    ∃ p' r, handleFlowModCommon env p fm = .ok (p', r) ∧ p'.contents = p.contents := by
  obtain ⟨p₁, r, hstart, hcont, hfin⟩ := Idle.start ⟨fm, p.tablesVersion + 1, [], [], none⟩ h
  unfold handleFlowModCommon
  rw [hstart]
  cases r with
  | error e => exact ⟨p₁, _, rfl, hcont⟩
  | ok ofm =>
    refine ⟨ofprotoBumpTablesVersion p₁, .ok (), ?_, hcont⟩
    simp only [hfin ofm rfl, Except.ok_bind]

/-! ## A bundle with one flow-mod -/

theorem bundleBegin_one (flags : UInt16) (version : Nat) (fm : FlowMod M) :
    bundleBegin env flags p version false [.flowMod fm] = (do
      let (p, r) ← ofprotoFlowModStart env p ⟨fm, version, [], [], none⟩
      match r with
      | .error e => .ok (p, [], some e)
      | .ok ofm => .ok (p, [.flowMod ofm], none)) := by
  rfl

theorem Idle.commit (sw : Switch M) {flags : UInt16} {closed : Bool}
    (hb : ofconnGetBundle sw.ofconn id = some ⟨id, flags, closed, [.flowMod fm]⟩)
    (h : Idle env sw.ofproto fm (sw.ofproto.tablesVersion + 1)) :
    ∃ sw' r, doBundleCommit env sw id flags = .ok (sw', r) ∧ sw'.gtp = sw.gtp ∧
      sw'.ofproto.contents = sw.ofproto.contents := by
  obtain ⟨p₁, r, hstart, hcont, hfin⟩ := Idle.start ⟨fm, sw.ofproto.tablesVersion + 1, [], [], none⟩ h
  simp only [doBundleCommit, hb, ne_eq, bundleBegin_one, hstart, Except.ok_bind]
  cases r with
  | error e => exact ⟨_, _, rfl, rfl, hcont⟩
  | ok ofm =>
    simp only [Except.ok_bind, bundleFinish, foldlM_cons, hfin ofm rfl]
    refine ⟨_, _, rfl, rfl, ?_⟩
    rw [← hcont]
    split <;> rfl

theorem commit_idle {flags : UInt16} {closed : Bool} {r : Except OfpErr Unit}
    (hb : ofconnGetBundle sw.ofconn id = some ⟨id, flags, closed, [.flowMod fm]⟩)
    (h : doBundleCommit env sw id flags = .ok (sw', r)) :
    sw'.gtp = sw.gtp ∧ (sw'.ofproto.contents = sw.ofproto.contents →
      Idle env sw.ofproto fm (sw.ofproto.tablesVersion + 1)) := by
  simp only [doBundleCommit, hb, ne_eq, bundleBegin_one] at h
  obtain ⟨⟨p₁, bs, e⟩, h₁, h⟩ := Except.bind_eq_ok h
  obtain ⟨⟨p₂, r₂⟩, hstart, h₁⟩ := Except.bind_eq_ok h₁
  rcases start_cases hstart with hidle | ⟨⟨ofm, rfl⟩, hmark⟩
  · cases e with
    | some e =>
      obtain ⟨p₃, -, h⟩ := Except.bind_eq_ok h
      cases h
      exact ⟨rfl, fun _ => hidle⟩
    | none =>
      obtain ⟨p₃, -, h⟩ := Except.bind_eq_ok h
      cases h
      exact ⟨rfl, fun _ => hidle⟩
  · cases h₁
    obtain ⟨p₃, hfin, h⟩ := Except.bind_eq_ok h
    cases h
    refine ⟨rfl, fun hcont => ?_⟩
    exfalso
    obtain ⟨p₄, hfin, hp⟩ := Except.bind_eq_ok hfin
    cases hp
    have hver : Shrinks p₂ (if p₂.tablesVersion < ofm.version then { p₂ with tablesVersion := ofm.version } else p₂) := by
      split
      · exact .of_rules rfl
      · exact .refl p₂
    exact (hmark.trans_shrinks (hver.trans (.flowModFinish hfin))).contents_ne hcont

/-! ## The two transports -/

omit [DecidableEq M] in
theorem checkOfpacts_bundled (hfm : dec.flowMod oh = .ok fm) (hne : fm.ofpacts ≠ []) :
    bundleEntry dec p (.flowMod oh) = match ofprotoCheckOfpacts p fm.ofpacts with
      | .ok _ => .ok (.flowMod fm)
      | .error e => .error e := by
  have hempty : fm.ofpacts.isEmpty = false := by simpa using hne
  simp only [bundleEntry, hfm, Except.ok_bind, hempty, Bool.false_eq_true, if_false]
  cases ofprotoCheckOfpacts p fm.ofpacts <;> rfl

omit [DecidableEq M] in
theorem ofconnGetBundle_insert (c : Ofconn M) {b : OfpBundle M} (hb : b.id = id) :
    ofconnGetBundle (ofconnInsertBundle c b) id = some b := by
  simp [ofconnGetBundle, ofconnInsertBundle, hb]

/-- The bundle as it is when the commit request arrives, with the flow-mod if it is accepted. -/
theorem bundledFlowMod_eq (env : Provider M) (dec : Decoder M) (flags : UInt16) (oh : List UInt8)
    (hrole : rejectSlaveController sw.ofconn = false) (hid : ofconnGetBundle sw.ofconn id = none) :
    let b : OfpBundle M := ⟨id, flags, false, (bundleEntry dec sw.ofproto (.flowMod oh)).toOption.toList⟩
    bundledFlowMod env dec sw id flags oh =
      doBundleCommit env { sw with ofconn := ofconnInsertBundle sw.ofconn b } id flags := by
  have hrole' : ∀ b : OfpBundle M, rejectSlaveController (ofconnInsertBundle sw.ofconn b) = false := fun _ => hrole
  have hremove : ∀ b : OfpBundle M, b.id = id → ofpBundleRemove (ofconnInsertBundle sw.ofconn b) id = sw.ofconn := by
    intro b hb
    simp [ofpBundleRemove, ofconnInsertBundle, hb]
  simp only [bundledFlowMod, handleBundleControl, hrole, Bool.false_eq_true, if_false, ofpBundleOpen, hid,
    Except.ok_bind, handleBundleAdd, hrole']
  cases bundleEntry dec sw.ofproto (.flowMod oh) with
  | error e => simp only [Except.ok_bind, hrole', Bool.false_eq_true, if_false, Except.toOption, Option.toList_none]
  | ok entry =>
    simp only [ofpBundleAddMessage, ofconnGetBundle_insert, hremove, hrole', Bool.false_eq_true, if_false, ne_eq,
      not_true_eq_false, nil_append, Except.ok_bind, Except.toOption, Option.toList_some]

theorem commit_empty (sw : Switch M) {flags : UInt16} {closed : Bool}
    (hb : ofconnGetBundle sw.ofconn id = some ⟨id, flags, closed, []⟩) :
    ∃ sw' r, doBundleCommit env sw id flags = .ok (sw', r) ∧ sw'.gtp = sw.gtp ∧ sw'.ofproto = sw.ofproto := by
  simp only [doBundleCommit, hb, ne_eq, not_true_eq_false, if_false, Except.ok_bind, bundleBegin, bundleFinish,
    foldlM_nil]
  exact ⟨_, _, rfl, rfl, rfl⟩

theorem bundledFlowMod_slave (id : UInt32) (flags : UInt16)
    (hrole : rejectSlaveController sw.ofconn = true) :
    bundledFlowMod env dec sw id flags oh = .ok (sw, .error .ofpbrcIsSlave) := by
  simp only [bundledFlowMod, handleBundleControl, handleBundleAdd, hrole, if_true, Except.ok_bind]

/-- A flow-mod of its own leaves the GTP manager and the tables as they are when the operation and the flow-mod have
nothing to do. -/
theorem handleAccepted_idle (hkept : ConfigKept (gtpArgs g fm.ofpacts) sw.gtp)
    (hidle : Idle env sw.ofproto fm (sw.ofproto.tablesVersion + 1)) :
    ∃ sw' r, handleAccepted env g sw fm = .ok (sw', r) ∧ sw'.gtp = sw.gtp ∧
      sw'.ofproto.contents = sw.ofproto.contents := by
  unfold handleAccepted
  dsimp only
  split
  · rw [(operate_eq_self_iff _ _).2 hkept]
    exact ⟨sw, _, rfl, rfl, rfl⟩
  · obtain ⟨p', r, h, hcont⟩ := hidle.handle
    simp [*]

/-- A flow-mod of its own that leaves the GTP manager as it is. -/
theorem handleAccepted_kept {r : Except OfpErr Unit} (h : handleAccepted env g sw fm = .ok (sw', r))
    (hgtp : sw'.gtp = sw.gtp) : ConfigKept (gtpArgs g fm.ofpacts) sw.gtp := by
  rw [← operate_eq_self_iff]
  unfold handleAccepted at h
  dsimp only at h
  split at h
  · grind
  · rename_i hop
    -- no operation at all
    have hop : (gtpArgs g fm.ofpacts).operation = 0 := not_not.1 hop
    simp [GtpArgs.operate, hop]

/-- A bridge on which every two matches are unrelated and the provider accepts every rule. -/
def plainProvider : Provider Nat where
  looseMatch := fun a b => a = b
  overlaps := fun _ _ => false
  defaultHidden := fun _ => true
  catchall := 0
  ruleChooseTable := none
  ruleAllocs := true
  ruleConstruct := fun _ => none
  evictFirst := fun _ _ => 0
  turnFlags := fun _ => true

/-- One empty table, the GTP manager as it starts and a controller without a bundle. -/
def freshSwitch : Switch Nat where
  ofproto := ⟨[⟨[], 0, 0xffffffff, false, false, false, []⟩], 1, [], [], [], [], [], [], 0⟩
  gtp := Gtp.gtpManagerInit ⟨0, 0, 0, 0, 0, 0, 0⟩
  ofconn := ⟨true, false, []⟩

def gtpFlowMod (command : FlowModCommand) (as : List GtpAction) : FlowMod Nat where
  mtch := 1
  priority := 100
  cookie := 0
  cookieMask := 0
  newCookie := 0
  modifyCookie := false
  tableId := 0
  command := command
  idleTimeout := 0
  hardTimeout := 0
  outPort := ofppAny
  outGroup := ofpgAny
  flags := 0
  importance := 0
  ofpacts := as.map .gtp
  deleteReason := .delete

/-- A decoder to which every message is the one flow-mod. -/
def decodesTo (fm : FlowMod Nat) : Decoder Nat := ⟨fun _ => .ok fm, fun _ => .error (.provider 0)⟩

end LinkerOvs.FlowTable
