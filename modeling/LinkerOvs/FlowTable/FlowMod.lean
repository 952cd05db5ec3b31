/-
Flow-mods (`ofproto/ofproto.c`): each command in its three phases. The start phase selects and creates
rules and marks the change for the next version of the tables, the revert phase takes that back, and the
finish phase completes it after the version was published.
-/
import LinkerOvs.FlowTable.Tables

namespace LinkerOvs.FlowTable

open Cls Ofp

/-- `command` of a flow-mod. -/
inductive FlowModCommand
  | add
  | modify
  | modifyStrict
  | delete
  | deleteStrict
  | other (code : UInt16)
deriving DecidableEq

/-- `delete_reason` of a flow-mod. -/
inductive FlowRemovedReason
  | delete
  | eviction
deriving DecidableEq

/-- `struct ofputil_flow_mod`. -/
structure FlowMod (M : Type) where
  mtch : M
  priority : Int
  cookie : UInt64
  cookieMask : UInt64
  newCookie : UInt64
  modifyCookie : Bool
  tableId : Nat
  command : FlowModCommand
  idleTimeout : UInt16
  hardTimeout : UInt16
  outPort : UInt16
  outGroup : UInt32
  flags : UInt8
  importance : UInt16
  ofpacts : List Ofpact
  deleteReason : FlowRemovedReason

def ofputilFfCheckOverlap : UInt8 := 0x08
def ofputilFfState : UInt8 := 0x1f
def ofputilFfHiddenFields : UInt8 := 0x40
def ofputilFfNoReadonly : UInt8 := 0x80

/-- A flow-mod with the version its changes take effect in, the rules affected and those that replace them. `stub` is
the first slot of the two collections, which the code for added flows uses without counting it: an evicted or replaced
rule, and the added one. -/
structure OfprotoFlowMod (M : Type) where
  fm : FlowMod M
  version : Nat
  oldRules : List Nat
  newRules : List Nat
  stub : Option (Option Nat × Nat)

variable {M : Type}

/-! ## Replacing a rule -/

/-- The loops of `get_conjunctions`: conjunctions stand with notes only. -/
def getConjunctions : List ClsConjunction → List Ofpact → Except Abort (List ClsConjunction)
  | conjs, [] => .ok conjs
  | conjs, .conjunction c :: as => getConjunctions (conjs ++ [c]) as
  | conjs, .note :: as => getConjunctions conjs as
  | conjs, _ :: _ => if conjs.isEmpty then .ok [] else .error .assertFailed

variable (env : Provider M) (p : Ofproto M) (fm : FlowMod M) (ofm : OfprotoFlowMod M)

def changeCookie (old : Rule M) : Bool :=
  fm.modifyCookie && fm.newCookie != be64Max && fm.newCookie != old.flowCookie

/-- What a rule takes over from the one it replaces. -/
def modifySemantics (old rule : Rule M) : Rule M :=
  let rule := if fm.command = .add then rule else
    { rule with
      idleTimeout := old.idleTimeout, hardTimeout := old.hardTimeout, importance := old.importance,
      flags := old.flags }
  if changeCookie fm old then rule else { rule with flowCookie := old.flowCookie }

/-- The rule that `replace_rule_create` sets up at an address. -/
def newRule (id : Nat) (fm : FlowMod M) (m : M) (priority : Int) (tableId : Nat) (oldRule : Option (Rule M)) : Rule M :=
  let rule : Rule M :=
    { id := id, tableId := tableId, mtch := m, priority := priority, flowCookie := fm.newCookie,
      idleTimeout := fm.idleTimeout, hardTimeout := fm.hardTimeout, importance := fm.importance,
      flags := fm.flags &&& ofputilFfState, actions := fm.ofpacts, versions := ⟨0, none⟩, conjs := [],
      removed := true }
  match oldRule with
  | some old => if fm.deleteReason = .eviction then rule else modifySemantics fm old rule
  | none => rule

/-- A rule that is in no data structure yet. -/
def replaceRuleCreate (m : M) (priority : Int) (tableId : Nat)
    (oldRule : Option (Rule M)) : Except OfpErr (Ofproto M × Rule M) :=
  if !env.ruleAllocs then .error .ofpfmfcUnknown
  else
    let rule := newRule p.nextId fm m priority tableId oldRule
    match env.ruleConstruct rule with
    | some e => .error e
    | none => .ok ({ p with nextId := p.nextId + 1 }, rule)

/-- The first part of `replace_rule_start`: an old rule, replaced or evicted, is removed in the version; otherwise
the table has one rule more. -/
def makeRoom (version : Nat) (tableId : Nat) : Option Nat → Except Abort (Ofproto M)
  | some id => makeInvisibleInVersion p id version
  | none => p.modifyTable tableId fun t => { t with nFlows := t.nFlows + 1 }

def replaceRuleStart [DecidableEq M] (p : Ofproto M) (version : Nat) (oldRule : Option Nat) (newRule : Rule M)
    (conjs : List ClsConjunction) : Except Abort (Ofproto M) := do
  let p ← makeRoom p version newRule.tableId oldRule
  let (p, newRule) ← ofprotoRuleInsert p newRule
  classifierInsert p newRule version conjs

/-- The first part of `replace_rule_revert`. -/
def giveRoomBack (tableId : Nat) : Option Nat → Except Abort (Ofproto M)
  | some id => .ok (restoreVisibility p id)
  | none => p.modifyTable tableId fun t => { t with nFlows := t.nFlows - 1 }

/-- The rule leaves the indexes while it can still be looked up here; in the source it outlives its removal from the
classifier. -/
def replaceRuleRevert (oldRule : Option Nat) (newRule : Nat) : Except Abort (Ofproto M) := do
  let new ← p.rule newRule
  let p ← giveRoomBack p new.tableId oldRule
  let p ← ofprotoRuleRemove p newRule
  classifierRemove p new.tableId newRule

/-! ## The cookies of learned flows -/

/-- The learn actions with the flag to delete what was learned (`next_learn_with_delete`). -/
def learnsWithDelete (actions : List Ofpact) : List (UInt64 × Nat) :=
  actions.filterMap fun
    | .learn cookie tableId true => some (cookie, tableId)
    | _ => none

def learnedCookiesUpdateOne (dead : List LearnedCookie) (delta : Int) (learn : UInt64 × Nat) :
    Except Abort (Ofproto M × List LearnedCookie) :=
  match p.learnedCookies.find? fun c => c.cookie = learn.1 && c.tableId = learn.2 with
  | some c =>
    let c' := { c with n := c.n + delta }
    if c'.n < 0 then .error .assertFailed
    else if c'.n = 0 then .ok ({ p with learnedCookies := p.learnedCookies.erase c }, dead ++ [c'])
    else .ok ({ p with learnedCookies := c' :: p.learnedCookies.erase c }, dead)
  | none =>
    if 0 < delta then .ok ({ p with learnedCookies := ⟨learn.1, learn.2, delta⟩ :: p.learnedCookies }, dead)
    else .error .assertFailed

def learnedCookiesUpdate (dead : List LearnedCookie) (delta : Int) (actions : List Ofpact) :
    Except Abort (Ofproto M × List LearnedCookie) :=
  (learnsWithDelete actions).foldlM (fun s learn => learnedCookiesUpdateOne s.1 s.2 delta learn) (p, dead)

/-! ## Deleting rules -/

def deleteFlowsStart (version : Nat) (rules : List Nat) : Except Abort (Ofproto M) :=
  rules.foldlM (fun p id => do
    let r ← p.rule id
    let p ← p.modifyTable r.tableId fun t => { t with nFlows := t.nFlows - 1 }
    makeInvisibleInVersion p id version) p

/-- One turn of the loop of `delete_flows_finish__`. -/
def deleteFlowFinish (s : Ofproto M × List LearnedCookie) (id : Nat) : Except Abort (Ofproto M × List LearnedCookie) := do
  let r ← s.1.rule id
  let p ← ofprotoRuleRemove s.1 id
  learnedCookiesUpdate p s.2 (-1) r.actions

/-- `delete_flows_finish__`, given what `learned_cookies_flush` does. -/
def deleteFlowsFinish (flush : Ofproto M → List LearnedCookie → Except Abort (Ofproto M)) (p : Ofproto M)
    (rules : List Nat) : Except Abort (Ofproto M) := do
  let (p, dead) ← rules.foldlM deleteFlowFinish (p, [])
  flush p dead

def ofprotoBumpTablesVersion : Ofproto M := { p with tablesVersion := p.tablesVersion + 1 }

def deleteFlows (flush : Ofproto M → List LearnedCookie → Except Abort (Ofproto M)) (p : Ofproto M)
    (rules : List Nat) : Except Abort (Ofproto M) :=
  if rules.isEmpty then .ok p
  else do
    let p ← deleteFlowsStart p (p.tablesVersion + 1) rules
    deleteFlowsFinish flush (ofprotoBumpTablesVersion p) rules

/-- After the grace period. -/
def removeRuleRcu (id : Nat) : Except Abort (Ofproto M) := do
  let r ← p.rule id
  if r.versions.visibleIn none then .error .assertFailed
  else classifierRemove p r.tableId id

/-- The rules that `learned_cookies_flush` deletes for one cookie. -/
def learnedRules (c : LearnedCookie) : List Nat :=
  let criteria := ruleCriteriaRequireRw
    (ruleCriteriaInit c.tableId env.catchall 0 none c.cookie be64Max ofppAny ofpgAny) false
  match collectRulesLoose env p criteria with
  | .ok rules => rules.map Rule.id
  | .error _ => []

/-- `learned_cookies_flush`. Deleting a learned flow may leave further cookies without a flow that learns them,
which are flushed in turn; each round deletes rules, so as many rounds as there are rules are enough. -/
def learnedCookiesFlushRounds (env : Provider M) : Nat → Ofproto M → List LearnedCookie → Except Abort (Ofproto M)
  | 0, p, _ => .ok p
  | n + 1, p, dead =>
    dead.foldlM (fun p c => deleteFlows (learnedCookiesFlushRounds env n) p (learnedRules env p c)) p

def learnedCookiesFlush (dead : List LearnedCookie) : Except Abort (Ofproto M) :=
  learnedCookiesFlushRounds env (p.rules.length + 1) p dead

def replaceRuleFinish (s : Ofproto M × List LearnedCookie) (oldRule : Option Nat) (newRule : Nat) :
    Except Abort (Ofproto M × List LearnedCookie) := do
  let new ← s.1.rule newRule
  let (p, dead) ← learnedCookiesUpdate s.1 s.2 1 new.actions
  match oldRule with
  | none => .ok (p, dead)
  | some id =>
    let old ← p.rule id
    let p ← ofprotoRuleRemove p id
    learnedCookiesUpdate p dead (-1) old.actions

/-! ## Adding a flow -/

/-- The result of a start phase: the state, and the flow-mod with what it affects or an error. -/
abbrev Started (M : Type) := Ofproto M × Except OfpErr (OfprotoFlowMod M)

/-- The table that `add_flow_start` picks. -/
def addTable : Except OfpErr Nat :=
  if !checkTableId p fm.tableId then .error .ofpbrcBadTableId
  else if fm.tableId = ofpttAll then
    match env.ruleChooseTable with
    | some choose => choose fm.mtch
    | none => .ok 0
  else if fm.tableId < p.tables.length then .ok fm.tableId
  else .error .ofpbrcBadTableId

/-- The end of `add_flow_start`, once it is known which rule goes. -/
def addRule [DecidableEq M] (env : Provider M) (p : Ofproto M) (ofm : OfprotoFlowMod M) (tableId : Nat)
    (oldRule : Option (Rule M)) : Except Abort (Started M) :=
  match replaceRuleCreate env p ofm.fm ofm.fm.mtch ofm.fm.priority tableId oldRule with
  | .error e => .ok (p, .error e)
  | .ok (p, newRule) => do
    let conjs ← getConjunctions [] ofm.fm.ofpacts
    let p ← replaceRuleStart p ofm.version (oldRule.map Rule.id) newRule conjs
    .ok (p, .ok { ofm with stub := some (oldRule.map Rule.id, newRule.id) })

/-- `add_flow_start` once the table is known to take the flow: an identical rule is replaced, and in a full table
another one is evicted. -/
def addFlowTo [DecidableEq M] (env : Provider M) (p : Ofproto M) (ofm : OfprotoFlowMod M) (tableId : Nat)
    (table : OfTable M) : Except Abort (Started M) :=
  let fm := ofm.fm
  match findRuleExactly table.cls fm.mtch fm.priority (some ofm.version) with
  | some rule => addRule env p { ofm with fm := { fm with modifyCookie := true } } tableId (some rule)
  | none =>
    if fm.flags &&& ofputilFfCheckOverlap ≠ 0 &&
        ruleOverlaps env table.cls fm.mtch fm.priority (some ofm.version) then
      .ok (p, .error .ofpfmfcOverlap)
    else if table.maxFlows ≤ table.nFlows then
      match chooseRuleToEvict env p table with
      | none => .ok (p, .error .ofpfmfcTableFull)
      | some id => do
        let rule ← p.rule id
        let p ← evictionGroupRemoveRule p rule
        addRule env p { ofm with fm := { fm with deleteReason := .eviction } } tableId (some rule)
    else addRule env p ofm tableId none

def addFlowStart [DecidableEq M] (env : Provider M) (p : Ofproto M) (ofm : OfprotoFlowMod M) :
    Except Abort (Started M) :=
  let fm := ofm.fm
  match addTable env p fm with
  | .error e => .ok (p, .error e)
  | .ok tableId =>
    match p.tables[tableId]? with
    | none => .error .assertFailed
    | some table =>
      if table.readonly && fm.flags &&& ofputilFfNoReadonly = 0 then .ok (p, .error .ofpbrcEperm)
      else if fm.flags &&& ofputilFfHiddenFields = 0 && !env.defaultHidden fm.mtch then .ok (p, .error .ofpbrcEperm)
      else addFlowTo env p ofm tableId table

/-- An evicted rule goes back to its eviction group. -/
def revertEviction : Option Nat → Except Abort (Ofproto M)
  | some id =>
    if fm.deleteReason = .eviction then do
      let old ← p.rule id
      evictionGroupAddRule p old
    else .ok p
  | none => .ok p

def addFlowRevert : Except Abort (Ofproto M) :=
  match ofm.stub with
  | none => .error .dangling
  | some (oldRule, newRule) => do
    let p ← revertEviction p ofm.fm oldRule
    replaceRuleRevert p oldRule newRule

def addFlowFinish : Except Abort (Ofproto M) :=
  match ofm.stub with
  | none => .error .dangling
  | some (oldRule, newRule) => do
    let (p, dead) ← replaceRuleFinish (p, []) oldRule newRule
    learnedCookiesFlush env p dead

/-! ## Modifying flows -/

/-- The loop of `modify_flows_start__` that creates the rules. -/
def createAll (env : Provider M) (fm : FlowMod M) : Ofproto M → List (Rule M) → Except OfpErr (Ofproto M × List (Rule M))
  | p, [] => .ok (p, [])
  | p, old :: olds => do
    let (p, new) ← replaceRuleCreate env p fm old.mtch old.priority old.tableId (some old)
    let (p, news) ← createAll env fm p olds
    .ok (p, new :: news)

/-- The loop of `modify_flows_start__` that puts them in place. -/
def replaceAll [DecidableEq M] (version : Nat) (conjs : List ClsConjunction) :
    Ofproto M → List (Rule M) → List (Rule M) → Except Abort (Ofproto M)
  | p, old :: olds, new :: news => do
    let p ← replaceRuleStart p version (some old.id) new conjs
    replaceAll version conjs p olds news
  | p, _, _ => .ok p

/-- For the rules that were selected. -/
def modifyFlowsStart [DecidableEq M] (env : Provider M) (p : Ofproto M) (ofm : OfprotoFlowMod M)
    (oldRules : List (Rule M)) : Except Abort (Started M) :=
  if !oldRules.isEmpty then
    match createAll env ofm.fm p oldRules with
    | .error e => .ok (p, .error e)
    | .ok (p, newRules) => do
      let conjs ← getConjunctions [] ofm.fm.ofpacts
      let p ← replaceAll ofm.version conjs p oldRules newRules
      .ok (p, .ok { ofm with oldRules := oldRules.map Rule.id, newRules := newRules.map Rule.id, stub := none })
  else if !(ofm.fm.cookieMask != 0 || ofm.fm.newCookie = be64Max) then
    addFlowStart env p { ofm with oldRules := [], newRules := [] }
  else .ok (p, .ok { ofm with oldRules := [], newRules := [], stub := none })

/-- The criteria of the modify and delete commands. -/
def flowModCriteria (priority : Int) (outPort : UInt16) (outGroup : UInt32) : RuleCriteria M :=
  ruleCriteriaRequireRw (ruleCriteriaInit fm.tableId fm.mtch priority none fm.cookie fm.cookieMask outPort outGroup)
    (fm.flags &&& ofputilFfNoReadonly ≠ 0)

/-- The rules that the command of a flow-mod other than an add selects. -/
def selectedRules [DecidableEq M] (env : Provider M) (p : Ofproto M) (fm : FlowMod M) : Except OfpErr (List (Rule M)) :=
  match fm.command with
  | .modify => collectRulesLoose env p (flowModCriteria fm 0 ofppAny ofpgAny)
  | .modifyStrict => collectRulesStrict p (flowModCriteria fm fm.priority ofppAny ofpgAny)
  | .delete => collectRulesLoose env p (flowModCriteria fm 0 fm.outPort fm.outGroup)
  | .deleteStrict => collectRulesStrict p (flowModCriteria fm fm.priority fm.outPort fm.outGroup)
  | _ => .ok []

def modifyFlowsRevert : Except Abort (Ofproto M) :=
  if ofm.stub.isSome then addFlowRevert p ofm
  else (ofm.oldRules.zip ofm.newRules).foldlM (fun p r => replaceRuleRevert p (some r.1) r.2) p

def modifyFlowsFinish : Except Abort (Ofproto M) :=
  if ofm.stub.isSome then addFlowFinish env p ofm
  else do
    let (p, dead) ← (ofm.oldRules.zip ofm.newRules).foldlM (fun s r => replaceRuleFinish s (some r.1) r.2) (p, [])
    learnedCookiesFlush env p dead

/-! ## Deleting flows -/

/-- The end of `delete_flows_start_loose` and `delete_flow_start_strict`. -/
def deleteSelected (rules : List (Rule M)) : Except Abort (Started M) := do
  let p ← deleteFlowsStart p ofm.version (rules.map Rule.id)
  .ok (p, .ok { ofm with oldRules := rules.map Rule.id })

def deleteFlowsRevert : Except Abort (Ofproto M) :=
  ofm.oldRules.foldlM (fun p id => do
    let r ← p.rule id
    let p ← p.modifyTable r.tableId fun t => { t with nFlows := t.nFlows + 1 }
    .ok (restoreVisibility p id)) p

/-! ## The three phases -/

def ofprotoFlowModStart [DecidableEq M] (env : Provider M) (p : Ofproto M) (ofm : OfprotoFlowMod M) : Except Abort (Started M) :=
  match ofm.fm.command with
  | .add => addFlowStart env p ofm
  | .modify | .modifyStrict =>
    match selectedRules env p ofm.fm with
    | .error e => .ok (p, .error e)
    | .ok rules => modifyFlowsStart env p ofm rules
  | .delete | .deleteStrict =>
    match selectedRules env p ofm.fm with
    | .error e => .ok (p, .error e)
    | .ok rules => deleteSelected p ofm rules
  | .other _ => .ok (p, .error .ofpfmfcBadCommand)

def ofprotoFlowModRevert : Except Abort (Ofproto M) :=
  match ofm.fm.command with
  | .add => addFlowRevert p ofm
  | .modify | .modifyStrict => modifyFlowsRevert p ofm
  | .delete | .deleteStrict => deleteFlowsRevert p ofm
  | .other _ => .ok p

def ofprotoFlowModFinish : Except Abort (Ofproto M) :=
  match ofm.fm.command with
  | .add => addFlowFinish env p ofm
  | .modify | .modifyStrict => modifyFlowsFinish env p ofm
  | .delete | .deleteStrict => deleteFlowsFinish (learnedCookiesFlush env) p ofm.oldRules
  | .other _ => .ok p

/-- `handle_flow_mod__`. -/
def handleFlowModCommon [DecidableEq M] (env : Provider M) (p : Ofproto M) (fm : FlowMod M) :
    Except Abort (Ofproto M × Except OfpErr Unit) := do
  let (p, r) ← ofprotoFlowModStart env p ⟨fm, p.tablesVersion + 1, [], [], none⟩
  match r with
  | .error e => .ok (p, .error e)
  | .ok ofm =>
    let p ← ofprotoFlowModFinish env (ofprotoBumpTablesVersion p) ofm
    .ok (p, .ok ())

end LinkerOvs.FlowTable
