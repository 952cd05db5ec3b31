/-
The OpenFlow tables of a bridge (`ofproto/ofproto.c`, `ofproto/ofproto-provider.h`) and what the flow-mod
code does to them directly: selecting rules by criteria, the eviction groups, the indexes a rule is entered
in, and the cookies of learned flows. A classifier is the list of the rules inserted in it, each with its
versions; a rule that was removed stays in the list, invisible, until the grace period is over.
-/
import LinkerOvs.Lib.Outcome
import LinkerOvs.Ofp.Ofpact

namespace LinkerOvs.FlowTable

open Cls Ofp

/-- The error codes these functions return. `provider` is one from a decoder or from the datapath provider. -/
inductive OfpErr
  | ofpbrcIsSlave
  | ofpbrcBadTableId
  | ofpbrcEperm
  | ofpfmfcOverlap
  | ofpfmfcTableFull
  | ofpfmfcUnknown
  | ofpfmfcBadCommand
  | ofpmmfcInvalidMeter
  | ofpbacBadOutGroup
  | ofppmfcBadPort
  | ofppmfcBadHwAddr
  | ofpbfcBadId
  | ofpbfcBadFlags
  | ofpbfcBadType
  | ofpbfcBundleClosed
  | ofpbfcMsgFailed
  | provider (code : Nat)
deriving DecidableEq, Repr

/-- What aborts the switch. -/
inductive Abort
  | assertFailed
  | notReached
  | dangling            -- a pointer to a rule or table that is not there
  | gtp (f : Gtp.Fault)
deriving DecidableEq, Repr

/-! ## State -/

/-- `struct rule`, `id` being its address. The classifier's own data on the rule is `versions` and `conjs`. -/
structure Rule (M : Type) where
  id : Nat
  tableId : Nat
  mtch : M
  priority : Int
  flowCookie : UInt64
  idleTimeout : UInt16
  hardTimeout : UInt16
  importance : UInt16
  flags : UInt8
  actions : List Ofpact
  versions : Versions
  conjs : List ClsConjunction
  removed : Bool

/-- `evictable` are the rules in the table's eviction groups. -/
structure OfTable (M : Type) where
  cls : List (Rule M)
  nFlows : UInt32
  maxFlows : UInt32
  hidden : Bool
  readonly : Bool
  eviction : Bool
  evictable : List Nat

structure LearnedCookie where
  cookie : UInt64
  tableId : Nat
  n : Int
deriving DecidableEq

/-- The part of a `struct ofport` that a port-mod looks at. -/
structure OfPort where
  portNo : UInt16
  hwAddr : Gtp.EthAddr
  config : UInt32
deriving DecidableEq

/-- With the address the next rule gets. -/
structure Ofproto (M : Type) where
  tables : List (OfTable M)
  tablesVersion : Nat
  cookies : List Nat
  expirable : List Nat
  learnedCookies : List LearnedCookie
  groups : List UInt32
  meters : List UInt32
  ports : List OfPort
  nextId : Nat

/-- What the flow-mod code calls: the relations between matches, the datapath provider's functions, the choice
among the rules that may be evicted, and the network device's answer to a port-mod. The choice is made by the order
of two heaps, which changes with the time; no two calls that evict see the same tables, so it is one of the tables. -/
structure Provider (M : Type) where
  looseMatch : M → M → Bool         -- cls_rule_is_loose_match()
  overlaps : M → M → Bool
  defaultHidden : M → Bool          -- match_has_default_hidden_fields()
  catchall : M
  ruleChooseTable : Option (M → Except OfpErr Nat)
  ruleAllocs : Bool
  ruleConstruct : Rule M → Option OfpErr
  evictFirst : Ofproto M → List Nat → Nat
  turnFlags : OfPort → Bool         -- netdev_turn_flags_on() or _off() succeeds

variable {M : Type}

variable (p : Ofproto M)

def Ofproto.rules : List (Rule M) := p.tables.flatMap OfTable.cls

def Ofproto.rule (id : Nat) : Except Abort (Rule M) :=
  match p.rules.find? fun r => r.id = id with
  | some r => .ok r
  | none => .error .dangling

def Ofproto.modifyRule (id : Nat) (f : Rule M → Rule M) : Ofproto M :=
  { p with tables := p.tables.map fun t => { t with cls := t.cls.map fun r => if r.id = id then f r else r } }

def Ofproto.modifyTable (i : Nat) (f : OfTable M → OfTable M) : Except Abort (Ofproto M) :=
  if i < p.tables.length then .ok { p with tables := p.tables.modify i f } else .error .dangling

/-! ## The classifier's operations -/

/-- `classifier_find_rule_exactly`. -/
def findRuleExactly [DecidableEq M] (cls : List (Rule M)) (m : M) (priority : Int) (v : Version) : Option (Rule M) :=
  cls.find? fun r => r.mtch = m && r.priority = priority && r.versions.visibleIn v

/-- `classifier_rule_overlaps`. -/
def ruleOverlaps (env : Provider M) (cls : List (Rule M)) (m : M) (priority : Int) (v : Version) : Bool :=
  cls.any fun r => r.priority = priority && env.overlaps r.mtch m && r.versions.visibleIn v

/-- `cls_match_set_remove_version`. -/
def Rule.setRemoveVersion (version : Option Nat) (r : Rule M) : Rule M :=
  { r with versions := { r.versions with removeVersion := version } }

/-- `cls_rule_make_invisible_in_version`. -/
def makeInvisibleInVersion (id : Nat) (version : Nat) : Except Abort (Ofproto M) := do
  let r ← p.rule id
  if r.versions.addVersion ≤ version then
    .ok (p.modifyRule id (Rule.setRemoveVersion (some version)))
  else .error .assertFailed

/-- `cls_rule_restore_visibility`. -/
def restoreVisibility (id : Nat) : Ofproto M :=
  p.modifyRule id (Rule.setRemoveVersion none)

/-- No rule with the same match and priority may be left that nothing has removed. -/
def classifierInsert [DecidableEq M] (p : Ofproto M) (r : Rule M) (version : Nat) (conjs : List ClsConjunction) :
    Except Abort (Ofproto M) :=
  let r := { r with versions := ⟨version, none⟩, conjs := conjs }
  if (p.tables[r.tableId]?).any fun t => (findRuleExactly t.cls r.mtch r.priority none).isSome then
    .error .assertFailed
  else p.modifyTable r.tableId fun t => { t with cls := t.cls ++ [r] }

def classifierRemove (tableId id : Nat) : Except Abort (Ofproto M) :=
  p.modifyTable tableId fun t => { t with cls := t.cls.filter fun r => r.id ≠ id }

/-! ## Selecting rules -/

def ofpttAll : Nat := 0xff

/-- The mask that selects rules by their whole cookie, and the new cookie that means there is none. -/
def be64Max : UInt64 := 0xffffffffffffffff

structure RuleCriteria (M : Type) where
  tableId : Nat
  mtch : M
  priority : Int
  version : Version
  cookie : UInt64
  cookieMask : UInt64
  outPort : UInt16
  outGroup : UInt32
  includeHidden : Bool
  includeReadonly : Bool

def uint16Max : Int := 0xffff

def ruleCriteriaInit (tableId : Nat) (m : M) (priority : Int) (version : Version) (cookie cookieMask : UInt64)
    (outPort : UInt16) (outGroup : UInt32) : RuleCriteria M where
  tableId := tableId
  mtch := m
  priority := priority
  version := version
  cookie := cookie
  cookieMask := cookieMask
  outPort := outPort
  outGroup := outGroup
  includeHidden := decide (uint16Max < priority)
  includeReadonly := true

def ruleCriteriaRequireRw (c : RuleCriteria M) (canWriteReadonly : Bool) : RuleCriteria M :=
  { c with includeReadonly := canWriteReadonly }

def checkTableId (tableId : Nat) : Bool := tableId = ofpttAll || decide (tableId < p.tables.length)

/-- The tables of `FOR_EACH_MATCHING_TABLE`. -/
def matchingTables (tableId : Nat) : List (OfTable M) :=
  if tableId = ofpttAll then p.tables.filter fun t => !t.hidden else (p.tables[tableId]?).toList

def ruleIsHidden (r : Rule M) : Bool := decide (uint16Max < r.priority)

def ruleIsReadonly (r : Rule M) : Bool := (p.tables[r.tableId]?).any OfTable.readonly

def ruleHasOutPort (r : Rule M) (port : UInt16) : Bool := port = ofppAny || ofpactsOutputToPort r.actions port

def ruleHasOutGroup (r : Rule M) (groupId : UInt32) : Bool :=
  groupId = ofpgAny || ofpactsOutputToGroup r.actions groupId

/-- The test of `collect_rule`, read-only rules aside. -/
def meetsCriteria (c : RuleCriteria M) (r : Rule M) : Bool :=
  (c.tableId = r.tableId || c.tableId = ofpttAll) && ruleHasOutPort r c.outPort && ruleHasOutGroup r c.outGroup &&
    ((r.flowCookie ^^^ c.cookie) &&& c.cookieMask) = 0 && (!ruleIsHidden r || c.includeHidden) &&
    r.versions.visibleIn c.version

/-- `collect_rule` for each of the candidates and the end of the two functions below. -/
def collectRules (c : RuleCriteria M) (candidates : List (Rule M)) : Except OfpErr (List (Rule M)) :=
  let hits := candidates.filter (meetsCriteria c)
  let rules := hits.filter fun r => !ruleIsReadonly p r || c.includeReadonly
  -- only read-only rules were found
  if rules.isEmpty && !hits.isEmpty then .error .ofpbrcEperm else .ok rules

def Ofproto.cookieRules (cookie : UInt64) : List (Rule M) :=
  p.rules.filter fun r => p.cookies.contains r.id && r.flowCookie = cookie

def collectRulesLoose (env : Provider M) (p : Ofproto M) (c : RuleCriteria M) : Except OfpErr (List (Rule M)) :=
  if !checkTableId p c.tableId then .error .ofpbrcBadTableId
  else if c.cookieMask = be64Max then
    collectRules p c ((p.cookieRules c.cookie).filter fun r => env.looseMatch r.mtch c.mtch)
  else
    collectRules p c ((matchingTables p c.tableId).flatMap fun t =>
      t.cls.filter fun r => r.versions.visibleIn c.version && env.looseMatch r.mtch c.mtch)

def collectRulesStrict [DecidableEq M] (p : Ofproto M) (c : RuleCriteria M) : Except OfpErr (List (Rule M)) :=
  if !checkTableId p c.tableId then .error .ofpbrcBadTableId
  else if c.cookieMask = be64Max then
    collectRules p c ((p.cookieRules c.cookie).filter fun r => r.mtch = c.mtch && r.priority = c.priority)
  else
    collectRules p c ((matchingTables p c.tableId).filterMap fun t => findRuleExactly t.cls c.mtch c.priority c.version)

/-! ## Eviction groups and the indexes of a rule -/

def hasTimeout (r : Rule M) : Bool := r.hardTimeout != 0 || r.idleTimeout != 0

def evictionGroupAddRule (r : Rule M) : Except Abort (Ofproto M) :=
  p.modifyTable r.tableId fun t =>
    if t.eviction && hasTimeout r then { t with evictable := r.id :: t.evictable } else t

def evictionGroupRemoveRule (r : Rule M) : Except Abort (Ofproto M) :=
  p.modifyTable r.tableId fun t => { t with evictable := t.evictable.erase r.id }

def chooseRuleToEvict (env : Provider M) (p : Ofproto M) (t : OfTable M) : Option Nat :=
  if t.eviction then t.evictable[env.evictFirst p t.evictable % t.evictable.length]? else none

/-- The rule enters the indexes. -/
def ofprotoRuleInsert (r : Rule M) : Except Abort (Ofproto M × Rule M) :=
  if !r.removed then .error .assertFailed
  else do
    let expirable := if hasTimeout r then r.id :: p.expirable else p.expirable
    let p ← evictionGroupAddRule { p with expirable := expirable, cookies := r.id :: p.cookies } r
    .ok (p, { r with removed := false })

/-- The rule leaves the indexes. -/
def ofprotoRuleRemove (id : Nat) : Except Abort (Ofproto M) := do
  let r ← p.rule id
  if r.removed then .error .assertFailed
  else
    let p ← evictionGroupRemoveRule { p with cookies := p.cookies.erase id, expirable := p.expirable.erase id } r
    .ok (p.modifyRule id fun r => { r with removed := true })

end LinkerOvs.FlowTable
