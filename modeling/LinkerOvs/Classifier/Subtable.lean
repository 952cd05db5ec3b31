/-
Rules and subtables of the classifier (`lib/classifier-private.h`, `lib/classifier.c`): the rules with one
mask, in chains of identical matches that hang in a hash table, with an index for each stage of the mask
and a trie of their ports.
-/
import LinkerOvs.Lib.Keyed
import LinkerOvs.Classifier.Version
import LinkerOvs.Classifier.Trie
import LinkerOvs.Classifier.Flow

namespace LinkerOvs.Cls

/-! ## Rules -/

/-- The address it is at, its match and its priority. A match has no bits outside its mask. -/
structure ClsRule where
  id : Nat
  flow : Flow
  mask : Flow
  priority : Int
  masked : ∀ i, flow i &&& mask i = flow i
deriving DecidableEq

/-- The conjunctions of a rule that has no `conj_set` are none. -/
structure ClsMatch where
  rule : ClsRule
  versions : Versions
  conjSet : List ClsConjunction
deriving DecidableEq

namespace ClsMatch

def priority (m : ClsMatch) : Int := m.rule.priority

def visibleIn (m : ClsMatch) (v : Version) : Bool := m.versions.visibleIn v

/-- `cls_match_is_eventually_invisible`. -/
def isEventuallyInvisible (m : ClsMatch) : Bool := m.versions.removeVersion.isSome

end ClsMatch

/-- A node of a subtable's `rules`: the head of a list of identical matches, with those that its `next` pointers lead
to. -/
structure Chain where
  hash : UInt32
  list : List ClsMatch
  nonempty : list ≠ []

namespace Chain

def head (c : Chain) : ClsMatch := c.list.head c.nonempty

/-- The flow of every match in the chain. -/
def flow (c : Chain) : Flow := c.head.rule.flow

end Chain

/-! ## Subtables -/

/-- A node of a staged lookup index: the `index_nodes` member of the head with this address. -/
structure IndexNode where
  hash : UInt32
  head : Nat

/-- One of a subtable's `index_maps`, with the index for it. -/
structure Stage where
  map : Flowmap
  index : List IndexNode

/-- The map after those of the stages, `index_maps[n_indices]`, is `lastMap`. -/
structure ClsSubtable where
  mask : Flow
  maxPriority : Int
  maxCount : Nat
  stages : List Stage
  lastMap : Flowmap
  triePlen : List Nat
  portsMaskLen : Nat
  portsTrie : TrieNode
  rules : List Chain

/-- The loop of `insert_subtable` over the segments: the maps of the stages that add bits, and the end of the last
segment. -/
def stageMapsLoop (mask : Flow) : List Nat → Nat → List Flowmap × Nat
  | [], prev => ([], prev)
  | segment :: segments, prev =>
    let stageMap := minimaskMapInRange mask prev segment
    let r := stageMapsLoop mask segments segment
    (if stageMap = [] then r.1 else stageMap :: r.1, r.2)

/-- The maps of the stages of a mask and the map of the final stage. -/
def stageMaps (flowSegments : List Nat) (mask : Flow) : List Flowmap × Flowmap :=
  let r := stageMapsLoop mask flowSegments 0
  let lastMap := minimaskMapInRange mask r.2 flowU64s
  (if r.1.getLast? = some lastMap then r.1.dropLast else r.1, lastMap)

/-- The hashes of a flow after each stage, and the state after them. -/
def ihashLoop (H : FlowHash) (f mask : Flow) : List Stage → HashState → List UInt32 × HashState
  | [], s => ([], s)
  | stage :: stages, s =>
    let s := hashRange f mask H s stage.map
    let r := ihashLoop H f mask stages s
    (s.hash H :: r.1, r.2)

/-- `cmap_replace` and `cmap_remove` on an index. -/
def cmapReplace (index : List IndexNode) (old new : Nat) (hash : UInt32) : List IndexNode :=
  index.map fun n => if n.hash = hash ∧ n.head = old then { n with head := new } else n

def cmapRemove (index : List IndexNode) (old : Nat) (hash : UInt32) : List IndexNode :=
  index.filter fun n => ¬(n.hash = hash ∧ n.head = old)

namespace ClsSubtable

variable (S : ClsSubtable)

def clsMatches : List ClsMatch := S.rules.flatMap Chain.list

/-- `ihash` in `classifier_replace` and `classifier_remove`. -/
def ihash (H : FlowHash) (S : ClsSubtable) (f : Flow) : List UInt32 := (ihashLoop H f S.mask S.stages {}).1

/-- `hash` in `classifier_replace` and `classifier_remove`. -/
def hash (H : FlowHash) (S : ClsSubtable) (f : Flow) : UInt32 :=
  (hashRange f S.mask H (ihashLoop H f S.mask S.stages {}).2 S.lastMap).hash H

def findEqual (flow : Flow) (hash : UInt32) : Option Chain :=
  S.rules.find? fun c => c.hash = hash ∧ c.flow = flow

def portsPrefix (flow : Flow) : List Bool := (maskedPorts flow S.mask).take S.portsMaskLen

def updateIndices (update : List IndexNode → UInt32 → List IndexNode) (ihash : List UInt32) :
    List Stage :=
  List.zipWith (fun stage h => { stage with index := update stage.index h }) S.stages ihash

/-- A chain with changed matches in the place it hangs in. -/
def setChain (c : Chain) : ClsSubtable := { S with rules := Keyed.set Chain.flow c S.rules }

/-- `subtable_replace_head_rule`. -/
def replaceHeadRule (H : FlowHash) (S : ClsSubtable) (head new : Chain) : ClsSubtable :=
  { S.setChain new with
    stages := S.updateIndices (fun index => cmapReplace index head.head.rule.id new.head.rule.id)
      (S.ihash H head.flow) }

/-- The part of `classifier_replace` that adds a match without identical ones to a subtable. -/
def addHead (H : FlowHash) (S : ClsSubtable) (new : ClsMatch) : ClsSubtable :=
  { S with
    portsTrie :=
      if S.portsMaskLen ≠ 0 then trieInsertPrefix S.portsTrie (S.portsPrefix new.rule.flow) else S.portsTrie
    stages := S.updateIndices (fun index h => ⟨h, new.rule.id⟩ :: index) (S.ihash H new.rule.flow)
    rules := { hash := S.hash H new.rule.flow, list := [new], nonempty := nofun } :: S.rules }

/-- The part of `classifier_remove` that takes the last of identical matches out of a subtable. -/
def removeHead (H : FlowHash) (S : ClsSubtable) (c : Chain) : ClsSubtable :=
  { S with
    portsTrie :=
      if S.portsMaskLen ≠ 0 then (trieRemovePrefix S.portsTrie (S.portsPrefix c.flow)).getD S.portsTrie
      else S.portsTrie
    stages := S.updateIndices (fun index => cmapRemove index c.head.rule.id) (S.ihash H c.flow)
    rules := Keyed.erase Chain.flow c.flow S.rules }

end ClsSubtable

/-! ## Identical matches -/

/-- A match that the scan of `classifier_replace` for the insertion point passes by. -/
def ClsMatch.before (iter : ClsMatch) (rule : ClsRule) : Bool :=
  !(decide (rule.priority > iter.priority) || (rule.priority = iter.priority && !iter.isEventuallyInvisible))

/-- What became of a match that was added to a subtable. -/
inductive Inserted
  /-- It is the first of its kind; the subtable now has `nRules` chains. -/
  | head (nRules : Nat)
  /-- It is among identical matches of other priorities or versions. -/
  | chained
  /-- It is in the place of `old`. -/
  | replaced (old : ClsMatch)

/-- A chain whose matches are `before`, then `new` and `rest`. -/
def Chain.splice (c : Chain) (before : List ClsMatch) (new : ClsMatch) (rest : List ClsMatch) : Chain :=
  { c with list := before ++ new :: rest, nonempty := by simp }

/-- The part of `classifier_replace` that works on the subtable of the rule. -/
def ClsSubtable.insert (H : FlowHash) (S : ClsSubtable) (new : ClsMatch) : ClsSubtable × Inserted :=
  match S.findEqual new.rule.flow (S.hash H new.rule.flow) with
  | none => (S.addHead H new, .head (S.rules.length + 1))
  | some c =>
    let before := c.list.takeWhile fun m => m.before new.rule
    match c.list.dropWhile fun m => m.before new.rule with
    | [] => (S.setChain (c.splice before new []), .chained)
    | iter :: rest =>
      let replaced := new.priority = iter.priority
      let new := c.splice before new (if replaced then rest else iter :: rest)
      (if before = [] then S.replaceHeadRule H c new else S.setChain new,
        if replaced then .replaced iter else .chained)

/-- What became of a match that was taken out of a subtable. -/
inductive Removed
  /-- It was the last of its kind; the subtable now has `nRules` chains. -/
  | head (nRules : Nat)
  /-- Other matches of its chain are left. -/
  | chained

/-- The part of `classifier_remove` that works on the subtable of the rule; `none` where it asserts that the rule is
in the list of equal rules. -/
def ClsSubtable.remove (H : FlowHash) (S : ClsSubtable) (rule : ClsRule) : Option (ClsSubtable × Removed) :=
  match S.findEqual rule.flow (S.hash H rule.flow) with
  | none => none
  | some c =>
    let others := c.list.eraseP fun m => m.rule.id = rule.id
    if c.head.rule.id ≠ rule.id then
      if h : others ≠ [] ∧ others.length < c.list.length then
        some (S.setChain { c with list := others, nonempty := h.1 }, .chained)
      else none
    else if h : others ≠ [] then
      some (S.replaceHeadRule H c { c with list := others, nonempty := h }, .chained)
    else some (S.removeHead H c, .head (S.rules.length - 1))

end LinkerOvs.Cls
