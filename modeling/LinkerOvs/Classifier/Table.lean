/-
The classifier and the operations of its writer (`lib/classifier.c`): subtables in a map and in a priority
vector, tries for up to three prefix fields, and rules that are inserted, replaced, removed, and made
invisible and visible again in versions of the tables.
-/
import LinkerOvs.Util.Hash
import LinkerOvs.Classifier.Pvector
import LinkerOvs.Classifier.Subtable

namespace LinkerOvs.Cls

/-- What the classifier uses of the rest of the program: the hash functions of the build, `mf_are_prereqs_ok` and the
C library's `qsort`. -/
structure Env where
  hash : FlowHash
  prereqsOk : MfField → Flow → Bool
  qsort : Qsort Flow

/-- The portable build, with hashes by murmurhash, where all fields are there. -/
def Env.portable : Env where
  hash := { add64 := fun hash x => hashAdd64 hash ⟨x⟩, finish := fun hash n => hashFinish hash n.toUInt32 }
  prereqsOk := fun _ _ => true
  qsort := Qsort.insertion

/-! ## Tries for prefix fields -/

def clsMaxTries : Nat := 3

/-- `flow_be32ofs`, of a field that can have a trie. -/
def MfField.be32ofs (field : MfField) : Nat := field.flowBe32ofs.getD 0

/-- `minimask_get_prefix_len`. -/
def MfField.prefixLen (field : MfField) (mask : Flow) : Nat := minimaskGetPrefixLen mask field.be32ofs field.nBits

/-- The value of a field, most significant bit first. -/
def MfField.bits (field : MfField) (f : Flow) : List Bool := f.fieldBits field.be32ofs field.nBits

structure ClsTrie where
  field : MfField
  root : TrieNode

def trieInsert (trie : ClsTrie) (flow : Flow) (mlen : Nat) : ClsTrie :=
  { trie with root := trieInsertPrefix trie.root ((trie.field.bits flow).take mlen) }

/-- A prefix that is not there is logged. -/
def trieRemove (trie : ClsTrie) (flow : Flow) (mlen : Nat) : ClsTrie :=
  { trie with root := (trieRemovePrefix trie.root ((trie.field.bits flow).take mlen)).getD trie.root }

/-- `trie_init` for a field, which adds the rules that are there. -/
def trieInit (subtables : List ClsSubtable) (field : MfField) : ClsTrie :=
  subtables.foldl (fun trie S =>
    let plen := field.prefixLen S.mask
    if plen ≠ 0 then S.rules.foldl (fun trie c => trieInsert trie c.flow plen) trie else trie)
    { field, root := .nil }

/-! ## The classifier -/

/-- A pointer to a subtable in `subtables` is its mask, and there is one subtable for a mask. -/
structure Classifier where
  nRules : Nat
  flowSegments : List Nat
  subtables : Pvector Flow
  subtablesMap : List ClsSubtable
  tries : List ClsTrie

def clsMaxIndices : Nat := 3

def classifierInit (flowSegments : Option (List Nat)) : Classifier :=
  { nRules := 0
    flowSegments := ((flowSegments.getD []).takeWhile fun s => s < flowU64s).take clsMaxIndices
    subtables := pvectorInit
    subtablesMap := []
    tries := [] }

namespace Classifier

def findSubtable (cls : Classifier) (mask : Flow) : Option ClsSubtable :=
  Keyed.find ClsSubtable.mask mask cls.subtablesMap

def setSubtable (cls : Classifier) (S : ClsSubtable) : Classifier :=
  { cls with subtablesMap := Keyed.set ClsSubtable.mask S cls.subtablesMap }

def clsMatches (cls : Classifier) : List ClsMatch := cls.subtablesMap.flatMap ClsSubtable.clsMatches

/-- The `cls_match` of the rule at an address. -/
def clsMatch (cls : Classifier) (id : Nat) : Option ClsMatch := cls.clsMatches.find? fun m => m.rule.id = id

end Classifier

variable (cls : Classifier)

/-- The subtable that `insert_subtable` makes. -/
def newSubtable (mask : Flow) : ClsSubtable :=
  let maps := stageMaps cls.flowSegments mask
  { mask
    maxPriority := 0
    maxCount := 0
    stages := maps.1.map fun map => { map, index := [] }
    lastMap := maps.2
    triePlen := cls.tries.map fun trie => trie.field.prefixLen mask
    portsMaskLen := portsMaskLen mask
    portsTrie := .nil
    rules := [] }

/-- The classifier with a subtable for `mask`, and that subtable. -/
def findOrInsertSubtable (mask : Flow) : Classifier × ClsSubtable :=
  match cls.findSubtable mask with
  | some S => (cls, S)
  | none =>
    let S := newSubtable cls mask
    ({ cls with subtablesMap := S :: cls.subtablesMap }, S)

/-- The tries after a change for a rule of a subtable with the prefix lengths `triePlen`. -/
def updateTries (update : ClsTrie → Flow → Nat → ClsTrie) (flow : Flow) (tries : List ClsTrie) (triePlen : List Nat) :
    List ClsTrie :=
  List.zipWith (fun trie plen => if plen ≠ 0 then update trie flow plen else trie) tries triePlen

variable (env : Env) (S : ClsSubtable) (id : Nat)

/-- The end of `classifier_replace` when a rule was added: the maximum priority of its subtable, now with `nRules`
chains if the rule is in a new one, and its place in the vector. -/
def updateMaxPriority (priority : Int) (nRules : Nat) : Option Classifier :=
  if nRules = 1 then
    some { cls.setSubtable { S with maxPriority := priority, maxCount := 1 } with
      subtables := pvectorInsert cls.subtables S.mask priority }
  else if priority = S.maxPriority then
    some (cls.setSubtable { S with maxCount := S.maxCount + 1 })
  else if priority > S.maxPriority then
    (pvectorChangePriority cls.subtables S.mask priority).map fun subtables =>
      { cls.setSubtable { S with maxPriority := priority, maxCount := 1 } with subtables }
  else some (cls.setSubtable S)

def publish (cls : Classifier) : Classifier :=
  { cls with subtables := pvectorPublish env.qsort cls.subtables }

/-- The classifier and the rule that was replaced. -/
def classifierReplace (cls : Classifier) (rule : ClsRule) (version : Nat) (conjs : List ClsConjunction) :
    Option (Classifier × Option ClsRule) :=
  let new : ClsMatch := { rule, versions := { addVersion := version, removeVersion := none }, conjSet := conjs }
  let (cls, subtable) := findOrInsertSubtable cls rule.mask
  match subtable.insert env.hash new with
  | (S, .replaced old) => some (cls.setSubtable S, some old.rule)
  | (S, .chained) =>
    (updateMaxPriority cls S rule.priority 0).map fun cls =>
      (publish env { cls with nRules := cls.nRules + 1 }, none)
  | (S, .head nRules) =>
    let cls := { cls with tries := updateTries trieInsert rule.flow cls.tries S.triePlen }
    (updateMaxPriority cls S rule.priority nRules).map fun cls =>
      (publish env { cls with nRules := cls.nRules + 1 }, none)

/-- Asserts that nothing was displaced. -/
def classifierInsert (cls : Classifier) (rule : ClsRule) (version : Nat) (conjs : List ClsConjunction) :
    Option Classifier :=
  match classifierReplace env cls rule version conjs with
  | some (cls, none) => some cls
  | _ => none

/-- The new maximum priority and its count among the heads, in `classifier_remove`. -/
def recount (rules : List Chain) (maxCount : Nat) : Int × Nat :=
  rules.foldl (fun (maxPriority, maxCount) c =>
    if c.head.priority > maxPriority then (c.head.priority, 1)
    else if c.head.priority = maxPriority then (maxPriority, maxCount + 1)
    else (maxPriority, maxCount)) (intMin, maxCount)

/-- From `check_priority` on in `classifier_remove`. -/
def checkPriority (priority : Int) : Option Classifier :=
  if S.maxPriority = priority then
    if S.maxCount - 1 = 0 then
      let (maxPriority, maxCount) := recount S.rules 0
      (pvectorChangePriority cls.subtables S.mask maxPriority).map fun subtables =>
        { cls.setSubtable { S with maxPriority, maxCount } with subtables }
    else some (cls.setSubtable { S with maxCount := S.maxCount - 1 })
  else some (cls.setSubtable S)

/-- Asserts that there is nothing left in the subtable. -/
def destroySubtable : Option Classifier :=
  if S.portsTrie = .nil ∧ S.rules.length = 0 then
    (pvectorRemove cls.subtables S.mask).map fun subtables =>
      { cls with subtables, subtablesMap := Keyed.erase ClsSubtable.mask S.mask cls.subtablesMap }
  else none

/-- `classifier_remove` for the rule at an address: the classifier and the rule that was removed. -/
def classifierRemove (cls : Classifier) (id : Nat) : Option (Classifier × Option ClsRule) :=
  match cls.clsMatch id with
  | none => some (cls, none)
  | some m =>
    (cls.findSubtable m.rule.mask).bind fun subtable =>
    (subtable.remove env.hash m.rule).bind fun (S, removed) =>
    let removed := match removed with
      | .chained => checkPriority cls S m.priority
      | .head nRules =>
        let cls := { cls with tries := updateTries trieRemove m.rule.flow cls.tries S.triePlen }
        if nRules = 0 then destroySubtable cls S else checkPriority cls S m.priority
    removed.map fun cls => ({ publish env cls with nRules := cls.nRules - 1 }, some m.rule)

/-! ## Versions -/

/-- A match with its version changed if it is the one at the address. -/
def ClsMatch.setRemoveVersion (removeVersion : Option Nat) (m : ClsMatch) : ClsMatch :=
  if m.rule.id = id then { m with versions := { m.versions with removeVersion } } else m

def Chain.setRemoveVersion (id : Nat) (removeVersion : Option Nat) (c : Chain) : Chain :=
  { c with list := c.list.map (ClsMatch.setRemoveVersion id removeVersion), nonempty := by simpa using c.nonempty }

def clsMatchSetRemoveVersion (removeVersion : Option Nat) : Classifier :=
  { cls with subtablesMap := cls.subtablesMap.map fun S =>
      { S with rules := S.rules.map (Chain.setRemoveVersion id removeVersion) } }

/-- Asserts that the version is not before the one the rule was added in. -/
def clsRuleMakeInvisibleInVersion (removeVersion : Nat) : Option Classifier :=
  (cls.clsMatch id).bind fun m =>
    if m.versions.addVersion ≤ removeVersion then some (clsMatchSetRemoveVersion cls id (some removeVersion)) else none

def clsRuleRestoreVisibility : Option Classifier :=
  (cls.clsMatch id).map fun _ => clsMatchSetRemoveVersion cls id none

/-! ## Prefix fields -/

/-- The fields among those given that get a trie, after those in `fields`. -/
def prefixFieldsLoop : List MfField → List MfField → List MfField
  | fields, [] => fields
  | fields, field :: trieFields =>
    if fields.length ≥ clsMaxTries then fields
    else if field.flowBe32ofs.isNone ∨ field.nBits % 32 ≠ 0 then prefixFieldsLoop fields trieFields
    else if field.id ∈ fields.map (·.id) then prefixFieldsLoop fields trieFields
    else prefixFieldsLoop (fields ++ [field]) trieFields

/-- The tries for the fields: a trie stays if its field does, and the others are initialized. -/
def resetTries (subtables : List ClsSubtable) : List ClsTrie → List MfField → List ClsTrie
  | _, [] => []
  | [], field :: fields => trieInit subtables field :: resetTries subtables [] fields
  | trie :: tries, field :: fields =>
    (if trie.field = field then trie else trieInit subtables field) :: resetTries subtables tries fields

/-- The prefix lengths of a subtable for the fields. -/
def resetTriePlen (mask : Flow) : List ClsTrie → List Nat → List MfField → List Nat
  | _, _, [] => []
  | trie :: tries, plen :: plens, field :: fields =>
    (if trie.field = field then plen else field.prefixLen mask) :: resetTriePlen mask tries plens fields
  | _, _, field :: fields => field.prefixLen mask :: resetTriePlen mask [] [] fields

def classifierSetPrefixFields (trieFields : List MfField) : Classifier :=
  let fields := prefixFieldsLoop [] trieFields
  { cls with
    tries := resetTries cls.subtablesMap cls.tries fields
    subtablesMap := cls.subtablesMap.map fun S =>
      { S with triePlen := resetTriePlen S.mask cls.tries S.triePlen fields } }

/-! ## Runs -/

/-- An operation of the classifier's writer. -/
inductive Op
  | insert (rule : ClsRule) (version : Nat) (conjs : List ClsConjunction)
  | replace (rule : ClsRule) (version : Nat) (conjs : List ClsConjunction)
  | remove (id : Nat)
  | makeInvisibleInVersion (id removeVersion : Nat)
  | restoreVisibility (id : Nat)
  | setPrefixFields (trieFields : List MfField)

/-- What the operation does; `none` where an assertion fails. -/
def Op.exec (cls : Classifier) : Op → Option Classifier
  | .insert rule version conjs => classifierInsert env cls rule version conjs
  | .replace rule version conjs => (classifierReplace env cls rule version conjs).map (·.1)
  | .remove id => (classifierRemove env cls id).map (·.1)
  | .makeInvisibleInVersion id removeVersion => clsRuleMakeInvisibleInVersion cls id removeVersion
  | .restoreVisibility id => clsRuleRestoreVisibility cls id
  | .setPrefixFields trieFields => some (classifierSetPrefixFields cls trieFields)

/-- What a caller keeps to when it adds a rule: the rule is not in the classifier, and `INT_MIN` is no priority. -/
def Classifier.Accepts (rule : ClsRule) : Prop :=
  (∀ m ∈ cls.clsMatches, m.rule.id ≠ rule.id) ∧ intMin < rule.priority

instance (cls : Classifier) (rule : ClsRule) : Decidable (cls.Accepts rule) := inferInstanceAs (Decidable (_ ∧ _))

def Op.Allowed : Op → Prop
  | .insert rule _ _ => cls.Accepts rule
  | .replace rule _ _ => cls.Accepts rule
  | _ => True

instance (cls : Classifier) : (op : Op) → Decidable (op.Allowed cls)
  | .insert rule _ _ => inferInstanceAs (Decidable (cls.Accepts rule))
  | .replace rule _ _ => inferInstanceAs (Decidable (cls.Accepts rule))
  | .remove _ | .makeInvisibleInVersion _ _ | .restoreVisibility _ | .setPrefixFields _ =>
    inferInstanceAs (Decidable True)

end LinkerOvs.Cls
