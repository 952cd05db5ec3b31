/-
What the classifier is for: a table of rules, each with its match, its priority, the versions it is visible
in and its conjunctions. Here are the operations of the writer on such a table, without subtables, indices
and tries.
-/
import LinkerOvs.Classifier.Table

namespace LinkerOvs.Cls

/-- `m` is the rule that `rule` would take the place of: the same match at the same priority, not to be removed in a
later version. -/
def ClsMatch.DisplacedBy (m : ClsMatch) (rule : ClsRule) : Prop :=
  m.rule.flow = rule.flow ∧ m.rule.mask = rule.mask ∧ m.priority = rule.priority ∧ m.isEventuallyInvisible = false

/-- What an operation does to the rules, which are in no order: they are those that were put in and not displaced or
taken out, with the versions they were last given. -/
inductive TableStep : List ClsMatch → Op → List ClsMatch → Prop
  | insert {t t' : List ClsMatch} {rule : ClsRule} {version : Nat} {conjs : List ClsConjunction} :
      (∀ m ∈ t, ¬m.DisplacedBy rule) → t'.Perm ({ rule, versions := ⟨version, none⟩, conjSet := conjs } :: t) →
      TableStep t (.insert rule version conjs) t'
  | replaceNone {t t' : List ClsMatch} {rule : ClsRule} {version : Nat} {conjs : List ClsConjunction} :
      (∀ m ∈ t, ¬m.DisplacedBy rule) → t'.Perm ({ rule, versions := ⟨version, none⟩, conjSet := conjs } :: t) →
      TableStep t (.replace rule version conjs) t'
  | replace {t t' rest : List ClsMatch} {old : ClsMatch} {rule : ClsRule} {version : Nat}
      {conjs : List ClsConjunction} : old.DisplacedBy rule → t.Perm (old :: rest) →
      t'.Perm ({ rule, versions := ⟨version, none⟩, conjSet := conjs } :: rest) →
      TableStep t (.replace rule version conjs) t'
  | removeNone {t : List ClsMatch} {id : Nat} : (∀ m ∈ t, m.rule.id ≠ id) → TableStep t (.remove id) t
  | remove {t t' : List ClsMatch} {m : ClsMatch} {id : Nat} : m.rule.id = id → t.Perm (m :: t') →
      TableStep t (.remove id) t'
  | makeInvisibleInVersion {t : List ClsMatch} {m : ClsMatch} {id removeVersion : Nat} : m ∈ t → m.rule.id = id →
      m.versions.addVersion ≤ removeVersion →
      TableStep t (.makeInvisibleInVersion id removeVersion) (t.map (ClsMatch.setRemoveVersion id (some removeVersion)))
  | restoreVisibility {t : List ClsMatch} {m : ClsMatch} {id : Nat} : m ∈ t → m.rule.id = id →
      TableStep t (.restoreVisibility id) (t.map (ClsMatch.setRemoveVersion id none))
  | setPrefixFields {t : List ClsMatch} {trieFields : List MfField} : TableStep t (.setPrefixFields trieFields) t

/-- The rules of a table that a lookup of a flow in a version can see and that match it. -/
def seen (t : List ClsMatch) (v : Version) (f : Flow) : List ClsMatch :=
  t.filter fun m => m.visibleIn v && decide (m.rule.mask.Agrees m.rule.flow f)

theorem mem_seen {t : List ClsMatch} {v : Version} {f : Flow} {m : ClsMatch} :
    m ∈ seen t v f ↔ m ∈ t ∧ m.visibleIn v = true ∧ m.rule.mask.Agrees m.rule.flow f := by
  rw [seen, List.mem_filter, Bool.and_eq_true, decide_eq_true_eq]

end LinkerOvs.Cls
