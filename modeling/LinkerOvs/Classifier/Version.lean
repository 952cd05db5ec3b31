/-
What the classifier (`lib/classifier.h`, `lib/classifier-private.h`) keeps with a rule besides its
match: the versions in which the rule is visible and the conjunctive clauses it is part of.
-/
import Mathlib.Tactic

namespace LinkerOvs.Cls

/-- The version of a lookup: a version of the tables, or `none` for `CLS_MAX_VERSION`, which comes after all
of them. -/
abbrev Version := Option Nat

/-- The versions of a `struct cls_match`. A rule without `removeVersion` has `CLS_NOT_REMOVED_VERSION`. -/
structure Versions where
  addVersion : Nat
  removeVersion : Option Nat
deriving DecidableEq, Repr

/-- `cls_match_visible_in_version`. -/
def Versions.visibleIn (x : Versions) : Version → Bool
  | none => x.removeVersion.isNone
  | some v => decide (x.addVersion ≤ v) && x.removeVersion.all fun r => decide (v < r)

structure ClsConjunction where
  id : UInt32
  clause : UInt8
  nClauses : UInt8
deriving DecidableEq, Repr

end LinkerOvs.Cls
