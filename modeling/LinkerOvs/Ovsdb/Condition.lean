/-
Conditions of database operations (`ovsdb/condition.c`): a clause is read from JSON with its argument checked against
the type of the column, which some functions relax, and evaluated on a row. A column that is neither scalar nor an
optional scalar is evaluated by its sets of elements or pairs, found by binary search; the two scalar types by their
first elements.
-/
import LinkerOvs.Json.Value
import LinkerOvs.Lib.Search
import LinkerOvs.Ovsdb.Data
import LinkerOvs.Util.ByteOrder

namespace LinkerOvs.Ovsdb

open Json (Value)

/-! ## Comparing atoms -/

def Atom.type : Atom → AtomicType
  | .void => .void
  | .integer _ => .integer
  | .real _ => .real
  | .boolean _ => .boolean
  | .string _ => .string
  | .uuid _ => .uuid

def strcmp : List UInt8 → List UInt8 → Ordering
  | [], [] => .eq
  | [], _ :: _ => .lt
  | _ :: _, [] => .gt
  | a :: as, b :: bs => if a < b then .lt else if b < a then .gt else strcmp as bs

/-- For two atoms of one type other than `void`. -/
def ovsdbAtomCompare3way : Atom → Atom → Ordering
  | .integer a, .integer b => cmp a b
  | .real a, .real b => cmp a.rank b.rank
  | .boolean a, .boolean b => cmp a.toNat b.toNat
  | .string a, .string b => strcmp a b
  | .uuid a, .uuid b => cmp a.toNat b.toNat
  | _, _ => .eq

/-! ## Types -/

/-- Without the constraints on its atoms, as `ovsdb_type_is_valid` accepts it. -/
structure OvsdbType where
  key : AtomicType
  value : AtomicType
  nMin : Nat
  nMax : Nat
  key_ne : key ≠ .void
  nMin_le : nMin ≤ 1
  le_nMax : 1 ≤ nMax

/-- `ovsdb_type_is_scalar`. -/
def OvsdbType.isScalar (t : OvsdbType) : Bool := t.value = .void ∧ t.nMin = 1 ∧ t.nMax = 1

/-- `ovsdb_type_is_optional_scalar`. -/
def OvsdbType.isOptionalScalar (t : OvsdbType) : Bool := t.value = .void ∧ t.nMin = 0 ∧ t.nMax = 1

/-- `ovsdb_type_is_map`. -/
def OvsdbType.isMap (t : OvsdbType) : Bool := t.value ≠ .void

/-! ## Data from JSON -/

inductive DatumError
  | expectedClass (isMap : Bool)
  | count (isMap : Bool) (nMin nMax n : Nat)
  | expectedPair
  | atom (message : String)
  | duplicateKey
  | duplicate
deriving DecidableEq

section FromJson

variable {δ : Type}

/-- `ovsdb_atom_from_json` with the constraints of a base type and the symbols of a transaction: it gives atoms of the
type it is asked for. -/
structure AtomReader (δ : Type) where
  read : AtomicType → Value δ → Except String Atom
  typed : ∀ t json a, read t json = .ok a → a.type = t

/-- The bytes of a text without special characters. -/
def bytes (s : String) : List UInt8 := s.toList.map fun c => UInt8.ofNat c.toNat

/-- `unwrap_json` for an array. -/
def unwrapJson (name : List UInt8) : Value δ → Option (List (Value δ))
  | .array [.string s, .array elems] => if s = name then some elems else none
  | _ => none

/-- The value is an array that starts with "set". -/
def startsSet : Value δ → Bool
  | .array (.string s :: _) => s = bytes "set"
  | _ => false

variable (R : AtomReader δ)

def atomFromJson (t : AtomicType) (json : Value δ) : Except DatumError Atom :=
  match R.read t json with
  | .ok a => .ok a
  | .error message => .error (.atom message)

/-- An element of the loop of `ovsdb_datum_from_json__`. -/
def elementFromJson (t : OvsdbType) (element : Value δ) : Except DatumError (Atom × Atom) :=
  if t.isMap then
    match element with
    | .array [key, value] => do
      let k ← atomFromJson R t.key key
      let v ← atomFromJson R t.value value
      .ok (k, v)
    | _ => .error .expectedPair
  else do
    let k ← atomFromJson R t.key element
    .ok (k, .void)

/-- `ovsdb_datum_from_json__`. -/
def datumFromJson (t : OvsdbType) (json : Value δ) : Except DatumError Datum :=
  if t.isMap || startsSet json then
    match unwrapJson (bytes (if t.isMap then "map" else "set")) json with
    | none => .error (.expectedClass t.isMap)
    | some elems =>
      if elems.length < t.nMin ∨ t.nMax < elems.length then .error (.count t.isMap t.nMin t.nMax elems.length)
      else elems.mapM (elementFromJson R t)
  else do
    let k ← atomFromJson R t.key json
    .ok [(k, .void)]

/-- Two neighbours with equal keys. -/
def hasDuplicate : Datum → Bool
  | p :: q :: d => ovsdbAtomEquals p.1 q.1 || hasDuplicate (q :: d)
  | _ => false

def ovsdbDatumSort (t : OvsdbType) (d : Datum) : Except DatumError Datum :=
  if d.length < 2 then .ok d
  else
    let sorted := d.insertionSort fun p q => ovsdbAtomCompare3way p.1 q.1 ≠ .gt
    if hasDuplicate sorted then .error (if t.isMap then .duplicateKey else .duplicate) else .ok sorted

def ovsdbDatumFromJson (t : OvsdbType) (json : Value δ) : Except DatumError Datum := do
  let d ← datumFromJson R t json
  ovsdbDatumSort t d

/-! ## Clauses -/

inductive OvsdbFunction
  | eq
  | includes
  | le
  | lt
  | ge
  | gt
  | excludes
  | ne
deriving DecidableEq

def ovsdbFunctionFromString (name : List UInt8) : Option OvsdbFunction :=
  if name = bytes "==" then some .eq
  else if name = bytes "includes" then some .includes
  else if name = bytes "<=" then some .le
  else if name = bytes "<" then some .lt
  else if name = bytes ">=" then some .ge
  else if name = bytes ">" then some .gt
  else if name = bytes "excludes" then some .excludes
  else if name = bytes "!=" then some .ne
  else none

/-- `struct ovsdb_clause`, with the index and the type of its column. -/
structure Clause where
  function : OvsdbFunction
  column : Nat
  type : OvsdbType
  arg : Datum

/-- The columns of a table by name: the index and the type. -/
structure TableSchema where
  getColumn : List UInt8 → Option (Nat × OvsdbType)

inductive ClauseError
  | parse
  | unknownColumn (name : List UInt8)
  | unknownFunction (name : List UInt8)
  | typeMismatch (function : OvsdbFunction)
  | datum (e : DatumError)

/-- The type that the argument is read with, if the function may be applied to the column. -/
def relaxType (function : OvsdbFunction) (t : OvsdbType) : Option OvsdbType :=
  match function with
  | .lt | .le | .gt | .ge =>
    if (t.isScalar || t.isOptionalScalar) && (t.key = .integer || t.key = .real) then some t else none
  | .eq | .ne => some t
  | .excludes =>
    if t.isScalar then some t
    else some { t with nMin := 0, nMax := uintMax, nMin_le := Nat.zero_le 1, le_nMax := Nat.le_of_ble_eq_true rfl }
  | .includes => if t.isScalar then some t else some { t with nMin := 0, nMin_le := Nat.zero_le 1 }

def ovsdbClauseFromJson (ts : TableSchema) : Value δ → Except ClauseError Clause
  | .array [.string columnName, .string functionName, arg] =>
    match ts.getColumn columnName with
    | none => .error (.unknownColumn columnName)
    | some (column, type) =>
      match ovsdbFunctionFromString functionName with
      | none => .error (.unknownFunction functionName)
      | some function =>
        match relaxType function type with
        | none => .error (.typeMismatch function)
        | some relaxed =>
          match ovsdbDatumFromJson R relaxed arg with
          | .error e => .error (.datum e)
          | .ok arg => .ok ⟨function, column, type, arg⟩
  | _ => .error .parse

end FromJson

/-! ## Evaluation -/

def ovsdbDatumFindKey (d : Datum) (key : Atom) : Option Nat :=
  Search.find (fun i => ovsdbAtomCompare3way key (d.getD i (.void, .void)).1) 0 d.length

/-- The pair is in `b`. The values of a set are all alike. -/
def ovsdbDatumFind (p : Atom × Atom) (b : Datum) : Option Nat :=
  match ovsdbDatumFindKey b p.1 with
  | none => none
  | some i => if ovsdbAtomEquals (b.getD i (.void, .void)).2 p.2 then some i else none

def ovsdbDatumIncludesAll (a b : Datum) : Bool :=
  if b.length < a.length then false else a.all fun p => (ovsdbDatumFind p b).isSome

def ovsdbDatumExcludesAll (a b : Datum) : Bool := a.all fun p => (ovsdbDatumFind p b).isNone

/-- What must not happen: `keys[0]` of a datum without elements, and a case that is marked as not reached. -/
inductive EvaluateFault
  | outOfBounds
  | notReached
deriving DecidableEq

/-- The result that a function makes of a comparison. -/
def OvsdbFunction.ofOrdering : OvsdbFunction → Ordering → Bool
  | .lt, o => o = .lt
  | .le, o => o ≠ .gt
  | .eq, o | .includes, o => o = .eq
  | .ne, o | .excludes, o => o ≠ .eq
  | .ge, o => o ≠ .lt
  | .gt, o => o = .gt

/-- The result for an optional scalar without a value. -/
def OvsdbFunction.ofMissing : OvsdbFunction → Bool
  | .ne | .excludes => true
  | _ => false

def ovsdbClauseEvaluate (row : Nat → Datum) (c : Clause) : Except EvaluateFault Bool :=
  let field := row c.column
  if c.type.isOptionalScalar ∧ field.length = 0 then .ok c.function.ofMissing
  else if c.type.isScalar ∨ c.type.isOptionalScalar then
    match field, c.arg with
    | x :: _, y :: _ => .ok (c.function.ofOrdering (ovsdbAtomCompare3way x.1 y.1))
    | _, _ => .error .outOfBounds
  else
    match c.function with
    | .eq => .ok (ovsdbDatumEquals field c.arg)
    | .ne => .ok (!ovsdbDatumEquals field c.arg)
    | .includes => .ok (ovsdbDatumIncludesAll c.arg field)
    | .excludes => .ok (ovsdbDatumExcludesAll c.arg field)
    | _ => .error .notReached

end LinkerOvs.Ovsdb
