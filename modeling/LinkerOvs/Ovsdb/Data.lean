/-
The data of an OVSDB database (`lib/ovsdb-data.c`, `lib/ovsdb-types.c`, `ovsdb/row.c`): atoms, data, columns, the
schema and the rows. Two data are equal when their atoms compare as equal; a real number is compared by value and
hashed by its bits, so that the two zeros are equal and have different hashes.
-/
import Mathlib
import LinkerOvs.Util.Hash

namespace LinkerOvs.Ovsdb

/-! ## Atoms -/

abbrev Uuid := BitVec 128

/-- A finite `double`: its sign bit and the 63 bits below it. -/
structure Double where
  negative : Bool
  magnitude : Nat
  finite : magnitude < 2047 * 2 ^ 52
deriving DecidableEq

/-- The numbers in their order. Both zeros are at the same place. -/
def Double.rank (x : Double) : Int := if x.negative then -(x.magnitude : Int) else x.magnitude

/-- `enum ovsdb_atomic_type`. -/
inductive AtomicType
  | void
  | integer
  | real
  | boolean
  | string
  | uuid
deriving DecidableEq

def AtomicType.toNat : AtomicType → Nat
  | .void => 0
  | .integer => 1
  | .real => 2
  | .boolean => 3
  | .string => 4
  | .uuid => 5

/-- `union ovsdb_atom`. A value of a set, which has none, is `void`. -/
inductive Atom
  | void
  | integer (i : Int)
  | real (x : Double)
  | boolean (b : Bool)
  | string (bytes : List UInt8)
  | uuid (u : Uuid)
deriving DecidableEq

/-- `atom->uuid`. -/
def Atom.toUuid : Atom → Uuid
  | .uuid u => u
  | _ => 0

def ovsdbAtomEquals : Atom → Atom → Bool
  | .real x, .real y => x.rank = y.rank
  | a, b => a = b

def hash3words (a b c : UInt32) : UInt32 := hashFinish (hashAdd (hashAdd (hashAdd a 0) b) c) 12

/-- The words that `hash_bytes` adds, the last one filled up with zeros. -/
def hashBytesLoop : UInt32 → List UInt8 → UInt32
  | hash, [] => hash
  | hash, [a] => hashAdd hash a.toUInt32
  | hash, [a, b] => hashAdd hash (a.toUInt32 ||| (b.toUInt32 <<< 8))
  | hash, [a, b, c] => hashAdd hash (a.toUInt32 ||| (b.toUInt32 <<< 8) ||| (c.toUInt32 <<< 16))
  | hash, a :: b :: c :: d :: rest =>
    hashBytesLoop (hashAdd hash (a.toUInt32 ||| (b.toUInt32 <<< 8) ||| (c.toUInt32 <<< 16) ||| (d.toUInt32 <<< 24))) rest

def hashBytes (bytes : List UInt8) (basis : UInt32) : UInt32 :=
  hashFinish (hashBytesLoop basis bytes) (UInt32.ofNat bytes.length)

def hashDouble (x : Double) (basis : UInt32) : UInt32 :=
  hash3words (UInt32.ofNat (x.magnitude % 2 ^ 32))
    (UInt32.ofNat (x.magnitude / 2 ^ 32 + if x.negative then 2 ^ 31 else 0)) basis

def hashBoolean (x : Bool) (basis : UInt32) : UInt32 :=
  (if x then 0xc2b73583 else 0xe90f1258) ^^^ hashRot basis 1

/-- The first of the four parts. -/
def uuidHash (u : Uuid) : UInt32 := ⟨u.extractLsb' 96 32⟩

/-- With `hash_atoms`'s case of a set's values. -/
def ovsdbAtomHash (basis : UInt32) : Atom → UInt32
  | .void => basis
  | .integer i => hashInt (UInt32.ofNat (i % 2 ^ 32).toNat) basis
  | .real x => hashDouble x basis
  | .boolean b => hashBoolean b basis
  | .string bytes => hashBytes bytes basis
  | .uuid u => hashInt (uuidHash u) basis

/-! ## Columns and rows -/

/-- `struct ovsdb_datum`: its keys with their values. -/
abbrev Datum := List (Atom × Atom)

/-- `enum ovsdb_ref_type`. -/
inductive RefType
  | strong
  | weak
deriving DecidableEq

variable {τ : Type}

/-- `struct ovsdb_base_type`, as far as references go: `refTable` and `refType`. -/
structure BaseType (τ : Type) where
  type : AtomicType
  ref : Option (τ × RefType)

/-- The table that a strong reference is to (`ovsdb_base_type_is_strong_ref`). -/
def BaseType.strongRef (base : BaseType τ) : Option τ :=
  match base.type, base.ref with
  | .uuid, some (table, .strong) => some table
  | _, _ => none

/-- The table that a weak reference is to (`ovsdb_base_type_is_weak_ref`). -/
def BaseType.weakRef (base : BaseType τ) : Option τ :=
  match base.type, base.ref with
  | .uuid, some (table, .weak) => some table
  | _, _ => none

/-- `struct ovsdb_column` with its `struct ovsdb_type`. -/
structure Column (τ : Type) where
  index : Nat
  key : BaseType τ
  value : BaseType τ
  nMin : Nat

/-- `OVSDB_COL_UUID`. -/
def colUuid : Nat := 0

/-- `OVSDB_COL_VERSION`. -/
def colVersion : Nat := 1

/-- What a transaction looks at of the schema. -/
structure Schema (τ : Type) where
  columns : τ → List (Column τ)
  isRoot : τ → Bool
  maxRows : τ → Nat
  indexes : τ → List (List (Column τ))

abbrev RowId (τ : Type) := τ × Uuid

/-- `struct ovsdb_row`, without the nodes that link it into lists and maps. -/
structure Row (τ : Type) where
  table : τ
  uuid : Uuid
  fields : List Datum
  nRefs : Int

def Row.id (r : Row τ) : RowId τ := (r.table, r.uuid)

/-- `row->fields[idx]`. -/
def Row.field (r : Row τ) (idx : Nat) : Datum :=
  if idx = colUuid then [(.uuid r.uuid, .void)] else r.fields.getD idx []

def ovsdbDatumEquals (a b : Datum) : Bool :=
  a.length = b.length ∧ ∀ p ∈ a.zip b, ovsdbAtomEquals p.1.1 p.2.1 ∧ ovsdbAtomEquals p.1.2 p.2.2

def ovsdbRowEqualColumns (a b : Row τ) (columns : List (Column τ)) : Bool :=
  ∀ c ∈ columns, ovsdbDatumEquals (a.field c.index) (b.field c.index)

def ovsdbDatumHash (datum : Datum) (c : Column τ) (basis : UInt32) : UInt32 :=
  let basis := (datum.map Prod.fst).foldl ovsdbAtomHash basis
  let basis := basis ^^^ UInt32.ofNat (c.key.type.toNat * 2 ^ 24 + c.value.type.toNat * 2 ^ 16 ||| datum.length)
  (datum.map Prod.snd).foldl ovsdbAtomHash basis

def ovsdbRowHashColumns (row : Row τ) (columns : List (Column τ)) (basis : UInt32) : UInt32 :=
  columns.foldl (fun basis c => ovsdbDatumHash (row.field c.index) c basis) basis

/-- The rows that atoms name, for a base type that is a reference to `ref`. -/
def targets (ref : Option τ) (atoms : List Atom) : List (RowId τ) :=
  match ref with
  | none => []
  | some table => atoms.map fun a => (table, a.toUuid)

end LinkerOvs.Ovsdb
