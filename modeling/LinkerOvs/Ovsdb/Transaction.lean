/-
Transactions of an OVSDB database (`ovsdb/transaction.c`): the rows that a transaction has inserted, modified and
deleted, and the passes of a commit over them. An error carries the state in which it came up, since the transaction
is then aborted from there.
-/
import LinkerOvs.Lib.Keyed
import LinkerOvs.Lib.Worklist
import LinkerOvs.Ovsdb.Data

namespace LinkerOvs.Ovsdb

variable {τ : Type} [DecidableEq τ]

/-! ## The database and its transaction -/

/-- `struct ovsdb_txn_row`. -/
structure TxnRow (τ : Type) where
  id : RowId τ
  old : Option (Row τ)
  new : Option (Row τ)
  nRefs : Int
  changed : List Nat

/-- The database with the transaction that is under way. The hash maps and lists of the source are lists here.

`table->rows` are the rows in `rows` together with the new rows of the transaction: a row that is part of the
transaction is in its `TxnRow` until that is committed or aborted. A node of an index is its hash and the row that it
is in, which is the row of the database in `indexes` and the new row in `txnIndexes`. A weak reference is its source
and its destination, which are rows of the database in `weakRefs` and new rows in `txnWeakRefs`. -/
structure Db (τ : Type) where
  rows : List (Row τ)
  indexes : τ → Nat → List (UInt32 × RowId τ)
  weakRefs : List (RowId τ × RowId τ)
  txnRows : List (TxnRow τ)
  txnIndexes : τ → Nat → List (UInt32 × RowId τ)
  txnWeakRefs : List (RowId τ × RowId τ)

def Db.empty : Db τ := ⟨[], fun _ _ => [], [], [], fun _ _ => [], []⟩

/-- The errors that `OVSDB_BUG` and `OVSDB_WRAP_BUG` make. -/
inductive Bug
  | errorDecreasingRefcount
  | strongRefTargetMissing
  | strongRefTargetHasZeroNRefs
  | deletedStrongRefTarget
  | cantHappen
deriving DecidableEq

inductive Err (τ : Type)
  /-- Table, column and row reference a row that does not exist. -/
  | referencesNonexistentRow (row : RowId τ) (column : Nat) (target : RowId τ)
  | cannotDelete (row : RowId τ) (nRefs : Int)
  | maxRows (table : τ) (nRows maxRows : Nat)
  /-- A column without its weak references is too small; `zero` for the default of an inserted row. -/
  | weakReferenceColumn (row : RowId τ) (column : Nat) (deleted : Nat) (zero : Bool)
  | identicalValues (index : Nat) (a b : RowId τ)
  | replica (code : Nat)
  | bug (what : Bug)
  /-- A failed assertion, or a pointer to a row that is not there. -/
  | assertion
  /-- More turns of a loop than there are rows. -/
  | turns

/-- A computation of the transaction: an error comes with the state it came up in. -/
abbrev Outcome (τ : Type) := Except (Err τ × Db τ)

/-- `OVSDB_WRAP_BUG`. -/
def wrapBug (what : Bug) : Outcome τ (Db τ) → Outcome τ (Db τ)
  | .ok db => .ok db
  | .error (_, db) => .error (.bug what, db)

namespace Db

variable (db : Db τ) (id : RowId τ)

def findTxnRow : Option (TxnRow τ) := Keyed.find TxnRow.id id db.txnRows

/-- `ovsdb_table_get_row`. -/
def getRow : Option (Row τ) :=
  match db.findTxnRow id with
  | some t => t.new
  | none => Keyed.find Row.id id db.rows

def setTxnRow (t : TxnRow τ) : Db τ := { db with txnRows := Keyed.set TxnRow.id t db.txnRows }

/-- `table->rows`, for all tables. -/
def current : List (Row τ) := db.rows ++ db.txnRows.filterMap TxnRow.new

/-- The row that a node of `indexes` is in. -/
def indexRow : Option (Row τ) :=
  match db.findTxnRow id with
  | some t => t.old
  | none => Keyed.find Row.id id db.rows

/-- The row that a node of `txnIndexes` is in. -/
def newRow : Option (Row τ) := (db.findTxnRow id).bind TxnRow.new

/-- The weak references that `ovsdb_row_destroy` takes out for a new row. -/
def destroyNew : Db τ :=
  { db with txnWeakRefs := db.txnWeakRefs.filter fun w => w.1 ≠ id ∧ w.2 ≠ id }

/-- The weak references that `ovsdb_row_destroy` takes out for a row of the database. -/
def destroyOld : Db τ :=
  { db with weakRefs := db.weakRefs.filter fun w => w.1 ≠ id ∧ w.2 ≠ id }

def setIndex (table : τ) (i : Nat) (nodes : List (UInt32 × RowId τ)) : Db τ :=
  { db with indexes := fun t j => if t = table ∧ j = i then nodes else db.indexes t j }

def setTxnIndex (table : τ) (i : Nat) (nodes : List (UInt32 × RowId τ)) : Db τ :=
  { db with txnIndexes := fun t j => if t = table ∧ j = i then nodes else db.txnIndexes t j }

end Db

/-! ## The operations of a transaction -/

/-- `ovsdb_txn_row_modify`, before the caller changes the row. -/
def ovsdbTxnRowModify (db : Db τ) (row : Row τ) : Db τ :=
  match db.findTxnRow row.id with
  | some _ => db
  | none =>
    { db with
      rows := Keyed.erase Row.id row.id db.rows
      txnRows := db.txnRows ++ [⟨row.id, some row, some row, row.nRefs, []⟩] }

/-- The changes of the caller: the row's columns, but not its UUID. -/
def setFields (db : Db τ) (id : RowId τ) (fields : List Datum) : Db τ :=
  match db.findTxnRow id with
  | some t => db.setTxnRow { t with new := t.new.map fun row => { row with fields := fields } }
  | none => db

def ovsdbTxnRowInsert (db : Db τ) (row : Row τ) : Db τ :=
  { db with txnRows := db.txnRows ++ [⟨row.id, none, some row, 0, []⟩] }

def ovsdbTxnRowDelete (db : Db τ) (row : Row τ) : Db τ :=
  match db.findTxnRow row.id with
  | none =>
    { db with
      rows := Keyed.erase Row.id row.id db.rows
      txnRows := db.txnRows ++ [⟨row.id, some row, none, row.nRefs, []⟩] }
  | some t =>
    let db := if t.old.isSome then db.setTxnRow { t with new := none }
      else { db with txnRows := Keyed.erase TxnRow.id t.id db.txnRows }
    db.destroyNew row.id

/-! ## The loop over the rows of a transaction -/

inductive Pass
  | determineChanges
  | updateRowRefCount
  | checkRefCount
  | collectGarbage
  | assessWeakRefs
  | checkIndexUniqueness
  | updateVersion
  | commit
  | abort

/-- What a commit depends on besides the database: the order in which the hash maps give the rows, the new versions
and what the replicas say. -/
structure Env (τ : Type) where
  pick : Pass → List (RowId τ) → Nat
  version : RowId τ → Uuid
  replica : Option Nat

/-- Every row of the transaction once, also those that a callback adds. -/
def forEachTxnRow (env : Env τ) (pass : Pass) (cb : RowId τ → Db τ → Outcome τ (Db τ)) (db : Db τ) : Outcome τ (Db τ) :=
  Worklist.forEach (fun db => db.txnRows.map TxnRow.id) (env.pick pass) cb (fun db => (.turns, db))
    (db.rows.length + db.txnRows.length) [] db

/-! ## What has changed -/

variable (S : Schema τ) (env : Env τ) (id : RowId τ) (db : Db τ)

def ovsdbTxnRowAbort : Outcome τ (Db τ) :=
  match db.findTxnRow id with
  | none => .error (.assertion, db)
  | some t =>
    let db := { db with txnRows := Keyed.erase TxnRow.id id db.txnRows, rows := db.rows ++ t.old.toList }
    .ok (if t.new.isSome then db.destroyNew id else db)

def determineChanges : Outcome τ (Db τ) :=
  match db.findTxnRow id with
  | none => .error (.assertion, db)
  | some t =>
    let columns := (S.columns id.1).map Column.index
    match t.old, t.new with
    | some old, some new =>
      let changed := columns.filter fun idx => !ovsdbDatumEquals (old.field idx) (new.field idx)
      if changed = [] then ovsdbTxnRowAbort id db else .ok (db.setTxnRow { t with changed := changed })
    | _, _ => .ok (db.setTxnRow { t with changed := columns })

/-! ## Reference counts -/

/-- The database with that row in the transaction. -/
def findOrMakeTxnRow (id : RowId τ) : Option (Db τ) :=
  match db.findTxnRow id with
  | some _ => some db
  | none => (Keyed.find Row.id id db.rows).map (ovsdbTxnRowModify db)

/-- `txn_row->n_refs += delta`. -/
def addRefs (id : RowId τ) (delta : Int) : Db τ :=
  match db.findTxnRow id with
  | some t => db.setTxnRow { t with nRefs := t.nRefs + delta }
  | none => db

/-- One turn of `ovsdb_txn_adjust_atom_refs`. -/
def adjustAtomRef (r : Row τ) (column : Nat) (delta : Int) (db : Db τ) (target : RowId τ) : Outcome τ (Db τ) :=
  if target.2 = r.uuid then .ok db
  else
    match findOrMakeTxnRow db target with
    | none => .error (.referencesNonexistentRow r.id column target, db)
    | some db => .ok (addRefs db target delta)

def ovsdbTxnAdjustAtomRefs (r : Row τ) (column : Nat) (base : BaseType τ) (atoms : List Atom) (delta : Int)
    (db : Db τ) : Outcome τ (Db τ) :=
  (targets base.strongRef atoms).foldlM (adjustAtomRef r column delta) db

def ovsdbTxnAdjustRowRefs (r : Row τ) (c : Column τ) (delta : Int) (db : Db τ) : Outcome τ (Db τ) := do
  let field := r.field c.index
  let db ← ovsdbTxnAdjustAtomRefs r c.index c.key (field.map Prod.fst) delta db
  ovsdbTxnAdjustAtomRefs r c.index c.value (field.map Prod.snd) delta db

/-- One turn of `update_row_ref_count`. -/
def updateColumnRefCount (old new : Option (Row τ)) (db : Db τ) (c : Column τ) : Outcome τ (Db τ) := do
  let db ← match old with
    | some old => wrapBug .errorDecreasingRefcount (ovsdbTxnAdjustRowRefs old c (-1) db)
    | none => .ok db
  match new with
  | some new => ovsdbTxnAdjustRowRefs new c 1 db
  | none => .ok db

def updateRowRefCount : Outcome τ (Db τ) :=
  match db.findTxnRow id with
  | none => .error (.assertion, db)
  | some t => (S.columns id.1).foldlM (updateColumnRefCount t.old t.new) db

def checkRefCount : Outcome τ (Db τ) :=
  match db.findTxnRow id with
  | none => .error (.assertion, db)
  | some t => if t.new.isSome ∨ t.nRefs = 0 then .ok db else .error (.cannotDelete id t.nRefs, db)

/-! ## Garbage collection -/

/-- One turn of `delete_row_refs`; `collect` is `delete_garbage_row`. -/
def deleteRowRef (collect : RowId τ → Db τ → Outcome τ (Db τ)) (row : Row τ) (db : Db τ) (target : RowId τ) : Outcome τ (Db τ) :=
  if target.2 = row.uuid then .ok db
  else
    match findOrMakeTxnRow db target with
    | none => .error (.bug .strongRefTargetMissing, db)
    | some db =>
      match db.findTxnRow target with
      | none => .error (.assertion, db)
      | some t =>
        if t.nRefs = 0 then .error (.bug .strongRefTargetHasZeroNRefs, db)
        else if t.new.isNone then .error (.bug .deletedStrongRefTarget, db)
        else
          let db := addRefs db target (-1)
          if t.nRefs - 1 = 0 then collect target db else .ok db

def deleteRowRefs (collect : RowId τ → Db τ → Outcome τ (Db τ)) (row : Row τ) (base : BaseType τ) (atoms : List Atom)
    (db : Db τ) : Outcome τ (Db τ) :=
  (targets base.strongRef atoms).foldlM (deleteRowRef collect row) db

/-- One turn of `delete_garbage_row`. -/
def deleteColumnRefs (collect : RowId τ → Db τ → Outcome τ (Db τ)) (row : Row τ) (db : Db τ) (c : Column τ) : Outcome τ (Db τ) := do
  let field := row.field c.index
  let db ← deleteRowRefs collect row c.key (field.map Prod.fst) db
  deleteRowRefs collect row c.value (field.map Prod.snd) db

/-- In calls nested no deeper than so many. -/
def deleteGarbageRow (S : Schema τ) : Nat → RowId τ → Db τ → Outcome τ (Db τ)
  | 0, _, db => .error (.turns, db)
  | depth + 1, id, db =>
    if S.isRoot id.1 then .ok db
    else
      match db.findTxnRow id with
      | none => .error (.assertion, db)
      | some t =>
        match t.new with
        | none => .error (.assertion, db)
        | some row => do
          let db := db.setTxnRow { t with new := none }
          let db ← (S.columns id.1).foldlM (deleteColumnRefs (deleteGarbageRow S depth) row) db
          .ok (db.destroyNew id)

def collectGarbage : Outcome τ (Db τ) :=
  match db.findTxnRow id with
  | none => .error (.assertion, db)
  | some t =>
    if t.new.isSome ∧ t.nRefs = 0 then deleteGarbageRow S (db.rows.length + db.txnRows.length + 1) id db else .ok db

/-! ## The number of rows -/

/-- `hmap_count(&table->rows)`. -/
def countRows (table : τ) : Nat := (db.current.filter fun r => r.table = table).length

def checkMaxRows : Outcome τ (Db τ) :=
  match db.txnRows.find? fun t => S.maxRows t.id.1 < countRows db t.id.1 with
  | some t => .error (.maxRows t.id.1 (countRows db t.id.1) (S.maxRows t.id.1), db)
  | none => .ok db

/-! ## Weak references -/

/-- `add_weak_ref` from the new row `src` to the row `dst`. -/
def addWeakRef (src : RowId τ) (dst : Row τ) : Db τ :=
  if src = dst.id then db
  else
    let db := ovsdbTxnRowModify db dst
    -- omit duplicates
    if ((db.txnWeakRefs.filter fun w => w.2 = dst.id).getLast?).map Prod.fst = some src then db
    else { db with txnWeakRefs := db.txnWeakRefs ++ [(src, dst.id)] }

/-- The rows that have weak references to a row of the database are modified, so that they are reassessed. -/
def markSource (src : RowId τ) : Outcome τ (Db τ) :=
  match db.findTxnRow src with
  | some _ => .ok db
  | none =>
    match Keyed.find Row.id src db.rows with
    | some row => .ok (ovsdbTxnRowModify db row)
    | none => .error (.assertion, db)

/-- The loop over the keys or the values of a datum, which `atom` tells, and whether the zero UUID was taken out. The
pairs that stay are sorted afterwards, so that they are in the order they had. -/
def pruneWeakRefs (src : RowId τ) (table : τ) (atom : Atom × Atom → Atom) : Datum → Db τ → Datum × Bool × Db τ
  | [], db => ([], false, db)
  | p :: datum, db =>
    match db.getRow (table, (atom p).toUuid) with
    | some row =>
      let (datum, zero, db) := pruneWeakRefs src table atom datum (addWeakRef db src row)
      (p :: datum, zero, db)
    | none =>
      let (datum, zero, db) := pruneWeakRefs src table atom datum db
      (datum, zero || (atom p).toUuid = 0, db)

/-- The keys or the values of a datum, if they are weak references. -/
def pruneBase (src : RowId τ) (base : BaseType τ) (atom : Atom × Atom → Atom) (datum : Datum) (db : Db τ) :
    Datum × Bool × Db τ :=
  match base.weakRef with
  | some table => pruneWeakRefs src table atom datum db
  | none => (datum, false, db)

/-- One turn of `assess_weak_refs`. -/
def assessColumn (c : Column τ) : Outcome τ (Db τ) :=
  match db.newRow id with
  | none => .error (.assertion, db)
  | some row =>
    let datum := row.field c.index
    let (keys, keyZero, db) := pruneBase id c.key Prod.fst datum db
    let (values, valueZero, db) := pruneBase id c.value Prod.snd keys db
    if values.length = datum.length then .ok db
    else
      match db.findTxnRow id with
      | none => .error (.assertion, db)
      | some t =>
        let db := db.setTxnRow { t with
          new := some { row with fields := row.fields.set c.index values }
          changed := c.index :: t.changed }
        if values.length < c.nMin then
          .error (.weakReferenceColumn id c.index (datum.length - values.length) ((keyZero || valueZero) && t.old.isNone), db)
        else .ok db

def assessWeakRefs : Outcome τ (Db τ) :=
  match db.findTxnRow id with
  | none => .error (.assertion, db)
  | some t => do
    let db ← if t.old.isSome then ((db.weakRefs.filter fun w => w.2 = id).map Prod.fst).foldlM markSource db else .ok db
    if t.new.isNone then .ok db else (S.columns id.1).foldlM (assessColumn id) db

/-! ## Indexes -/

def ovsdbIndexSearch (nodes : List (UInt32 × RowId τ)) (rowOf : RowId τ → Option (Row τ)) (row : Row τ)
    (columns : List (Column τ)) (hash : UInt32) : Option (RowId τ) :=
  (nodes.find? fun node => node.1 = hash ∧ (rowOf node.2).any fun irow => ovsdbRowEqualColumns row irow columns).map
    Prod.snd

/-- One turn of `check_index_uniqueness`. -/
def checkIndex (row : Row τ) (db : Db τ) (index : List (Column τ) × Nat) : Outcome τ (Db τ) :=
  let hash := ovsdbRowHashColumns row index.1 0
  match ovsdbIndexSearch (db.txnIndexes id.1 index.2) db.newRow row index.1 hash with
  | some irow => .error (.identicalValues index.2 irow id, db)
  | none =>
    match (ovsdbIndexSearch (db.indexes id.1 index.2) db.indexRow row index.1 hash).filter
        fun irow => (db.findTxnRow irow).isNone with
    | some irow => .error (.identicalValues index.2 irow id, db)
    | none => .ok (db.setTxnIndex id.1 index.2 ((hash, id) :: db.txnIndexes id.1 index.2))

def checkIndexUniqueness : Outcome τ (Db τ) :=
  match db.newRow id with
  | none => .ok db
  | some row => (S.indexes id.1).zipIdx.foldlM (checkIndex id row) db

/-! ## The end of a transaction -/

def updateVersion : Outcome τ (Db τ) :=
  match db.findTxnRow id with
  | none => .error (.assertion, db)
  | some t =>
    match t.old, t.new with
    | some _, some new =>
      if t.changed = [] then .ok db
      else .ok (db.setTxnRow { t with
        new := some { new with fields := new.fields.set colVersion [(.uuid (env.version id), .void)] }
        changed := colVersion :: t.changed })
    | _, _ => .ok db

/-- `node->hash` for the node of a new row. -/
def nodeHash (id : RowId τ) (i : Nat) : Option UInt32 :=
  ((db.txnIndexes id.1 i).find? fun node => node.2 = id).map Prod.fst

/-- The node of the old row out of an index. -/
def removeNode (i : Nat) : Db τ :=
  db.setIndex id.1 i ((db.indexes id.1 i).filter fun node => node.2 ≠ id)

/-- The node of the new row into an index. -/
def insertNode (i : Nat) : Outcome τ (Db τ) :=
  match nodeHash db id i with
  | some hash => .ok (db.setIndex id.1 i ((hash, id) :: db.indexes id.1 i))
  | none => .error (.assertion, db)

def ovsdbTxnRowCommit : Outcome τ (Db τ) :=
  match db.findTxnRow id with
  | none => .error (.assertion, db)
  | some t => do
    let nIndexes := (S.indexes id.1).length
    let db := if t.old.isSome then (List.range nIndexes).foldl (removeNode id) db else db
    let db ← if t.new.isSome then (List.range nIndexes).foldlM (insertNode id) db else .ok db
    let rows := (t.new.map fun row => { row with nRefs := t.nRefs }).toList
    let db := { db with txnRows := Keyed.erase TxnRow.id id db.txnRows, rows := db.rows ++ rows }
    .ok (if t.old.isSome then db.destroyOld id else db)

/-- The end of the transaction: the tables have no rows in it any more, and the new rows are rows of the database. -/
def ovsdbTxnFree : Db τ :=
  { db with weakRefs := db.weakRefs ++ db.txnWeakRefs, txnWeakRefs := [], txnIndexes := fun _ _ => [] }

def ovsdbTxnAbort : Outcome τ (Db τ) := do
  let db ← forEachTxnRow env .abort ovsdbTxnRowAbort db
  .ok (ovsdbTxnFree db)

/-- What every error of a commit leads to. -/
def abortWith (e : Err τ) (db : Db τ) : Db τ × Option (Err τ) :=
  match ovsdbTxnAbort env db with
  | .ok db => (db, some e)
  | .error (_, db) => (db, some .assertion)

/-- The passes that count the references and delete the rows that nothing refers to. -/
def countAndCollect : Outcome τ (Db τ) := do
  let db ← forEachTxnRow env .updateRowRefCount (updateRowRefCount S) db
  let db ← forEachTxnRow env .checkRefCount checkRefCount db
  wrapBug .cantHappen (forEachTxnRow env .collectGarbage (collectGarbage S) db)

/-- The passes before the indexes are checked. -/
def settleRows : Outcome τ (Db τ) := do
  let db ← countAndCollect S env db
  let db ← checkMaxRows S db
  forEachTxnRow env .assessWeakRefs (assessWeakRefs S) db

def checkRows : Outcome τ (Db τ) := do
  let db ← settleRows S env db
  forEachTxnRow env .checkIndexUniqueness (checkIndexUniqueness S) db

/-- The end of a commit that every check has passed. -/
def finalizeCommit : Outcome τ (Db τ) := do
  let db ← forEachTxnRow env .commit (ovsdbTxnRowCommit S) db
  .ok (ovsdbTxnFree db)

def ovsdbTxnCommit : Db τ × Option (Err τ) :=
  match forEachTxnRow env .determineChanges (determineChanges S) db with
  | .error (_, db) => (db, some (.bug .cantHappen))
  | .ok db =>
    if db.txnRows.isEmpty then
      match ovsdbTxnAbort env db with
      | .ok db => (db, none)
      | .error (_, db) => (db, some .assertion)
    else
      match checkRows S env db with
      | .error (e, db) => abortWith env e db
      | .ok db =>
        match forEachTxnRow env .updateVersion (updateVersion env) db with
        | .error (_, db) => (db, some (.bug .cantHappen))
        | .ok db =>
          match env.replica with
          | some code => abortWith env (.replica code) db
          | none =>
            match finalizeCommit S env db with
            | .ok db => (db, none)
            | .error (_, db) => (db, some .assertion)

end LinkerOvs.Ovsdb
