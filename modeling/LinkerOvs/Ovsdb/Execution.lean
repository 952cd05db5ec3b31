/-
Executing a "transact" request (`ovsdb/execution.c`): its operations change rows of a transaction, which is committed
after the last of them and aborted when one fails. A request that fails leaves the database as it was.
-/
import LinkerOvs.Ovsdb.TxnEnd

namespace LinkerOvs.Ovsdb

open Db List

variable {τ ε : Type} [DecidableEq τ]

/-! ## The operations -/

/-- The operations as they are parsed: a condition is the function that evaluates it, and mutations may fail halfway,
with the columns as they are then. -/
inductive Operation (τ ε : Type)
  | insert (row : Row τ)
  | update (table : τ) (condition : Row τ → Bool) (row : Row τ) (columns : List (Column τ))
  | mutate (table : τ) (condition : Row τ → Bool) (mutations : Row τ → Except (ε × List Datum) (List Datum))
  | delete (table : τ) (condition : Row τ → Bool)
  /-- `select`, `wait`, `commit`, `abort`, `comment`, `assert`, and what is refused before it does anything. -/
  | read (error : Db τ → Option ε)

/-- What an executor does. An error comes with the state it came up in. -/
abbrev Execution (τ ε : Type) := Except (ε × Db τ)

/-- `ovsdb_query` over the rows with these ids. -/
def ovsdbQuery (ids : List (RowId τ)) (condition : Row τ → Bool) (outputRow : Row τ → Db τ → Execution τ ε (Db τ)) (db : Db τ) :
    Execution τ ε (Db τ) :=
  ids.foldlM (fun db id =>
    match db.getRow id with
    | some row => if condition row then outputRow row db else .ok db
    | none => .ok db) db

def updateRowCb (source : Row τ) (columns : List (Column τ)) (row : Row τ) (db : Db τ) : Execution τ ε (Db τ) :=
  if ovsdbRowEqualColumns row source columns then .ok db
  else .ok (setFields (ovsdbTxnRowModify db row) row.id
    (columns.foldl (fun fields c => fields.set c.index (source.field c.index)) row.fields))

def mutateRowCb (mutations : Row τ → Except (ε × List Datum) (List Datum)) (row : Row τ) (db : Db τ) : Execution τ ε (Db τ) :=
  match mutations row with
  | .ok fields => .ok (setFields (ovsdbTxnRowModify db row) row.id fields)
  | .error (e, fields) => .error (e, setFields (ovsdbTxnRowModify db row) row.id fields)

def deleteRowCb (row : Row τ) (db : Db τ) : Execution τ ε (Db τ) := .ok (ovsdbTxnRowDelete db row)

/-- The rows of a table, in the order in which `order` has the hash map give them. -/
def tableIds (order : List (RowId τ) → List (RowId τ)) (db : Db τ) (table : τ) : List (RowId τ) :=
  order ((db.current.filter fun r => r.table = table).map Row.id)

/-- The executor of an operation. `uuid_generate` gives a UUID that no row has, so that there is no outcome for others. -/
def Operation.execute (order : List (RowId τ) → List (RowId τ)) (db : Db τ) : Operation τ ε → Option (Execution τ ε (Db τ))
  | .insert row => if row.id ∈ db.ids then none else some (.ok (ovsdbTxnRowInsert db row))
  | .update table condition row columns =>
    some (ovsdbQuery (tableIds order db table) condition (updateRowCb row columns) db)
  | .mutate table condition mutations => some (ovsdbQuery (tableIds order db table) condition (mutateRowCb mutations) db)
  | .delete table condition => some (ovsdbQuery (tableIds order db table) condition deleteRowCb db)
  | .read error =>
    match error db with
    | some e => some (.error (e, db))
    | none => some (.ok db)

/-- The loop of `ovsdb_execute`. An error of `ovsdb_parser_finish`, after the executor, overrides its own. -/
def executeOperations (order : List (RowId τ) → List (RowId τ)) : List (Operation τ ε × Option ε) → Db τ →
    Option (Execution τ ε (Db τ))
  | [], db => some (.ok db)
  | (operation, parseError) :: operations, db => do
    match ← operation.execute order db, parseError with
    | .error (_, db), some e => some (.error (e, db))
    | .error (e, db), none => some (.error (e, db))
    | .ok db, some e => some (.error (e, db))
    | .ok db, none => executeOperations order operations db

/-- The database after it and the error of an operation or of the commit. -/
def ovsdbExecute (S : Schema τ) (env : Env τ) (order : List (RowId τ) → List (RowId τ))
    (operations : List (Operation τ ε × Option ε)) (db : Db τ) : Option (Db τ × Option (ε ⊕ Err τ)) := do
  match ← executeOperations order operations db with
  | .ok db =>
    let (db, error) := ovsdbTxnCommit S env db
    some (db, error.map .inr)
  | .error (e, db) =>
    match ovsdbTxnAbort env db with
    | .ok db => some (db, some (.inl e))
    | .error (_, db) => some (db, some (.inr .assertion))

/-! ## What they leave -/

variable {S : Schema τ} {env : Env τ} {order : List (RowId τ) → List (RowId τ)} {db db' : Db τ} {x : RowId τ} {row : Row τ}
  {condition : Row τ → Bool}

/-- A transaction on the same database, before its commit. -/
def Operates (db db' : Db τ) : Prop := Above db db' ∧ db'.Uncommitted

theorem Operates.trans (a b c : Db τ) (h : Operates a b) (h' : Operates b c) : Operates a c := ⟨h.1.trans h'.1, h'.2⟩

theorem Db.Onward.operates (h : Onward db db') (hdb : db.Uncommitted) (hindexes : db'.txnIndexes = db.txnIndexes)
    (hweak : db'.txnWeakRefs = db.txnWeakRefs) : Operates db db' :=
  ⟨h.above, h.wf, hindexes.trans hdb.txnIndexes, hweak.trans hdb.txnWeakRefs⟩

section

variable (hdb : db.Uncommitted)
include hdb

theorem Db.Uncommitted.operates : Operates db db := ⟨.refl hdb.wf, hdb⟩

theorem setFields_operates (fields : List Datum) : Operates db (setFields db x fields) := by
  rw [setFields]
  split
  · next t ht =>
    have hid := findTxnRow_self ht
    refine Onward.operates (onward_setTxnRow hid hdb.wf rfl ?_ (.inr ?_)) hdb rfl rfl
    · intro r hr
      obtain ⟨r₀, hr₀, rfl⟩ := Option.map_eq_some_iff.1 hr
      exact hdb.wf.new_id t (findTxnRow_id ht).1 r₀ hr₀
    · rw [hdb.txnWeakRefs]
      exact fun w hw => absurd hw not_mem_nil
  · exact hdb.operates

theorem modify_operates (hrow : db.getRow row.id = some row) (fields : List Datum) :
    Operates db (setFields (ovsdbTxnRowModify db row) row.id fields) := by
  have hpulls := pulls_modify hdb.wf hrow
  have hmodify := hpulls.toOnward.operates hdb hpulls.txnIndexes hpulls.txnWeakRefs
  exact hmodify.trans _ _ _ (setFields_operates hmodify.2 fields)

theorem insert_operates (hfresh : row.id ∉ db.ids) : Operates db (ovsdbTxnRowInsert db row) := by
  rw [mem_ids, not_or, not_inTxn_iff, Option.not_isSome_iff_eq_none] at hfresh
  have hfind : ∀ y, (ovsdbTxnRowInsert db row).findTxnRow y =
      if row.id = y then some ⟨row.id, none, some row, 0, []⟩ else db.findTxnRow y := by
    intro y
    rw [findTxnRow, ovsdbTxnRowInsert, Keyed.find_append, Keyed.find_cons, ← findTxnRow]
    split
    · next hy => rw [← hy, hfresh.2, Option.none_or]
    · exact Option.or_none
  have hmem : ∀ t ∈ (ovsdbTxnRowInsert db row).txnRows, t ∈ db.txnRows ∨ t = ⟨row.id, none, some row, 0, []⟩ := by
    simp [ovsdbTxnRowInsert]
  have hids : (ovsdbTxnRowInsert db row).ids = db.ids ++ [row.id] := by
    simp [ids, ovsdbTxnRowInsert]
  have hwf : (ovsdbTxnRowInsert db row).WellFormed := by
    refine ⟨?_, fun t ht r hr => ?_, fun t ht r hr => ?_, fun w hw => ?_⟩
    · rw [hids, nodup_append_comm, singleton_append, nodup_cons, mem_ids, not_or, not_inTxn_iff,
        Option.not_isSome_iff_eq_none]
      exact ⟨hfresh, hdb.wf.nodup⟩
    · rcases hmem t ht with ht | rfl
      · exact hdb.wf.old_id t ht r hr
      · cases hr
    · rcases hmem t ht with ht | rfl
      · exact hdb.wf.new_id t ht r hr
      · cases hr
        rfl
    · change w ∈ db.txnWeakRefs at hw
      rw [hdb.txnWeakRefs] at hw
      cases hw
  refine ⟨⟨hwf, fun y => ?_, rfl, rfl⟩, hwf, hdb.txnIndexes, hdb.txnWeakRefs⟩
  rw [indexRow, hfind, indexRow]
  by_cases hy : row.id = y
  · simp_all
  · rw [if_neg hy]
    rfl

theorem delete_operates (hrow : db.getRow row.id = some row) :
    Operates db (ovsdbTxnRowDelete db row) := by
  have hnone : ∀ x : RowId τ, ∀ w ∈ db.txnWeakRefs, w.1 ≠ x := by
    rw [hdb.txnWeakRefs]
    exact fun x w hw => absurd hw not_mem_nil
  rw [ovsdbTxnRowDelete]
  cases ht : db.findTxnRow row.id with
  | none =>
    -- the row is modified, and then it is taken out
    have hpulls := pulls_modify hdb.wf hrow
    have hfind := (findTxnRow_modify (x := row.id) ht).trans (if_pos rfl)
    have hdelete : ({ db with
        rows := Keyed.erase Row.id row.id db.rows
        txnRows := db.txnRows ++ [⟨row.id, some row, none, row.nRefs, []⟩] } : Db τ) =
        (ovsdbTxnRowModify db row).setTxnRow ⟨row.id, some row, none, row.nRefs, []⟩ := by
      have hothers := Keyed.set_eq_self (a := (⟨row.id, some row, none, row.nRefs, []⟩ : TxnRow τ)) (Keyed.find_none ht)
      rw [Keyed.set] at hothers
      rw [ovsdbTxnRowModify, ht, setTxnRow, Keyed.set, map_append, hothers, map_singleton, if_pos rfl]
    rw [hdelete]
    refine Onward.operates (hpulls.toOnward.trans (onward_setTxnRow hfind hpulls.wf rfl (by simp) (.inr ?_))) hdb
      hpulls.txnIndexes hpulls.txnWeakRefs
    rw [hpulls.txnWeakRefs]
    exact hnone row.id
  | some t =>
    have hid := findTxnRow_self ht
    dsimp only
    rw [destroyNew_eq_self (by split <;> exact hdb.txnWeakRefs)]
    split
    · exact Onward.operates (onward_setTxnRow hid hdb.wf rfl (by simp) (.inr (hnone t.id))) hdb rfl rfl
    · next hold =>
      have habove := above_without hdb.wf hid (List.Subset.refl _) (hnone t.id)
      rw [withoutTxnRow, Option.not_isSome_iff_eq_none.1 hold, Option.toList_none, append_nil] at habove
      exact ⟨habove, habove.wf, hdb.txnIndexes, hdb.txnWeakRefs⟩

theorem ovsdbQuery_operates {ids : List (RowId τ)} {outputRow : Row τ → Db τ → Execution τ ε (Db τ)}
    (hout : ∀ db row, db.Uncommitted → db.getRow row.id = some row →
      Except.Within Operates (fun _ => True) db (outputRow row db)) :
    Except.Within Operates (fun _ => True) db (ovsdbQuery ids condition outputRow db) := by
  refine .foldlM Operates.trans (fun db' x _ h => ?_) hdb.operates
  split
  · next row hrow =>
    split
    · exact hout db' row h.2 (by rw [h.2.wf.getRow_id hrow, hrow])
    · exact .ok h.2.operates
  · exact .ok h.2.operates

theorem execute_operates {operation : Operation τ ε} {outcome : Execution τ ε (Db τ)}
    (h : operation.execute order db = some outcome) : Except.Within Operates (fun _ => True) db outcome := by
  cases operation with
  | insert row =>
    rw [Operation.execute] at h
    split at h
    · cases h
    · next hfresh =>
      cases h
      exact .ok (insert_operates hdb hfresh)
  | update table condition row columns =>
    cases h
    refine ovsdbQuery_operates hdb fun db row hdb hrow => ?_
    rw [updateRowCb]
    split
    · exact .ok hdb.operates
    · exact .ok (modify_operates hdb hrow _)
  | mutate table condition mutations =>
    cases h
    refine ovsdbQuery_operates hdb fun db row hdb hrow => ?_
    rw [mutateRowCb]
    split
    · exact .ok (modify_operates hdb hrow _)
    · exact .error (modify_operates hdb hrow _) trivial
  | delete table condition =>
    cases h
    exact ovsdbQuery_operates hdb fun db row hdb hrow => .ok (delete_operates hdb hrow)
  | read error =>
    rw [Operation.execute] at h
    split at h
    · cases h
      exact .error hdb.operates trivial
    · cases h
      exact .ok hdb.operates

end

theorem executeOperations_operates : ∀ (operations : List (Operation τ ε × Option ε)) (db : Db τ)
    {outcome : Execution τ ε (Db τ)}, db.Uncommitted → executeOperations order operations db = some outcome →
    Except.Within Operates (fun _ => True) db outcome
  | [], db, _, hdb, h => by
    cases h
    exact .ok hdb.operates
  | (operation, parseError) :: operations, db, _, hdb, h => by
    rw [executeOperations, Option.bind_eq_bind, Option.bind_eq_some_iff] at h
    obtain ⟨outcome, hexecute, h⟩ := h
    have hstep := execute_operates hdb hexecute
    cases outcome with
    | error e =>
      cases parseError <;> cases h <;> exact hstep
    | ok db₁ =>
      cases parseError with
      | some e =>
        cases h
        exact .error hstep trivial
      | none => exact .after Operates.trans hstep (executeOperations_operates operations db₁ hstep.2 h)

/-! ## Requests that fail -/

/-- The tables hold the same rows, with the same columns and counts; their indexes and weak references are the same. -/
structure Unchanged (db db' : Db τ) : Prop where
  quiet : db'.Quiet
  rows : db'.rows.Perm db.rows
  indexes : db'.indexes = db.indexes
  weakRefs : db'.weakRefs = db.weakRefs

theorem Restores.unchanged (h : Restores db db') (hdb : db.Quiet) : Unchanged db db' := by
  refine ⟨h.quiet, Keyed.perm_of_find h.wf.rows_nodup hdb.wf.rows_nodup fun x => ?_, h.indexes, h.weakRefs⟩
  rw [← h.quiet.indexRow, ← hdb.indexRow]
  exact h.indexRow x

/-- A request that fails, in any operation or in any pass of its commit, has no effect. -/
theorem failed_transact_unchanged (S : Schema τ) (env : Env τ) (order : List (RowId τ) → List (RowId τ))
    (operations : List (Operation τ ε × Option ε)) (db db' : Db τ) (e : ε ⊕ Err τ) (hdb : db.Quiet)
    (h : ovsdbExecute S env order operations db = some (db', some e)) : Unchanged db db' := by
  rw [ovsdbExecute, Option.bind_eq_bind, Option.bind_eq_some_iff] at h
  obtain ⟨outcome, hexecute, h⟩ := h
  have hoperates := executeOperations_operates operations db hdb.toUncommitted hexecute
  cases outcome with
  | error e₁ =>
    obtain ⟨db₁, heq, hrestores⟩ := ovsdbTxnAbort_restores env hoperates.1.1.wf
    dsimp only at h
    rw [heq] at h
    cases h
    exact Restores.unchanged ⟨hoperates.1.1.trans hrestores.toAbove, hrestores.quiet⟩ hdb
  | ok db₁ =>
    rcases hcommit : ovsdbTxnCommit S env db₁ with ⟨db₂, error⟩
    dsimp only at h
    rw [hcommit] at h
    cases error with
    | none => cases h
    | some e₂ =>
      cases h
      have hrestores := (ovsdbTxnCommit_restores env hoperates.2 hcommit).1
      exact Restores.unchanged ⟨hoperates.1.trans hrestores.toAbove, hrestores.quiet⟩ hdb

/-- One table with room for one row. -/
def smallSchema : Schema Unit := ⟨fun _ => [], fun _ => true, fun _ => 1, fun _ => []⟩

/-- That row. -/
def fullTable : Db Unit := { Db.empty with rows := [⟨(), 1, [], 0⟩] }

theorem fullTable_quiet : fullTable.Quiet := by
  refine ⟨⟨⟨by decide, ?_, ?_, ?_⟩, rfl, rfl⟩, rfl⟩
  · exact fun t ht => absurd ht not_mem_nil
  · exact fun t ht => absurd ht not_mem_nil
  · exact fun w hw => absurd hw not_mem_nil

/-- A request that deletes the row and inserts two others, one more than the table may hold. -/
def overfull : List (Operation Unit Unit × Option Unit) :=
  [(.delete () fun _ => true, none), (.insert ⟨(), 2, [], 0⟩, none), (.insert ⟨(), 3, [], 0⟩, none)]

theorem failed_transact_unchanged_overfull : ∃ db' e,
    ovsdbExecute smallSchema ⟨fun _ _ => 0, fun _ => 0, none⟩ id overfull fullTable = some (db', some e) ∧
      Unchanged fullTable db' :=
  ⟨_, _, rfl, failed_transact_unchanged smallSchema ⟨fun _ _ => 0, fun _ => 0, none⟩ id overfull fullTable _ _
    fullTable_quiet rfl⟩

end LinkerOvs.Ovsdb
