/-
The rows of a transaction as partial functions of the table and the UUID: the row of the database and the row that the
transaction makes of it. `Onward` is what every pass keeps until the transaction is committed or aborted.
-/
import LinkerOvs.Ovsdb.Transaction

namespace LinkerOvs.Ovsdb

open List

variable {τ : Type} [DecidableEq τ]

namespace Db

variable {db db' db'' : Db τ} {x y : RowId τ} {r row : Row τ} {t t₀ : TxnRow τ}

/-! ## Rows by their ids -/

/-- The ids of the rows that are in the database or in the transaction. -/
def ids (db : Db τ) : List (RowId τ) := db.rows.map Row.id ++ db.txnRows.map TxnRow.id

def InTxn (db : Db τ) (x : RowId τ) : Prop := (db.findTxnRow x).isSome

/-- A row is in one place, under its own id, and the weak references of the transaction come from new rows. -/
structure WellFormed (db : Db τ) : Prop where
  nodup : db.ids.Nodup
  old_id : ∀ t ∈ db.txnRows, ∀ r ∈ t.old, r.id = t.id
  new_id : ∀ t ∈ db.txnRows, ∀ r ∈ t.new, r.id = t.id
  weak_new : ∀ w ∈ db.txnWeakRefs, (db.newRow w.1).isSome

theorem findTxnRow_id (h : db.findTxnRow x = some t) : t ∈ db.txnRows ∧ t.id = x := Keyed.find_some h

theorem findTxnRow_self (h : db.findTxnRow x = some t) : db.findTxnRow t.id = some t := by
  rw [(findTxnRow_id h).2, h]

theorem inTxn_iff : db.InTxn x ↔ x ∈ db.txnRows.map TxnRow.id := Keyed.find_isSome_iff

theorem InTxn.exists_txnRow (h : db.InTxn x) : ∃ t, db.findTxnRow x = some t := Option.isSome_iff_exists.1 h

theorem not_inTxn_iff : ¬ db.InTxn x ↔ db.findTxnRow x = none := by
  rw [InTxn, Bool.not_eq_true, Option.isSome_eq_false_iff, Option.isNone_iff_eq_none]

theorem mem_ids : x ∈ db.ids ↔ (Keyed.find Row.id x db.rows).isSome ∨ db.InTxn x := by
  rw [ids, mem_append, Keyed.find_isSome_iff, inTxn_iff]

theorem InTxn.mem_ids (h : db.InTxn x) : x ∈ db.ids := Db.mem_ids.2 (.inr h)

theorem getRow_of_not_txn (h : db.findTxnRow x = none) : db.getRow x = Keyed.find Row.id x db.rows := by
  rw [getRow, h]

theorem getRow_of_txn (h : db.findTxnRow x = some t) : db.getRow x = t.new := by
  rw [getRow, h]

theorem indexRow_of_txn (h : db.findTxnRow x = some t) : db.indexRow x = t.old := by
  rw [indexRow, h]

theorem newRow_of_txn (h : db.findTxnRow x = some t) : db.newRow x = t.new := by
  rw [newRow, h]
  rfl

namespace WellFormed

variable (hwf : db.WellFormed)
include hwf

theorem rows_nodup : (db.rows.map Row.id).Nodup := (nodup_append.1 hwf.nodup).1

theorem txn_nodup : (db.txnRows.map TxnRow.id).Nodup := (nodup_append.1 hwf.nodup).2.1

theorem not_both (h : db.InTxn x) : Keyed.find Row.id x db.rows = none := by
  rw [Keyed.find_eq_none_iff]
  exact fun hx => disjoint_of_nodup_append hwf.nodup hx (inTxn_iff.1 h)

theorem getRow_id (h : db.getRow x = some r) : r.id = x := by
  cases ht : db.findTxnRow x with
  | some t =>
    rw [getRow, ht] at h
    obtain ⟨hmem, rfl⟩ := findTxnRow_id ht
    exact hwf.new_id t hmem r h
  | none =>
    rw [getRow_of_not_txn ht] at h
    exact (Keyed.find_some h).2

end WellFormed

/-! ## Onward in a transaction -/

/-- `db'` is a later state of the same transaction: the database under it is the same. -/
structure Onward (db db' : Db τ) : Prop where
  wf : db'.WellFormed
  ids : ∀ x, x ∈ db'.ids ↔ x ∈ db.ids
  indexRow : ∀ x, db'.indexRow x = db.indexRow x
  indexes : db'.indexes = db.indexes
  weakRefs : db'.weakRefs = db.weakRefs

theorem Onward.refl (hwf : db.WellFormed) : Onward db db := ⟨hwf, fun _ => Iff.rfl, fun _ => rfl, rfl, rfl⟩

theorem Onward.trans (h : Onward db db') (h' : Onward db' db'') : Onward db db'' :=
  ⟨h'.wf, fun x => (h'.ids x).trans (h.ids x), fun x => (h'.indexRow x).trans (h.indexRow x),
    h'.indexes.trans h.indexes, h'.weakRefs.trans h.weakRefs⟩

/-! ## Changing a row of the transaction -/

section SetTxnRow

variable (h : db.findTxnRow t.id = some t₀)
include h

theorem findTxnRow_setTxnRow : (db.setTxnRow t).findTxnRow x = if x = t.id then some t else db.findTxnRow x := by
  rw [findTxnRow, setTxnRow]
  rw [Keyed.find_set, ← findTxnRow]
  simp_all

theorem newRow_setTxnRow : (db.setTxnRow t).newRow x = if x = t.id then t.new else db.newRow x := by
  rw [newRow, findTxnRow_setTxnRow h]
  by_cases hx : x = t.id
  · simp [*]
  · rw [if_neg hx, if_neg hx, newRow]

theorem getRow_setTxnRow : (db.setTxnRow t).getRow x = if x = t.id then t.new else db.getRow x := by
  rw [getRow, findTxnRow_setTxnRow h]
  by_cases hx : x = t.id
  · rw [if_pos hx, if_pos hx]
  · rw [if_neg hx, if_neg hx]
    rfl

theorem indexRow_setTxnRow (hold : t.old = t₀.old) : (db.setTxnRow t).indexRow x = db.indexRow x := by
  rw [indexRow, findTxnRow_setTxnRow h]
  by_cases hx : x = t.id
  · rw [if_pos hx, hx, indexRow_of_txn h]
    exact hold
  · rw [if_neg hx]
    rfl

theorem onward_setTxnRow (hwf : db.WellFormed) (hold : t.old = t₀.old) (hnew : ∀ r ∈ t.new, r.id = t.id)
    (hweak : t.new.isSome ∨ ∀ w ∈ db.txnWeakRefs, w.1 ≠ t.id) : Onward db (db.setTxnRow t) := by
  have hids : (db.setTxnRow t).ids = db.ids := by
    rw [ids, ids, setTxnRow]
    rw [Keyed.map_key_set]
  have hmem : ∀ u ∈ (db.setTxnRow t).txnRows, u = t ∨ u ∈ db.txnRows := by
    intro u hu
    rcases Keyed.mem_set hwf.txn_nodup (findTxnRow_id h).1 (findTxnRow_id h).2.symm hu with hu | hu
    · exact .inl hu
    · exact .inr hu.1
  refine ⟨⟨hids ▸ hwf.nodup, ?_, ?_, ?_⟩, fun x => by rw [hids], fun x => indexRow_setTxnRow h hold, rfl, rfl⟩
  · intro u hu r hr
    rcases hmem u hu with rfl | hu
    · rw [hold] at hr
      exact (hwf.old_id t₀ (findTxnRow_id h).1 r hr).trans (findTxnRow_id h).2
    · exact hwf.old_id u hu r hr
  · intro u hu r hr
    rcases hmem u hu with rfl | hu
    · exact hnew r hr
    · exact hwf.new_id u hu r hr
  · intro w hw
    rw [newRow_setTxnRow h]
    by_cases hx : w.1 = t.id
    · rw [if_pos hx]
      rcases hweak with hsome | hne
      · exact hsome
      · exact absurd hx (hne w hw)
    · rw [if_neg hx]
      exact hwf.weak_new w hw

end SetTxnRow

/-! ## Taking a row into the transaction -/

/-- Some rows of the database have been taken into the transaction as they are; weak references may have come up. -/
structure Links (db db' : Db τ) : Prop extends Onward db db' where
  txn : ∀ {x t}, db.findTxnRow x = some t → db'.findTxnRow x = some t

/-- Some rows of the database have been taken into the transaction as they are. -/
structure Pulls (db db' : Db τ) : Prop extends Links db db' where
  txnIndexes : db'.txnIndexes = db.txnIndexes
  txnWeakRefs : db'.txnWeakRefs = db.txnWeakRefs
  getRow : ∀ x, db'.getRow x = db.getRow x

theorem Links.refl (hwf : db.WellFormed) : Links db db := ⟨.refl hwf, id⟩

theorem Links.trans (h : Links db db') (h' : Links db' db'') : Links db db'' :=
  ⟨h.toOnward.trans h'.toOnward, fun ht => h'.txn (h.txn ht)⟩

theorem Links.newRow (h : Links db db') (hx : db.newRow x = some r) : db'.newRow x = some r := by
  cases ht : db.findTxnRow x with
  | none =>
    rw [Db.newRow, ht] at hx
    cases hx
  | some t => rwa [newRow_of_txn (h.txn ht), ← newRow_of_txn ht]

theorem Pulls.refl (hwf : db.WellFormed) : Pulls db db := ⟨.refl hwf, rfl, rfl, fun _ => rfl⟩

theorem findTxnRow_modify (h : db.findTxnRow row.id = none) : (ovsdbTxnRowModify db row).findTxnRow x =
    if x = row.id then some ⟨row.id, some row, some row, row.nRefs, []⟩ else db.findTxnRow x := by
  rw [ovsdbTxnRowModify, h, findTxnRow]
  rw [Keyed.find_append, Keyed.find_cons, ← findTxnRow]
  by_cases hx : x = row.id
  · rw [if_pos hx, if_pos hx.symm, hx, h, Option.none_or]
  · rw [if_neg hx, if_neg (Ne.symm hx)]
    simp [Keyed.find]

theorem find_rows_modify (h : db.findTxnRow row.id = none) : Keyed.find Row.id x (ovsdbTxnRowModify db row).rows =
    if x = row.id then none else Keyed.find Row.id x db.rows := by
  rw [ovsdbTxnRowModify, h]
  exact Keyed.find_erase

theorem ids_modify_perm (hwf : db.WellFormed) (h : db.findTxnRow row.id = none)
    (hrow : Keyed.find Row.id row.id db.rows = some row) : (ovsdbTxnRowModify db row).ids.Perm db.ids := by
  have hperm := (Keyed.perm_of_mem hwf.rows_nodup (Keyed.find_some hrow).1).map Row.id
  rw [ovsdbTxnRowModify, h, ids]
  rw [map_append, ← append_assoc]
  refine (perm_append_singleton _ _).trans ?_
  exact hperm.symm.append_right _

theorem pulls_modify (hwf : db.WellFormed) (hrow : db.getRow row.id = some row) :
    Pulls db (ovsdbTxnRowModify db row) := by
  cases h : db.findTxnRow row.id with
  | some t =>
    have heq : ovsdbTxnRowModify db row = db := by rw [ovsdbTxnRowModify, h]
    rw [heq]
    exact .refl hwf
  | none =>
    rw [getRow_of_not_txn h] at hrow
    have hperm := ids_modify_perm hwf h hrow
    have hindex : ∀ x, (ovsdbTxnRowModify db row).indexRow x = db.indexRow x := by
      intro x
      rw [indexRow, findTxnRow_modify h, find_rows_modify h, indexRow]
      grind
    have hget : ∀ x, (ovsdbTxnRowModify db row).getRow x = db.getRow x := by
      intro x
      rw [getRow, findTxnRow_modify h, find_rows_modify h, getRow]
      grind
    have htxn : ∀ {x t}, db.findTxnRow x = some t → (ovsdbTxnRowModify db row).findTxnRow x = some t := by
      intro x t ht
      rw [findTxnRow_modify h, if_neg, ht]
      rintro rfl
      rw [h] at ht
      cases ht
    have hmem : ∀ t ∈ (ovsdbTxnRowModify db row).txnRows,
        t ∈ db.txnRows ∨ t = ⟨row.id, some row, some row, row.nRefs, []⟩ := by
      rw [ovsdbTxnRowModify, h]
      simp
    have hsame : (ovsdbTxnRowModify db row).indexes = db.indexes ∧ (ovsdbTxnRowModify db row).weakRefs = db.weakRefs ∧
        (ovsdbTxnRowModify db row).txnIndexes = db.txnIndexes ∧
        (ovsdbTxnRowModify db row).txnWeakRefs = db.txnWeakRefs := by
      rw [ovsdbTxnRowModify, h]
      exact ⟨rfl, rfl, rfl, rfl⟩
    refine ⟨⟨⟨⟨hperm.nodup_iff.2 hwf.nodup, ?_, ?_, ?_⟩, fun x => hperm.mem_iff, hindex, hsame.1, hsame.2.1⟩, htxn⟩,
      hsame.2.2.1, hsame.2.2.2, hget⟩
    · intro t ht r hr
      rcases hmem t ht with ht | rfl
      · exact hwf.old_id t ht r hr
      · cases hr
        rfl
    · intro t ht r hr
      rcases hmem t ht with ht | rfl
      · exact hwf.new_id t ht r hr
      · cases hr
        rfl
    · intro w hw
      rw [hsame.2.2.2] at hw
      have hsome := hwf.weak_new w hw
      cases ht : db.findTxnRow w.1 with
      | none => simp [newRow, ht] at hsome
      | some t => rwa [newRow_of_txn (htxn ht), ← newRow_of_txn ht]

theorem findOrMakeTxnRow_some (hwf : db.WellFormed) (h : findOrMakeTxnRow db x = some db') : Pulls db db' := by
  unfold findOrMakeTxnRow at h
  cases ht : db.findTxnRow x with
  | some t =>
    rw [ht] at h
    cases h
    exact .refl hwf
  | none =>
    rw [ht] at h
    obtain ⟨row, hrow, rfl⟩ := Option.map_eq_some_iff.1 h
    obtain rfl := (Keyed.find_some hrow).2
    exact pulls_modify hwf (by rw [getRow_of_not_txn ht, hrow])

end Db

end LinkerOvs.Ovsdb
