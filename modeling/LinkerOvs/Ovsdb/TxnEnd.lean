/-
How a transaction begins and ends: whatever it has done, aborting it, row by row in any order, gives the database back
that it was begun on. The first pass of a commit, which takes the rows out that have not changed, aborts them one by
one in the same way.
-/
import LinkerOvs.Ovsdb.TxnPasses

namespace LinkerOvs.Ovsdb

open Db List

variable {τ : Type} [DecidableEq τ] {S : Schema τ} (env : Env τ) {pass : Pass} {db db' db'' db₀ : Db τ} {x y : RowId τ}
  {r row : Row τ} {t t₀ : TxnRow τ}

/-! ## The database under a transaction -/

/-- `db` and `db'` are states of transactions on the same database. -/
structure Above (db db' : Db τ) : Prop where
  wf : db'.WellFormed
  indexRow : ∀ x, db'.indexRow x = db.indexRow x
  indexes : db'.indexes = db.indexes
  weakRefs : db'.weakRefs = db.weakRefs

theorem Above.refl (hwf : db.WellFormed) : Above db db := ⟨hwf, fun _ => rfl, rfl, rfl⟩

theorem Above.trans (h : Above db db') (h' : Above db' db'') : Above db db'' :=
  ⟨h'.wf, fun x => (h'.indexRow x).trans (h.indexRow x), h'.indexes.trans h.indexes, h'.weakRefs.trans h.weakRefs⟩

theorem Db.Onward.above (h : Onward db db') : Above db db' := ⟨h.wf, h.indexRow, h.indexes, h.weakRefs⟩

/-- No pass of a commit has added anything to the maps and lists of the transaction. -/
structure Db.Uncommitted (db : Db τ) : Prop where
  wf : db.WellFormed
  txnIndexes : db.txnIndexes = fun _ _ => []
  txnWeakRefs : db.txnWeakRefs = []

/-- There is no transaction. -/
structure Db.Quiet (db : Db τ) : Prop extends db.Uncommitted where
  txnRows : db.txnRows = []

theorem Db.Quiet.findTxnRow (h : db.Quiet) : db.findTxnRow x = none := by
  rw [Db.findTxnRow, h.txnRows]
  rfl

theorem Db.Quiet.indexRow (h : db.Quiet) : db.indexRow x = Keyed.find Row.id x db.rows := by
  rw [Db.indexRow, h.findTxnRow]

/-! ## Aborting a row -/

/-- The rows after one of the transaction has gone back to what it was. -/
def withoutTxnRow (db : Db τ) (t : TxnRow τ) : Db τ :=
  { db with txnRows := Keyed.erase TxnRow.id t.id db.txnRows, rows := db.rows ++ t.old.toList }

section Aborted

variable (hwf : db.WellFormed) (h : db.findTxnRow x = some t)
include hwf h

omit hwf in
theorem findTxnRow_without : (withoutTxnRow db t).findTxnRow y = if y = x then none else db.findTxnRow y := by
  rw [withoutTxnRow, (findTxnRow_id h).2]
  exact Keyed.find_erase

theorem find_rows_without : Keyed.find Row.id y (withoutTxnRow db t).rows =
    if y = x then t.old else Keyed.find Row.id y db.rows := by
  have hnone := hwf.not_both (Option.isSome_iff_exists.2 ⟨t, h⟩ : db.InTxn x)
  have hid := hwf.old_id t (findTxnRow_id h).1
  rw [(findTxnRow_id h).2] at hid
  rw [withoutTxnRow]
  rw [Keyed.find_append]
  by_cases hy : y = x
  · rw [if_pos hy, hy, hnone, Option.none_or]
    cases hold : t.old with
    | none => rfl
    | some old => rw [Option.toList_some, Keyed.find_cons, if_pos (hid old hold)]
  rw [if_neg hy]
  cases hold : t.old with
  | none => exact Option.or_none
  | some old =>
    rw [Option.toList_some, Keyed.find_cons, if_neg]
    · exact Option.or_none
    · rw [hid old hold]
      exact Ne.symm hy

theorem indexRow_without : (withoutTxnRow db t).indexRow y = db.indexRow y := by
  rw [indexRow, findTxnRow_without h, find_rows_without hwf h]
  by_cases hy : y = x
  · rw [if_pos hy, if_pos hy, hy, indexRow_of_txn h]
  · rw [if_neg hy, if_neg hy, indexRow]

omit hwf in
theorem newRow_without (hy : y ≠ x) : (withoutTxnRow db t).newRow y = db.newRow y := by
  rw [newRow, findTxnRow_without h, if_neg hy, newRow]

theorem nodup_ids_without : (withoutTxnRow db t).ids.Nodup := by
  have hmem := (findTxnRow_id h).1
  have hids : db.ids.Perm (db.rows.map Row.id ++ t.id :: (Keyed.erase TxnRow.id t.id db.txnRows).map TxnRow.id) :=
    ((Keyed.perm_of_mem hwf.txn_nodup hmem).map TxnRow.id).append_left _
  refine (hids.nodup_iff.1 hwf.nodup).sublist ?_
  rw [ids, withoutTxnRow]
  rw [map_append, append_assoc]
  refine List.Sublist.append_left ?_ _
  cases hold : t.old with
  | none => exact sublist_cons_self _ _
  | some old =>
    rw [Option.toList_some, map_singleton, hwf.old_id t hmem old hold]
    exact .refl _

theorem mem_ids_without (hold : t.old.isSome) : y ∈ (withoutTxnRow db t).ids ↔ y ∈ db.ids := by
  rw [mem_ids, mem_ids, InTxn, InTxn, findTxnRow_without h, find_rows_without hwf h]
  by_cases hy : y = x
  · simp [*]
  · rw [if_neg hy, if_neg hy]

/-- A database with fewer weak references of the transaction than this one, none of them from the aborted row. -/
theorem above_without {w : List (RowId τ × RowId τ)} (hsub : w ⊆ db.txnWeakRefs) (hne : ∀ p ∈ w, p.1 ≠ x) :
    Above db { withoutTxnRow db t with txnWeakRefs := w } := by
  have hmem : ∀ u ∈ (withoutTxnRow db t).txnRows, u ∈ db.txnRows := fun u hu => (Keyed.mem_erase.1 hu).1
  have hindex : ∀ y, ({ withoutTxnRow db t with txnWeakRefs := w } : Db τ).indexRow y = db.indexRow y :=
    fun y => indexRow_without hwf h
  refine ⟨⟨nodup_ids_without hwf h, fun u hu => hwf.old_id u (hmem u hu),
    fun u hu => hwf.new_id u (hmem u hu), fun p hp => ?_⟩, hindex, rfl, rfl⟩
  have hnew : ({ withoutTxnRow db t with txnWeakRefs := w } : Db τ).newRow p.1 = db.newRow p.1 :=
    newRow_without h (hne p hp)
  rw [hnew]
  exact hwf.weak_new p (hsub hp)

theorem txnRowAbort_spec : ∃ w, ovsdbTxnRowAbort x db = .ok { withoutTxnRow db t with txnWeakRefs := w } ∧
    w ⊆ db.txnWeakRefs ∧ Above db { withoutTxnRow db t with txnWeakRefs := w } := by
  have hid := (findTxnRow_id h).2
  rw [ovsdbTxnRowAbort, h]
  dsimp only
  cases hnew : t.new with
  | none =>
    refine ⟨db.txnWeakRefs, ?_, fun _ hp => hp, ?_⟩
    · rw [withoutTxnRow, hid]
      rfl
    · exact above_without hwf h (fun _ hp => hp) (hwf.weak_ne (by rw [newRow_of_txn h, hnew]))
  | some new =>
    have hsub : db.txnWeakRefs.filter (fun w => w.1 ≠ x ∧ w.2 ≠ x) ⊆ db.txnWeakRefs := filter_subset_self _
    refine ⟨db.txnWeakRefs.filter fun w => w.1 ≠ x ∧ w.2 ≠ x, ?_, hsub, above_without hwf h hsub fun p hp => ?_⟩
    · rw [withoutTxnRow, hid]
      rfl
    · grind

end Aborted

/-! ## Aborting a transaction -/

/-- The transaction has ended and left the database under `db`. -/
structure Restores (db db' : Db τ) : Prop extends Above db db' where
  quiet : db'.Quiet

/-- `ovsdb_txn_abort`. The rows of the transaction become fewer with every visit. -/
theorem ovsdbTxnAbort_restores (hwf : db.WellFormed) : ∃ db', ovsdbTxnAbort env db = .ok db' ∧ Restores db db' := by
  have hloop : (forEachTxnRow env .abort ovsdbTxnRowAbort db).Meets (fun _ => False) fun db' =>
      ∃ done : List (RowId τ),
        (Above db db' ∧ ∀ x, db'.InTxn x → db.InTxn x ∧ x ∉ done) ∧ ∀ x, db'.InTxn x → x ∈ done := by
    refine forEachTxnRow_meets env _ db _ (I := fun done db' => Above db db' ∧ ∀ x, db'.InTxn x → db.InTxn x ∧ x ∉ done)
      (fun done db' h x hx => (h.2 x hx).1.mem_ids) ?_ ⟨.refl hwf, fun x hx => ⟨hx, not_mem_nil⟩⟩
    intro done db' x ⟨habove, htxn⟩ hx _
    obtain ⟨t, ht⟩ := hx.exists_txnRow
    obtain ⟨w, heq, _, hstep⟩ := txnRowAbort_spec habove.wf ht
    rw [heq]
    refine ⟨habove.trans hstep, fun y hy => ?_⟩
    have hfind : (withoutTxnRow db' t).findTxnRow y = if y = x then none else db'.findTxnRow y :=
      findTxnRow_without ht
    have hy' : ((withoutTxnRow db' t).findTxnRow y).isSome := hy
    rw [hfind] at hy'
    by_cases hyx : y = x
    · simp_all
    · rw [if_neg hyx] at hy'
      obtain ⟨h₀, hdone⟩ := htxn y hy'
      exact ⟨h₀, fun hmem => (mem_cons.1 hmem).elim hyx hdone⟩
  obtain ⟨db', heq, done, ⟨habove, htxn⟩, hdone⟩ := hloop.exists_ok
  have hempty : db'.txnRows = [] := by
    rw [← map_eq_nil_iff (f := TxnRow.id), eq_nil_iff_forall_not_mem]
    intro x hx
    have hin := inTxn_iff.2 hx
    exact (htxn x hin).2 (hdone x hin)
  have hweak : db'.txnWeakRefs = [] := by
    rw [eq_nil_iff_forall_not_mem]
    intro w hw
    have hsome := habove.wf.weak_new w hw
    rw [newRow, findTxnRow, hempty] at hsome
    cases hsome
  have hwf' : (ovsdbTxnFree db').WellFormed :=
    ⟨habove.wf.nodup, habove.wf.old_id, habove.wf.new_id, fun w hw => by cases hw⟩
  refine ⟨ovsdbTxnFree db', by rw [ovsdbTxnAbort, heq]; rfl,
    ⟨hwf', habove.indexRow, habove.indexes, ?_⟩, ⟨hwf', rfl, rfl⟩, hempty⟩
  rw [ovsdbTxnFree, hweak]
  rw [append_nil, habove.weakRefs]

theorem abortWith_restores (hwf : db.WellFormed) (e : Err τ) :
    ∃ db', abortWith env e db = (db', some e) ∧ Restores db db' := by
  obtain ⟨db', heq, h⟩ := ovsdbTxnAbort_restores env hwf
  exact ⟨db', by rw [abortWith, heq], h⟩

/-! ## What has changed -/

theorem determineChanges_collects (hwf : db.WellFormed) (hweak : db.txnWeakRefs = []) (h : db.findTxnRow x = some t) :
    ∃ db', determineChanges S x db = .ok db' ∧ Collects db db' := by
  have hid := findTxnRow_self h
  have hset : ∀ changed, Collects db (db.setTxnRow { t with changed := changed }) :=
    fun changed => ⟨hweak, onward_setTxnRow_same (t := { t with changed := changed }) hwf hid rfl rfl, hweak⟩
  rw [determineChanges, h]
  dsimp only
  split
  · next old new hold hnew =>
    split
    · obtain ⟨w, heq, hsub, habove⟩ := txnRowAbort_spec hwf h
      have hids : ∀ y, y ∈ ({ withoutTxnRow db t with txnWeakRefs := w } : Db τ).ids ↔ y ∈ db.ids :=
        fun y => mem_ids_without hwf h (by rw [hold]; rfl)
      refine ⟨_, heq, hweak, ⟨habove.wf, hids, habove.indexRow, rfl, rfl⟩, ?_⟩
      rw [hweak] at hsub
      exact subset_nil.1 hsub
    · exact ⟨_, rfl, hset _⟩
  · exact ⟨_, rfl, hset _⟩

theorem determineChanges_pass (hwf : db.WellFormed) (hweak : db.txnWeakRefs = []) :
    ∃ db', forEachTxnRow env .determineChanges (determineChanges S) db = .ok db' ∧ Collects db db' := by
  have hloop : (forEachTxnRow env .determineChanges (determineChanges S) db).Meets (fun _ => False) fun db' =>
      ∃ done : List (RowId τ), Collects db db' ∧ ∀ x, db'.InTxn x → x ∈ done := by
    refine forEachTxnRow_meets env _ db _ (I := fun _ db' => Collects db db') (fun _ db' h x hx => (h.2.1.ids x).1 hx.mem_ids) ?_
      (.refl hwf hweak)
    intro done db' x hdb' hx _
    obtain ⟨t, ht⟩ := hx.exists_txnRow
    obtain ⟨db'', heq, hstep⟩ := determineChanges_collects (S := S) hdb'.2.1.wf hdb'.2.2 ht
    rw [heq]
    exact hdb'.trans _ _ _ hstep
  obtain ⟨db', heq, _, h, _⟩ := hloop.exists_ok
  exact ⟨db', heq, h⟩

/-! ## Nodes for the indexes -/

/-- The new row has its node in the transaction's map of every index. -/
def HasNodes (S : Schema τ) (db : Db τ) (x : RowId τ) : Prop :=
  ∀ i < (S.indexes x.1).length, ∃ node ∈ db.txnIndexes x.1 i, node.2 = x

/-- Only the transaction's maps of the indexes are different. -/
def Reindexed (db db' : Db τ) : Prop := ∃ nodes, db' = { db with txnIndexes := nodes }

theorem Reindexed.onward (h : Reindexed db db') (hwf : db.WellFormed) : Onward db db' := by
  obtain ⟨nodes, rfl⟩ := h
  exact ⟨⟨hwf.nodup, hwf.old_id, hwf.new_id, hwf.weak_new⟩, fun _ => Iff.rfl, fun _ => rfl, rfl, rfl⟩

variable (x row) in
theorem checkIndexes_spec (l : List (List (Column τ))) : ∀ (k : Nat) (db : Db τ),
    ((l.zipIdx k).foldlM (checkIndex x row) db).Meets (fun e => Reindexed db e.2 ∧ e.1.InTurns) fun db' => Reindexed db db' ∧
      (∀ t i, db.txnIndexes t i ⊆ db'.txnIndexes t i) ∧
      ∀ i, k ≤ i → i < k + l.length → ∃ node ∈ db'.txnIndexes x.1 i, node.2 = x := by
  induction l with
  | nil => exact fun k db => ⟨⟨_, rfl⟩, fun _ _ => List.Subset.refl _, fun i hk hi => absurd hi (not_lt.2 hk)⟩
  | cons columns l ih =>
    intro k db
    rw [zipIdx_cons, foldlM_cons, checkIndex]
    dsimp only
    split
    · exact ⟨⟨_, rfl⟩, trivial⟩
    split
    · exact ⟨⟨_, rfl⟩, trivial⟩
    -- one node more, and then those of the other indexes
    generalize ovsdbRowHashColumns row columns 0 = hash
    have hcons : ∀ t i, db.txnIndexes t i ⊆
        (db.setTxnIndex x.1 k ((hash, x) :: db.txnIndexes x.1 k)).txnIndexes t i := by
      intro t i
      rw [setTxnIndex]
      grind
    have hrest := ih (k + 1) (db.setTxnIndex x.1 k ((hash, x) :: db.txnIndexes x.1 k))
    rw [Except.ok_bind]
    generalize (l.zipIdx (k + 1)).foldlM (checkIndex x row) _ = outcome at hrest
    cases outcome with
    | error e =>
      obtain ⟨⟨nodes, heq⟩, he⟩ := hrest
      exact ⟨⟨nodes, heq⟩, he⟩
    | ok db' =>
      obtain ⟨⟨nodes, heq⟩, hsub, hnodes⟩ := hrest
      refine ⟨⟨nodes, heq⟩, fun t i => List.Subset.trans (hcons t i) (hsub t i), fun i hk hi => ?_⟩
      rcases hk.eq_or_lt with rfl | hlt
      · refine ⟨(hash, x), hsub x.1 k ?_, rfl⟩
        rw [setTxnIndex]
        simp
      · grind

theorem checkIndexUniqueness_pass (hwf : db.WellFormed) :
    (forEachTxnRow env .checkIndexUniqueness (checkIndexUniqueness S) db).Meets (fun e => Reindexed db e.2 ∧ e.1.InTurns) fun db' =>
      Reindexed db db' ∧ ∀ x, (db'.newRow x).isSome → HasNodes S db' x := by
  have hloop := forEachTxnRow_meets env .checkIndexUniqueness db (checkIndexUniqueness S)
    (E := fun e => Reindexed db e.2 ∧ e.1.InTurns)
    (I := fun done db' => Reindexed db db' ∧ ∀ x ∈ done, (db'.newRow x).isSome → HasNodes S db' x)
    (fun done db' h x hx => (h.1.onward hwf).ids x |>.1 hx.mem_ids) ?_
    ⟨⟨_, rfl⟩, fun x hx => absurd hx not_mem_nil⟩
  · refine hloop.mono ?_
    rintro db' ⟨done, ⟨hsame, hnodes⟩, hdone⟩
    refine ⟨hsame, fun x hx => hnodes x (hdone x ?_) hx⟩
    cases ht : db'.findTxnRow x with
    | none => simp [newRow, ht] at hx
    | some t => exact Option.isSome_iff_exists.2 ⟨t, ht⟩
  · rintro done db' x ⟨⟨nodes, rfl⟩, hnodes⟩ hx hfresh
    rw [checkIndexUniqueness]
    split
    · next hnone =>
      refine ⟨⟨nodes, rfl⟩, fun y hy hsome => ?_⟩
      rcases mem_cons.1 hy with rfl | hy
      · simp_all
      · exact hnodes y hy hsome
    next row hrow =>
    have hspec := checkIndexes_spec x row (S.indexes x.1) 0 { db with txnIndexes := nodes }
    generalize (S.indexes x.1).zipIdx.foldlM (checkIndex x row) _ = outcome at hspec
    cases outcome with
    | error e =>
      obtain ⟨⟨nodes', heq⟩, he⟩ := hspec
      exact ⟨⟨nodes', heq⟩, he⟩
    | ok db'' =>
      obtain ⟨⟨nodes', rfl⟩, hsub, hnew⟩ := hspec
      refine ⟨⟨nodes', rfl⟩, fun y hy hsome i hi => ?_⟩
      rcases mem_cons.1 hy with rfl | hy
      · exact hnew i (Nat.zero_le i) (by rwa [Nat.zero_add])
      · obtain ⟨node, hnode, hid⟩ := hnodes y hy hsome i hi
        exact ⟨node, hsub _ _ hnode, hid⟩

/-! ## The end of a commit -/

/-- The last pass before the replicas changes only columns of rows that stay. -/
theorem updateVersion_pass (hwf : db.WellFormed) : ∃ db',
    forEachTxnRow env .updateVersion (updateVersion env) db = .ok db' ∧ Onward db db' ∧
      db'.txnIndexes = db.txnIndexes ∧ ∀ x, (db'.newRow x).isSome → (db.newRow x).isSome := by
  have hloop := forEachTxnRow_meets env .updateVersion db (updateVersion env) (E := fun _ => False)
    (I := fun _ db' => Onward db db' ∧ db'.txnIndexes = db.txnIndexes ∧ ∀ x, (db'.newRow x).isSome → (db.newRow x).isSome)
    (fun _ db' h x hx => (h.1.ids x).1 hx.mem_ids) ?_ ⟨.refl hwf, rfl, fun _ hx => hx⟩
  · obtain ⟨db', heq, _, h, _⟩ := hloop.exists_ok
    exact ⟨db', heq, h⟩
  · rintro done db' x ⟨honward, hnodes, hnew⟩ hx _
    obtain ⟨t, ht⟩ := hx.exists_txnRow
    rw [updateVersion, ht]
    dsimp only
    split
    · next old new hold hsome =>
      split
      · exact ⟨honward, hnodes, hnew⟩
      have hid := findTxnRow_self ht
      have hrow : new.id = t.id := honward.wf.new_id t (findTxnRow_id ht).1 new hsome
      have hsame : ∀ (u : TxnRow τ) (y : RowId τ), ((db'.setTxnRow u).newRow y).isSome → u.id = t.id →
          (db'.newRow y).isSome := by
        intro u y hy hu
        rw [newRow_setTxnRow (show db'.findTxnRow u.id = some t by rw [hu, hid])] at hy
        by_cases hyx : y = u.id
        · rw [hyx, hu, newRow_of_txn hid, hsome]
          rfl
        · rwa [if_neg hyx] at hy
      refine ⟨honward.trans (onward_setTxnRow hid honward.wf rfl ?_ (.inl rfl)), hnodes,
        fun y hy => hnew y (hsame _ y hy rfl)⟩
      rintro r ⟨⟩
      exact hrow
    · exact ⟨honward, hnodes, hnew⟩

theorem insertNodes_ok : ∀ (l : List Nat) (db : Db τ), (∀ i ∈ l, ∃ node ∈ db.txnIndexes x.1 i, node.2 = x) →
    ∃ nodes, l.foldlM (insertNode x) db = .ok { db with indexes := nodes }
  | [], db, _ => ⟨db.indexes, rfl⟩
  | i :: l, db, h => by
    obtain ⟨node, hnode, hid⟩ := h i mem_cons_self
    cases hhash : nodeHash db x i with
    | none =>
      rw [nodeHash, Option.map_eq_none_iff, find?_eq_none] at hhash
      exact absurd (decide_eq_true hid) (hhash node hnode)
    | some hash =>
      obtain ⟨nodes, heq⟩ := insertNodes_ok l (db.setIndex x.1 i ((hash, x) :: db.indexes x.1 i))
        fun j hj => h j (mem_cons_of_mem i hj)
      refine ⟨nodes, ?_⟩
      rw [foldlM_cons, insertNode, hhash]
      exact heq

theorem removeNodes_eq (l : List Nat) : ∀ db : Db τ, ∃ nodes, l.foldl (removeNode x) db = { db with indexes := nodes } := by
  induction l with
  | nil => exact fun db => ⟨db.indexes, rfl⟩
  | cons i l ih => exact fun db => ih (removeNode x db i)

/-- A row with its nodes is committed: it leaves the transaction. -/
theorem txnRowCommit_ok (ht : db.findTxnRow x = some t) (hnodes : t.new.isSome → HasNodes S db x) :
    ∃ db', ovsdbTxnRowCommit S x db = .ok db' ∧ db'.txnRows = Keyed.erase TxnRow.id x db.txnRows ∧
      db'.txnIndexes = db.txnIndexes := by
  rw [ovsdbTxnRowCommit, ht]
  dsimp only
  obtain ⟨indexes, hremove⟩ : ∃ nodes, (if t.old.isSome then
      (List.range (S.indexes x.1).length).foldl (removeNode x) db else db) = { db with indexes := nodes } := by
    split
    · exact removeNodes_eq _ db
    · exact ⟨db.indexes, rfl⟩
  rw [hremove]
  by_cases hnew : t.new.isSome
  · obtain ⟨indexes', hinsert⟩ := insertNodes_ok (x := x) (List.range (S.indexes x.1).length) { db with indexes := indexes }
      fun i hi => hnodes hnew i (mem_range.1 hi)
    rw [if_pos hnew, hinsert]
    refine ⟨_, rfl, ?_⟩
    split
    · exact ⟨rfl, rfl⟩
    · exact ⟨rfl, rfl⟩
  · rw [if_neg hnew]
    refine ⟨_, rfl, ?_⟩
    split
    · exact ⟨rfl, rfl⟩
    · exact ⟨rfl, rfl⟩

theorem finalizeCommit_ok (h : ∀ x, (db.newRow x).isSome → HasNodes S db x) :
    ∃ db', finalizeCommit S env db = .ok db' := by
  have hloop := forEachTxnRow_meets env .commit db (ovsdbTxnRowCommit S) (E := fun _ => False)
    (I := fun _ db' => db'.txnIndexes = db.txnIndexes ∧ ∀ x t, db'.findTxnRow x = some t → db.findTxnRow x = some t)
    (fun _ db' hI x hx => ?_) ?_ ⟨rfl, fun _ _ ht => ht⟩
  · obtain ⟨db', heq, -⟩ := hloop.exists_ok
    exact ⟨ovsdbTxnFree db', by rw [finalizeCommit, heq]; rfl⟩
  · obtain ⟨t, ht⟩ := hx.exists_txnRow
    exact InTxn.mem_ids (Option.isSome_iff_exists.2 ⟨t, hI.2 x t ht⟩)
  · rintro done db' x ⟨hindexes, hfind⟩ hx _
    obtain ⟨t, ht⟩ := hx.exists_txnRow
    have hnodes : t.new.isSome → HasNodes S db' x := by
      intro hnew i hi
      rw [hindexes]
      exact h x (by rwa [newRow_of_txn (hfind x t ht)]) i hi
    obtain ⟨db'', heq, hrows, hindexes'⟩ := txnRowCommit_ok ht hnodes
    rw [heq]
    refine ⟨hindexes'.trans hindexes, fun y u hu => hfind y u ?_⟩
    rw [findTxnRow, hrows, Keyed.find_erase] at hu
    split at hu
    · cases hu
    · exact hu

/-- The passes that may fail leave the database under the transaction as it is. -/
theorem checkRows_onward (hwf : db.WellFormed) (hweak : db.txnWeakRefs = []) :
    (checkRows S env db).Meets (fun e => Above db e.2 ∧ e.1.InTurns) fun db' =>
      Onward db db' ∧ ∀ x, (db'.newRow x).isSome → HasNodes S db' x := by
  have hsettle : (settleRows S env db).Meets (fun e => Above db e.2 ∧ e.1.InTurns) (Onward db) := by
    have hcollect := countAndCollect_collects (S := S) env hwf hweak
    refine (hcollect.imp (fun _ he => ⟨he.1.2.1.above, he.2⟩) fun _ h₁ => h₁.2.1).bind fun db₁ h₁ => ?_
    rw [checkMaxRows]
    split
    · exact ⟨h₁.above, trivial⟩
    · have hassess := assessWeakRefs_pass (S := S) env h₁.wf
      exact hassess.imp (fun _ he => ⟨h₁.above.trans he.1.above, he.2⟩) fun _ h₂ => h₁.trans h₂
  refine hsettle.bind fun db₁ h₁ => ?_
  have hindex := checkIndexUniqueness_pass (S := S) env h₁.wf
  exact hindex.imp (fun _ he => ⟨h₁.above.trans (Reindexed.onward he.1 h₁.wf).above, he.2⟩)
    fun _ h₂ => ⟨h₁.trans (h₂.1.onward h₁.wf), h₂.2⟩

/-- A commit that fails, in whichever pass, leaves the database as it was before the transaction. None of its loops
needs more turns than it has. -/
theorem ovsdbTxnCommit_restores {e : Err τ} (hdb : db.Uncommitted) (h : ovsdbTxnCommit S env db = (db', some e)) :
    Restores db db' ∧ e.InTurns := by
  obtain ⟨db₁, hdetermine, h₁⟩ := determineChanges_pass (S := S) env hdb.wf hdb.txnWeakRefs
  have habort : ∀ {db₂ : Db τ} (e₂ : Err τ), Above db db₂ → e₂.InTurns → abortWith env e₂ db₂ = (db', some e) →
      Restores db db' ∧ e.InTurns := by
    intro db₂ e₂ habove he₂ heq
    obtain ⟨db₃, hend, hrestores⟩ := abortWith_restores env habove.wf e₂
    rw [hend] at heq
    cases heq
    exact ⟨⟨habove.trans hrestores.toAbove, hrestores.quiet⟩, he₂⟩
  rw [ovsdbTxnCommit, hdetermine] at h
  dsimp only at h
  split at h
  · obtain ⟨db₂, heq, -⟩ := ovsdbTxnAbort_restores env h₁.2.1.wf
    rw [heq] at h
    cases h
  have hcheck := checkRows_onward (S := S) env h₁.2.1.wf h₁.2.2
  cases hrows : checkRows S env db₁ with
  | error e₂ =>
    rw [hrows] at h hcheck
    exact habort e₂.1 (h₁.2.1.above.trans hcheck.1) hcheck.2 h
  | ok db₂ =>
    rw [hrows] at h hcheck
    obtain ⟨db₃, hversion, h₃, hindexes, hnew⟩ := updateVersion_pass env hcheck.1.wf
    dsimp only at h
    rw [hversion] at h
    dsimp only at h
    split at h
    · exact habort (.replica _) (h₁.2.1.above.trans (hcheck.1.trans h₃).above) trivial h
    obtain ⟨db₄, hend⟩ := finalizeCommit_ok (S := S) env fun x hx i hi => by
      rw [hindexes]
      exact hcheck.2 x (hnew x hx) i hi
    rw [hend] at h
    cases h

end LinkerOvs.Ovsdb
