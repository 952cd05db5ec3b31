/-
What the passes of a commit keep up to the check of the indexes, whatever the references are and whether they fail or
not: the database under the transaction is the same.
-/
import LinkerOvs.Ovsdb.TxnRows

namespace LinkerOvs.Ovsdb

open Db List

variable {τ : Type} [DecidableEq τ] {S : Schema τ} {env : Env τ} {pass : Pass} {db db' db'' db₀ : Db τ} {x y : RowId τ}
  {r r' r'' row : Row τ} {t t₀ : TxnRow τ}

/-- An error of the code, not of a loop that has had too many turns. -/
def Err.InTurns : Err τ → Prop
  | .turns => False
  | _ => True

/-! ## The loop -/

variable {cb : RowId τ → Db τ → Outcome τ (Db τ)} {delta : Int} {c : Column τ}

variable (env pass cb db₀) in
theorem forEachTxnRow_meets {I : List (RowId τ) → Db τ → Prop}
    {E : Err τ × Db τ → Prop} (hids : ∀ done db, I done db → ∀ x, db.InTxn x → x ∈ db₀.ids)
    (hvisit : ∀ done db x, I done db → db.InTxn x → x ∉ done → (cb x db).Meets E (I (x :: done))) (h₀ : I [] db₀) :
    (forEachTxnRow env pass cb db₀).Meets E fun db => ∃ done, I done db ∧ ∀ x, db.InTxn x → x ∈ done := by
  have hloop := Worklist.forEach_meets (fun db : Db τ => db.txnRows.map TxnRow.id) (env.pick pass) cb
    (fun db => (.turns, db)) (U := db₀.ids) (I := I) (E := E)
    (fun done db hI x hx => hids done db hI x (inTxn_iff.2 hx))
    (fun done db x hI hx hfresh => hvisit done db x hI (inTxn_iff.2 hx) hfresh)
    (db₀.rows.length + db₀.txnRows.length) [] db₀ nodup_nil (nil_subset _)
    (by rw [ids, length_append, length_map, length_map]; exact Nat.le_add_right _ _) h₀
  refine hloop.mono ?_
  rintro db ⟨done, hI, hdone⟩
  exact ⟨done, hI, fun x hx => hdone x (inTxn_iff.1 hx)⟩

theorem forEachTxnRow_within {R : Db τ → Db τ → Prop} {P : Err τ → Prop}
    (htrans : ∀ a b c, R a b → R b c → R a c) (hids : ∀ db, R db₀ db → ∀ x, db.InTxn x → x ∈ db₀.ids)
    (hcb : ∀ db x, R db₀ db → db.InTxn x → Except.Within R P db (cb x db)) (hrefl : R db₀ db₀) :
    Except.Within R P db₀ (forEachTxnRow env pass cb db₀) := by
  have hloop : (forEachTxnRow env pass cb db₀).Meets (fun e => R db₀ e.2 ∧ P e.1) fun db =>
      ∃ done, R db₀ db ∧ ∀ x, db.InTxn x → x ∈ done :=
    forEachTxnRow_meets env pass db₀ cb (I := fun _ db => R db₀ db) (fun _ db h => hids db h)
      (fun _ db x h hx _ => Except.Within.after htrans h (hcb db x h hx)) hrefl
  refine hloop.mono ?_
  rintro db ⟨_, h, _⟩
  exact h

/-! ## Changing a row of the transaction -/

theorem Db.WellFormed.weak_ne (hwf : db.WellFormed) (h : db.newRow x = none) : ∀ w ∈ db.txnWeakRefs, w.1 ≠ x := by
  rintro w hw rfl
  have hsome := hwf.weak_new w hw
  simp_all

theorem onward_setTxnRow_same (hwf : db.WellFormed) (h : db.findTxnRow t.id = some t₀) (hold : t.old = t₀.old)
    (hnew : t.new = t₀.new) : Onward db (db.setTxnRow t) := by
  refine onward_setTxnRow h hwf hold ?_ ?_
  · intro r hr
    rw [hnew] at hr
    rw [hwf.new_id t₀ (findTxnRow_id h).1 r hr, (findTxnRow_id h).2]
  · cases hsome : t.new with
    | some r => exact .inl rfl
    | none => exact .inr (hwf.weak_ne (by rw [newRow_of_txn h, ← hnew, hsome]))

/-! ## Reference counts -/

/-- A step of the passes before weak references come up. -/
def Collects (db db' : Db τ) : Prop := db.txnWeakRefs = [] ∧ Onward db db' ∧ db'.txnWeakRefs = []

theorem Collects.trans (a b c : Db τ) (h : Collects a b) (h' : Collects b c) : Collects a c :=
  ⟨h.1, h.2.1.trans h'.2.1, h'.2.2⟩

theorem Collects.refl (hwf : db.WellFormed) (h : db.txnWeakRefs = []) : Collects db db := ⟨h, .refl hwf, h⟩

theorem Collects.after (h : Collects db db') : Collects db' db' := .refl h.2.1.wf h.2.2

theorem Db.Pulls.collects (h : Pulls db db') (hweak : db.txnWeakRefs = []) : Collects db db' :=
  ⟨hweak, h.toOnward, h.txnWeakRefs.trans hweak⟩

omit [DecidableEq τ] in
theorem within_wrapBug {R : Db τ → Db τ → Prop} {x : Outcome τ (Db τ)} {what : Bug}
    (h : Except.Within R Err.InTurns db x) : Except.Within R Err.InTurns db (wrapBug what x) := by
  cases x with
  | ok db' => exact h
  | error e => exact ⟨h.1, trivial⟩

section Collects

variable (hwf : db.WellFormed) (hweak : db.txnWeakRefs = [])
include hwf hweak

theorem addRefs_collects (delta : Int) : Collects db (addRefs db x delta) := by
  rw [addRefs]
  cases h : db.findTxnRow x with
  | none => exact .refl hwf hweak
  | some t =>
    have hid := findTxnRow_self h
    exact ⟨hweak, onward_setTxnRow_same hwf hid rfl rfl, hweak⟩

theorem adjustAtomRef_collects {column : Nat} :
    Except.Within Collects Err.InTurns db (adjustAtomRef r column delta db x) := by
  rw [adjustAtomRef]
  split
  · exact .ok (.refl hwf hweak)
  split
  · exact .error (.refl hwf hweak) trivial
  · rename_i db' hmake
    have hpulls := (findOrMakeTxnRow_some hwf hmake).collects hweak
    exact .ok (hpulls.trans _ _ _ (addRefs_collects hpulls.2.1.wf hpulls.2.2 delta))

theorem adjustAtomRefs_collects {column : Nat} {base : BaseType τ} {atoms : List Atom} :
    Except.Within Collects Err.InTurns db (ovsdbTxnAdjustAtomRefs r column base atoms delta db) :=
  .foldlM Collects.trans (fun _ _ _ h => adjustAtomRef_collects h.2.1.wf h.2.2) (.refl hwf hweak)

theorem adjustRowRefs_collects :
    Except.Within Collects Err.InTurns db (ovsdbTxnAdjustRowRefs r c delta db) :=
  .bind Collects.trans (adjustAtomRefs_collects hwf hweak) fun _ h => adjustAtomRefs_collects h.2.1.wf h.2.2

theorem updateColumnRefCount_collects {old new : Option (Row τ)} :
    Except.Within Collects Err.InTurns db (updateColumnRefCount old new db c) := by
  cases old with
  | none =>
    cases new with
    | none => exact .ok (.refl hwf hweak)
    | some new => exact adjustRowRefs_collects hwf hweak
  | some old =>
    refine .bind Collects.trans (within_wrapBug (adjustRowRefs_collects hwf hweak)) fun db' h => ?_
    cases new with
    | none => exact .ok h.after
    | some new => exact adjustRowRefs_collects h.2.1.wf h.2.2

theorem updateRowRefCount_collects :
    Except.Within Collects Err.InTurns db (updateRowRefCount S x db) := by
  rw [updateRowRefCount]
  split
  · exact .error (.refl hwf hweak) trivial
  · exact .foldlM Collects.trans (fun _ _ _ h => updateColumnRefCount_collects h.2.1.wf h.2.2) (.refl hwf hweak)

theorem checkRefCount_collects :
    Except.Within Collects Err.InTurns db (checkRefCount x db) := by
  rw [checkRefCount]
  split
  · exact .error (.refl hwf hweak) trivial
  · split
    · exact .ok (.refl hwf hweak)
    · exact .error (.refl hwf hweak) trivial

/-! ## Garbage -/

omit hwf hweak in
theorem getRow_addRefs (delta : Int) : (addRefs db x delta).getRow y = db.getRow y := by
  rw [addRefs]
  cases h : db.findTxnRow x with
  | none => rfl
  | some t =>
    have hid := findTxnRow_self h
    dsimp only
    rw [getRow_setTxnRow (t := { t with nRefs := t.nRefs + delta }) hid]
    split
    · rename_i hy
      rw [hy, getRow_of_txn hid]
    · rfl

end Collects

/-- The ids of the rows that are there. -/
def Db.live (db : Db τ) : List (RowId τ) := db.ids.filter fun x => (db.getRow x).isSome

/-- A step of garbage collection: no row comes up. -/
structure Drops (db db' : Db τ) : Prop where
  collects : Collects db db'
  getRow : ∀ x, (db'.getRow x).isSome → (db.getRow x).isSome

theorem Drops.trans (a b c : Db τ) (h : Drops a b) (h' : Drops b c) : Drops a c :=
  ⟨h.collects.trans _ _ _ h'.collects, fun x hx => h.getRow x (h'.getRow x hx)⟩

theorem Drops.refl (hwf : db.WellFormed) (hweak : db.txnWeakRefs = []) : Drops db db := ⟨.refl hwf hweak, fun _ => id⟩

theorem Drops.wf (h : Drops db db') : db'.WellFormed := h.collects.2.1.wf

theorem Drops.live_subperm (h : Drops db db') : db'.live <+~ db.live := by
  refine (h.wf.nodup.filter _).subperm fun x hx => ?_
  obtain ⟨hids, hsome⟩ := mem_filter.1 hx
  exact mem_filter.2 ⟨(h.collects.2.1.ids x).1 hids, h.getRow x hsome⟩

section Garbage

variable (hwf : db.WellFormed) (hweak : db.txnWeakRefs = []) {collect : RowId τ → Db τ → Outcome τ (Db τ)} {n : Nat}
  (hcollect : ∀ db x, db.WellFormed → db.txnWeakRefs = [] → db.live.length ≤ n →
    Except.Within Drops Err.InTurns db (collect x db))
include hwf hweak hcollect

theorem deleteRowRef_drops (hlive : db.live.length ≤ n) :
    Except.Within Drops Err.InTurns db (deleteRowRef collect row db x) := by
  rw [deleteRowRef]
  split
  · exact .ok (.refl hwf hweak)
  split
  · exact .error (.refl hwf hweak) trivial
  rename_i db' hmake
  have hpulls : Drops db db' := by
    have h := findOrMakeTxnRow_some hwf hmake
    exact ⟨h.collects hweak, fun x hx => h.getRow x ▸ hx⟩
  split
  · exact .error hpulls trivial
  split
  · exact .error hpulls trivial
  split
  · exact .error hpulls trivial
  · have hadd : Drops db (addRefs db' x (-1)) := by
      refine hpulls.trans _ _ _ ⟨addRefs_collects hpulls.wf hpulls.collects.2.2 (-1), fun y hy => ?_⟩
      rwa [getRow_addRefs] at hy
    split
    · exact .after Drops.trans hadd
        (hcollect _ x hadd.wf hadd.collects.2.2 (hadd.live_subperm.length_le.trans hlive))
    · exact .ok hadd

theorem deleteColumnRefs_drops (hlive : db.live.length ≤ n) {c : Column τ} :
    Except.Within Drops Err.InTurns db (deleteColumnRefs collect row db c) := by
  have hrefs : ∀ (base : BaseType τ) (atoms : List Atom) (db : Db τ), db.WellFormed → db.txnWeakRefs = [] →
      db.live.length ≤ n → Except.Within Drops Err.InTurns db (deleteRowRefs collect row base atoms db) := by
    intro base atoms db hwf hweak hlive
    refine .foldlM Drops.trans (fun db' x _ h => ?_) (.refl hwf hweak)
    exact deleteRowRef_drops h.wf h.collects.2.2 hcollect (h.live_subperm.length_le.trans hlive)
  refine .bind Drops.trans (hrefs _ _ db hwf hweak hlive) fun db' h => ?_
  exact hrefs _ _ db' h.wf h.collects.2.2 (h.live_subperm.length_le.trans hlive)

end Garbage

theorem destroyNew_eq_self (hweak : db.txnWeakRefs = []) : db.destroyNew x = db := by
  rw [destroyNew, hweak]
  exact congrArg (fun w => { db with txnWeakRefs := w }) hweak.symm

/-- Garbage collection, by induction on the depth of the calls: each of them takes out one row. -/
theorem deleteGarbageRow_drops : ∀ (depth : Nat) (x : RowId τ) (db : Db τ), db.WellFormed → db.txnWeakRefs = [] →
    db.live.length < depth → Except.Within Drops Err.InTurns db (deleteGarbageRow S depth x db)
  | 0, x, db, hwf, hweak, hlive => absurd hlive (Nat.not_lt_zero _)
  | depth + 1, x, db, hwf, hweak, hlive => by
    rw [deleteGarbageRow]
    split
    · exact .ok (.refl hwf hweak)
    split
    · exact .error (.refl hwf hweak) trivial
    rename_i t ht
    split
    · exact .error (.refl hwf hweak) trivial
    rename_i row hnew
    have hid := findTxnRow_self ht
    have hgone : Drops db (db.setTxnRow { t with new := none }) := by
      refine ⟨⟨hweak, onward_setTxnRow hid hwf rfl (fun r hr => by cases hr) (.inr ?_), hweak⟩, fun y hy => ?_⟩
      · simp [*]
      · rw [getRow_setTxnRow (t := { t with new := none }) hid] at hy
        grind
    have hless : (db.setTxnRow { t with new := none }).live.length < depth := by
      have hx : t.id ∈ db.live := by
        refine mem_filter.2 ⟨InTxn.mem_ids (Option.isSome_iff_exists.2 ⟨t, hid⟩), ?_⟩
        rw [getRow_of_txn hid, hnew]
        rfl
      have hx' : t.id ∉ (db.setTxnRow { t with new := none }).live := by
        intro hmem
        have hsome := (mem_filter.1 hmem).2
        rw [getRow_setTxnRow (t := { t with new := none }) hid, if_pos rfl] at hsome
        cases hsome
      have hle := hgone.live_subperm.length_le
      have hne : (db.setTxnRow { t with new := none }).live.length ≠ db.live.length := by
        intro heq
        exact hx' ((hgone.live_subperm.perm_of_length_le heq.ge).mem_iff.2 hx)
      omega
    refine .after Drops.trans hgone (.bind Drops.trans (.foldlM Drops.trans ?_ (.refl hgone.wf hgone.collects.2.2)) ?_)
    · intro db' c _ h
      exact deleteColumnRefs_drops h.wf h.collects.2.2 (n := depth - 1)
        (fun db x hwf hweak hlive => deleteGarbageRow_drops depth x db hwf hweak (by omega))
        (h.live_subperm.length_le.trans (by omega))
    · intro db' h
      rw [destroyNew_eq_self h.collects.2.2]
      exact .ok (.refl h.wf h.collects.2.2)

section Collects

variable (hwf : db.WellFormed) (hweak : db.txnWeakRefs = [])
include hwf hweak

/-- The depth of the calls is enough. -/
theorem collectGarbage_collects :
    Except.Within Collects Err.InTurns db (collectGarbage S x db) := by
  rw [collectGarbage]
  split
  · exact .error (.refl hwf hweak) trivial
  split
  · have hlive : db.live.length < db.rows.length + db.txnRows.length + 1 := by
      have hle : db.live.length ≤ db.ids.length := length_filter_le ..
      rw [ids, length_append, length_map, length_map] at hle
      exact Nat.lt_succ_of_le hle
    have hdrops := deleteGarbageRow_drops (S := S) _ x db hwf hweak hlive
    exact hdrops.imp (fun _ he => ⟨he.1.collects, he.2⟩) fun _ h => h.collects
  · exact .ok (.refl hwf hweak)

theorem collects_pass
    (hcb : ∀ db x, db.WellFormed → db.txnWeakRefs = [] → Except.Within Collects Err.InTurns db (cb x db)) :
    Except.Within Collects Err.InTurns db (forEachTxnRow env pass cb db) :=
  forEachTxnRow_within Collects.trans (fun _ h _ hx => (h.2.1.ids _).1 hx.mem_ids)
    (fun db x h _ => hcb db x h.2.1.wf h.2.2) (.refl hwf hweak)

variable (env) in
theorem countAndCollect_collects :
    Except.Within Collects Err.InTurns db (countAndCollect S env db) := by
  refine .bind Collects.trans (collects_pass hwf hweak fun _ _ => updateRowRefCount_collects) fun db' h => ?_
  refine .bind Collects.trans (collects_pass h.2.1.wf h.2.2 fun _ _ => checkRefCount_collects) fun db'' h' => ?_
  exact within_wrapBug (collects_pass h'.2.1.wf h'.2.2 fun _ _ => collectGarbage_collects)

end Collects

/-! ## Weak references -/

theorem links_addWeak (hwf : db.WellFormed) (hsrc : (db.newRow x).isSome) :
    Links db { db with txnWeakRefs := db.txnWeakRefs ++ [(x, y)] } := by
  have hwf' : Db.WellFormed { db with txnWeakRefs := db.txnWeakRefs ++ [(x, y)] } := by
    refine ⟨hwf.nodup, hwf.old_id, hwf.new_id, fun w hw => ?_⟩
    rcases mem_append.1 hw with hw | hw
    · exact hwf.weak_new w hw
    · rw [mem_singleton.1 hw]
      exact hsrc
  exact ⟨⟨hwf', fun _ => Iff.rfl, fun _ => rfl, rfl, rfl⟩, id⟩

theorem addWeakRef_links (hwf : db.WellFormed) (hsrc : db.newRow x = some r) (hdst : db.getRow row.id = some row) :
    Links db (addWeakRef db x row) := by
  rw [addWeakRef]
  split
  · exact .refl hwf
  have hpulls := pulls_modify hwf hdst
  dsimp only
  split
  · exact hpulls.toLinks
  · refine hpulls.toLinks.trans (links_addWeak hpulls.wf ?_)
    rw [hpulls.toLinks.newRow hsrc]
    rfl

theorem pruneWeakRefs_links (table : τ) (atom : Atom × Atom → Atom) : ∀ (datum : Datum) (db : Db τ), db.WellFormed →
    db.newRow x = some r → Links db (pruneWeakRefs x table atom datum db).2.2
  | [], db, hwf, _ => .refl hwf
  | p :: datum, db, hwf, hsrc => by
    rw [pruneWeakRefs]
    cases hrow : db.getRow (table, (atom p).toUuid) with
    | some row =>
      have hlink := addWeakRef_links hwf hsrc (by rw [hwf.getRow_id hrow]; exact hrow)
      exact hlink.trans (pruneWeakRefs_links table atom datum _ hlink.wf (hlink.newRow hsrc))
    | none => exact pruneWeakRefs_links table atom datum db hwf hsrc

theorem pruneBase_links (base : BaseType τ) (atom : Atom × Atom → Atom) (datum : Datum) (hwf : db.WellFormed)
    (hsrc : db.newRow x = some r) : Links db (pruneBase x base atom datum db).2.2 := by
  rw [pruneBase]
  split
  · exact pruneWeakRefs_links _ _ datum db hwf hsrc
  · exact .refl hwf

theorem Onward.trans' (a b c : Db τ) (h : Onward a b) (h' : Onward b c) : Onward a c := h.trans h'

theorem assessColumn_onward (hwf : db.WellFormed) : Except.Within Onward Err.InTurns db (assessColumn x db c) := by
  rw [assessColumn]
  split
  · exact .error (.refl hwf) trivial
  next row hrow =>
  have hkeys := pruneBase_links c.key Prod.fst (row.field c.index) hwf hrow
  dsimp only
  generalize pruneBase x c.key Prod.fst (row.field c.index) db = pruned at hkeys ⊢
  obtain ⟨keys, keyZero, db₁⟩ := pruned
  have hvalues := pruneBase_links c.value Prod.snd keys hkeys.wf (hkeys.newRow hrow)
  generalize pruneBase x c.value Prod.snd keys db₁ = pruned at hvalues ⊢
  obtain ⟨values, valueZero, db₂⟩ := pruned
  have hlink : Onward db db₂ := (hkeys.trans hvalues).toOnward
  split
  · exact .ok hlink
  split
  · exact .error hlink trivial
  next t ht =>
  have hid := findTxnRow_self ht
  have hset := hlink.trans (onward_setTxnRow (t := { t with
    new := some { row with fields := row.fields.set c.index values }
    changed := c.index :: t.changed }) hid hlink.wf rfl (fun r hr => ?_) (.inl rfl))
  · split
    · exact .error hset trivial
    · exact .ok hset
  · cases hr
    have hnew := (hkeys.trans hvalues).newRow hrow
    rw [newRow_of_txn ht] at hnew
    exact hlink.wf.new_id t (findTxnRow_id ht).1 row hnew

theorem markSource_onward (hwf : db.WellFormed) :
    Except.Within Onward Err.InTurns db (markSource db x) := by
  rw [markSource]
  split
  · exact .ok (.refl hwf)
  rename_i hnone
  split
  · rename_i row hrow
    obtain rfl := (Keyed.find_some hrow).2
    exact .ok (pulls_modify hwf (by rw [getRow_of_not_txn hnone, hrow])).toOnward
  · exact .error (.refl hwf) trivial

theorem assessWeakRefs_eq (h : db.findTxnRow x = some t) : assessWeakRefs S x db =
    ((if t.old.isSome then ((db.weakRefs.filter fun w => w.2 = x).map Prod.fst).foldlM markSource db else .ok db) >>=
      fun db => if t.new.isNone then .ok db else (S.columns x.1).foldlM (assessColumn x) db) := by
  rw [assessWeakRefs, h]
  dsimp only
  split <;> split <;> rfl

theorem assessWeakRefs_onward (hwf : db.WellFormed) :
    Except.Within Onward Err.InTurns db (assessWeakRefs S x db) := by
  cases ht : db.findTxnRow x with
  | none =>
    rw [assessWeakRefs, ht]
    exact .error (.refl hwf) trivial
  | some t =>
    rw [assessWeakRefs_eq ht]
    refine .bind Onward.trans' ?_ fun db' h => ?_
    · split
      · exact .foldlM Onward.trans' (fun _ _ _ h => markSource_onward h.wf) (.refl hwf)
      · exact .ok (.refl hwf)
    · split
      · exact .ok (.refl h.wf)
      · exact .foldlM Onward.trans' (fun _ _ _ h => assessColumn_onward h.wf) (.refl h.wf)

variable (env) in
theorem assessWeakRefs_pass (hwf : db.WellFormed) : Except.Within Onward Err.InTurns db
    (forEachTxnRow env .assessWeakRefs (assessWeakRefs S) db) :=
  forEachTxnRow_within Onward.trans' (fun _ h _ hx => (h.ids _).1 hx.mem_ids)
    (fun _ _ h _ => assessWeakRefs_onward h.wf) (.refl hwf)

end LinkerOvs.Ovsdb
