/-
What conditions mean: a datum is a set of elements or of pairs, and a clause compares the sets of the column and of the
argument. Clauses on columns of any type other than an optional scalar have their meaning; those on an optional scalar
have it unless the column and the argument are both empty, only the argument is, or the argument of "excludes" holds
the value behind its first element.
-/
import LinkerOvs.Ovsdb.Condition

namespace LinkerOvs.Ovsdb

open List

open Json (Value)

/-! ## The order of atoms -/

/-- What an atom stands for in the order of its type: a number by its value and a string by its bytes. -/
def Atom.key : Atom → List ℤ
  | .void => []
  | .integer i => [i]
  | .real x => [x.rank]
  | .boolean b => [(b.toNat : ℤ)]
  | .string s => s.map fun c => (c.toNat : ℤ)
  | .uuid u => [(u.toNat : ℤ)]

theorem compares_singleton {o : Ordering} {a b : ℤ} (h : o.Compares a b) : o.Compares [a] [b] := by
  cases o with
  | lt => exact cons_lt_cons_iff.2 (.inl h)
  | eq => exact congrArg (fun x => [x]) h
  | gt => exact cons_lt_cons_iff.2 (.inl h)

theorem compares_nat (m n : Nat) : (cmp m n).Compares (m : ℤ) n := by
  have hcast : cmp m n = cmp (m : ℤ) n := by simp only [cmp, cmpUsing, Nat.cast_lt]
  rw [hcast]
  exact cmp_compares _ _

theorem strcmp_compares : ∀ a b, (strcmp a b).Compares (Atom.key (.string a)) (Atom.key (.string b))
  | [], [] => rfl
  | [], _ :: _ => nil_lt_cons _ _
  | _ :: _, [] => nil_lt_cons _ _
  | a :: as, b :: bs => by
    have hlt : ∀ {x y : UInt8}, x < y → (x.toNat : ℤ) < y.toNat :=
      fun h => Nat.cast_lt.2 (UInt8.lt_iff_toNat_lt.1 h)
    show (if a < b then Ordering.lt else if b < a then .gt else strcmp as bs).Compares
      ((a.toNat : ℤ) :: Atom.key (.string as)) (b.toNat :: Atom.key (.string bs))
    split
    · rename_i hab
      exact cons_lt_cons_iff.2 (.inl (hlt hab))
    split
    · rename_i hba
      exact cons_lt_cons_iff.2 (.inl (hlt hba))
    rename_i hab hba
    have heq : a = b := UInt8.le_antisymm (UInt8.not_lt.1 hba) (UInt8.not_lt.1 hab)
    have ih := strcmp_compares as bs
    rw [heq]
    cases hs : strcmp as bs with
    | lt =>
      simp_all
    | eq =>
      simp_all
    | gt =>
      simp_all

/-- Two atoms of one type. -/
@[elab_as_elim]
theorem Atom.sameType {motive : Atom → Atom → Prop} {a b : Atom} (h : a.type = b.type) (void : motive .void .void)
    (integer : ∀ i j, motive (.integer i) (.integer j)) (real : ∀ x y, motive (.real x) (.real y))
    (boolean : ∀ x y, motive (.boolean x) (.boolean y)) (string : ∀ x y, motive (.string x) (.string y))
    (uuid : ∀ x y, motive (.uuid x) (.uuid y)) : motive a b := by
  cases a <;> cases b <;> first | cases h; done | apply_assumption

theorem compare3way_compares {a b : Atom} (h : a.type = b.type) :
    (ovsdbAtomCompare3way a b).Compares a.key b.key := by
  refine Atom.sameType h rfl (fun i j => ?_) (fun x y => ?_) (fun x y => ?_) strcmp_compares fun x y => ?_
  · exact compares_singleton (cmp_compares i j)
  · exact compares_singleton (cmp_compares x.rank y.rank)
  · exact compares_singleton (compares_nat _ _)
  · exact compares_singleton (compares_nat _ _)

theorem atomEquals_iff {a b : Atom} (h : a.type = b.type) : ovsdbAtomEquals a b = true ↔ a.key = b.key := by
  refine Atom.sameType h (iff_of_true rfl rfl) (fun i j => ?_) (fun x y => ?_) (by decide) (fun x y => ?_) fun x y => ?_
  · simp [ovsdbAtomEquals, Atom.key]
  · simp [ovsdbAtomEquals, Atom.key]
  · have hinj : Function.Injective fun c : UInt8 => (c.toNat : ℤ) :=
      fun _ _ h => UInt8.toNat_inj.1 (Nat.cast_injective h)
    simp [ovsdbAtomEquals, Atom.key, (map_injective_iff.2 hinj).eq_iff]
  · simp [ovsdbAtomEquals, Atom.key, BitVec.toNat_eq]

/-! ## Data of a type -/

/-- A datum of a type: atoms of the type, in order and without repetition, and as many as it allows. -/
structure OvsdbType.Has (t : OvsdbType) (d : Datum) : Prop where
  keys : ∀ p ∈ d, p.1.type = t.key
  values : ∀ p ∈ d, p.2.type = t.value
  sorted : d.Pairwise fun p q => p.1.key < q.1.key
  nMin : t.nMin ≤ d.length
  nMax : d.length ≤ t.nMax

/-- What a pair of a datum stands for. -/
def pairKey (p : Atom × Atom) : List ℤ × List ℤ := (p.1.key, p.2.key)

/-- The set that a datum is: of elements with a void value, or of pairs. -/
def Datum.pairs (d : Datum) : Set (List ℤ × List ℤ) := {x | ∃ p ∈ d, pairKey p = x}

section Search

variable {t : OvsdbType} {d : Datum} {k : Atom}

section

variable (h : t.Has d)
include h

theorem OvsdbType.Has.getD_type {i : Nat} (hi : i < d.length) :
    (d.getD i (.void, .void)).1.type = t.key := by
  rw [getD_eq_getElem _ _ hi]
  exact h.keys _ (getElem_mem hi)

theorem OvsdbType.Has.getD_lt {i j : Nat} (hij : i < j) (hj : j < d.length) :
    (d.getD i (.void, .void)).1.key < (d.getD j (.void, .void)).1.key := by
  rw [getD_eq_getElem _ _ hj, getD_eq_getElem _ _ (hij.trans hj)]
  exact pairwise_iff_getElem.1 h.sorted i j _ _ hij

theorem OvsdbType.Has.ordered (hk : k.type = t.key) :
    Search.Ordered (fun i => ovsdbAtomCompare3way k (d.getD i (.void, .void)).1) d.length := by
  have hcmp : ∀ i < d.length, (ovsdbAtomCompare3way k (d.getD i (.void, .void)).1).Compares k.key
      (d.getD i (.void, .void)).1.key :=
    fun i hi => compare3way_compares (hk.trans (h.getD_type hi).symm)
  constructor
  · intro i j hij hj hlt
    exact (hcmp j hj).eq_lt.2 (((hcmp i (hij.trans hj)).eq_lt.1 hlt).trans (h.getD_lt hij hj))
  · intro i j hij hj hgt
    exact (hcmp i (hij.trans hj)).eq_gt.2 ((h.getD_lt hij hj).trans ((hcmp j hj).eq_gt.1 hgt))

theorem findKey_some (hk : k.type = t.key) {i : Nat} (hi : ovsdbDatumFindKey d k = some i) :
    i < d.length ∧ (d.getD i (.void, .void)).1.key = k.key := by
  obtain ⟨_, hlt, heq⟩ := Search.find_eq_some hi
  exact ⟨hlt, ((compare3way_compares (hk.trans (h.getD_type hlt).symm)).eq_eq.1 heq).symm⟩

theorem findKey_none (hk : k.type = t.key) (hnone : ovsdbDatumFindKey d k = none) :
    ∀ p ∈ d, p.1.key ≠ k.key := by
  intro p hp heq
  obtain ⟨i, hi, rfl⟩ := getElem_of_mem hp
  refine Search.find_eq_none (h.ordered hk) le_rfl hnone i (Nat.zero_le i) hi ?_
  refine (compare3way_compares (hk.trans (h.getD_type hi).symm)).eq_eq.2 ?_
  simp [*]

theorem OvsdbType.Has.eq_of_key {p q : Atom × Atom} (hp : p ∈ d) (hq : q ∈ d)
    (hkey : p.1.key = q.1.key) : p = q := by
  obtain ⟨i, hi, rfl⟩ := getElem_of_mem hp
  obtain ⟨j, hj, rfl⟩ := getElem_of_mem hq
  rcases Nat.lt_trichotomy i j with hlt | rfl | hgt
  · exact absurd hkey (pairwise_iff_getElem.1 h.sorted i j hi hj hlt).ne
  · rfl
  · exact absurd hkey (pairwise_iff_getElem.1 h.sorted j i hj hi hgt).ne'

theorem find_isSome_iff {p : Atom × Atom} (hk : p.1.type = t.key) (hv : p.2.type = t.value) :
    (ovsdbDatumFind p d).isSome = true ↔ pairKey p ∈ Datum.pairs d := by
  rw [ovsdbDatumFind]
  cases hfind : ovsdbDatumFindKey d p.1 with
  | none =>
    refine iff_of_false (by simp) ?_
    rintro ⟨q, hq, heq⟩
    exact findKey_none h hk hfind q hq (congrArg Prod.fst heq)
  | some i =>
    obtain ⟨hi, hkey⟩ := findKey_some h hk hfind
    have hmem : d.getD i (.void, .void) ∈ d := by
      simp [*]
    have hvalue := atomEquals_iff ((h.values _ hmem).trans hv.symm)
    dsimp only
    by_cases heq : ovsdbAtomEquals (d.getD i (.void, .void)).2 p.2 = true
    · rw [if_pos heq]
      exact iff_of_true rfl ⟨_, hmem, Prod.ext hkey (hvalue.1 heq)⟩
    rw [if_neg heq]
    refine iff_of_false (by simp) ?_
    rintro ⟨q, hq, hpair⟩
    cases h.eq_of_key hq hmem ((congrArg Prod.fst hpair).trans hkey.symm)
    exact heq (hvalue.2 (congrArg Prod.snd hpair))

end

end Search

/-! ## Sets of pairs -/

section Sets

variable {t u : OvsdbType} {a b : Datum}

def OvsdbType.SameAtoms (t u : OvsdbType) : Prop := t.key = u.key ∧ t.value = u.value

theorem OvsdbType.Has.nodup (h : t.Has a) : (a.map pairKey).Nodup :=
  pairwise_map.2 (h.sorted.imp fun hlt heq => hlt.ne (congrArg Prod.fst heq))

theorem mem_pairs {x : List ℤ × List ℤ} : x ∈ Datum.pairs a ↔ x ∈ a.map pairKey := by
  rw [mem_map]
  rfl

theorem includesAll_iff (hab : t.SameAtoms u) (ha : t.Has a) (hb : u.Has b) :
    ovsdbDatumIncludesAll a b = true ↔ Datum.pairs a ⊆ Datum.pairs b := by
  have hfind : ∀ p ∈ a, ((ovsdbDatumFind p b).isSome = true ↔ pairKey p ∈ Datum.pairs b) :=
    fun p hp => find_isSome_iff hb ((ha.keys p hp).trans hab.1) ((ha.values p hp).trans hab.2)
  have hall : (a.all fun p => (ovsdbDatumFind p b).isSome) = true ↔ Datum.pairs a ⊆ Datum.pairs b := by
    rw [all_eq_true]
    constructor
    · rintro h x ⟨p, hp, rfl⟩
      exact (hfind p hp).1 (h p hp)
    · intro h p hp
      exact (hfind p hp).2 (h ⟨p, hp, rfl⟩)
  rw [ovsdbDatumIncludesAll]
  by_cases hlen : b.length < a.length
  · -- a datum has no repetitions, so it has no more pairs than one it is included in
    rw [if_pos hlen]
    refine iff_of_false Bool.false_ne_true fun h => ?_
    have hsub : a.map pairKey ⊆ b.map pairKey := fun x hx => mem_pairs.1 (h (mem_pairs.2 hx))
    have hle := (subperm_of_subset ha.nodup hsub).length_le
    rw [length_map, length_map] at hle
    omega
  · rw [if_neg hlen, hall]

theorem excludesAll_iff (hab : t.SameAtoms u) (ha : t.Has a) (hb : u.Has b) :
    ovsdbDatumExcludesAll a b = true ↔ Disjoint (Datum.pairs a) (Datum.pairs b) := by
  have hfind : ∀ p ∈ a, ((ovsdbDatumFind p b).isNone = true ↔ pairKey p ∉ Datum.pairs b) := by
    intro p hp
    rw [← find_isSome_iff hb ((ha.keys p hp).trans hab.1) ((ha.values p hp).trans hab.2)]
    cases ovsdbDatumFind p b <;> simp
  rw [ovsdbDatumExcludesAll, all_eq_true, Set.disjoint_left]
  constructor
  · rintro h x ⟨p, hp, rfl⟩
    exact (hfind p hp).1 (h p hp)
  · intro h p hp
    exact (hfind p hp).2 (h ⟨p, hp, rfl⟩)

theorem datumEquals_iff_map (hab : t.SameAtoms u) (ha : t.Has a) (hb : u.Has b) :
    ovsdbDatumEquals a b = true ↔ a.map pairKey = b.map pairKey := by
  have hpair : ∀ p ∈ a, ∀ q ∈ b, (ovsdbAtomEquals p.1 q.1 = true ∧ ovsdbAtomEquals p.2 q.2 = true) ↔
      pairKey p = pairKey q := by
    intro p hp q hq
    rw [atomEquals_iff (((ha.keys p hp).trans hab.1).trans (hb.keys q hq).symm),
      atomEquals_iff (((ha.values p hp).trans hab.2).trans (hb.values q hq).symm)]
    exact (Prod.ext_iff (x := pairKey p) (y := pairKey q)).symm
  rw [ovsdbDatumEquals, decide_eq_true_iff, ← forall₂_eq_eq_eq, forall₂_map_left_iff, forall₂_map_right_iff,
    forall₂_iff_zip]
  refine and_congr_right fun _ => ⟨fun h p q hpq => ?_, fun h x hx => ?_⟩
  · exact (hpair p (of_mem_zip hpq).1 q (of_mem_zip hpq).2).1 (h _ hpq)
  · exact (hpair x.1 (of_mem_zip hx).1 x.2 (of_mem_zip hx).2).2 (h hx)

theorem datumEquals_iff (hab : t.SameAtoms u) (ha : t.Has a) (hb : u.Has b) :
    ovsdbDatumEquals a b = true ↔ Datum.pairs a = Datum.pairs b := by
  rw [datumEquals_iff_map hab ha hb]
  constructor
  · intro heq
    ext x
    rw [mem_pairs, mem_pairs, heq]
  · intro heq
    have hperm : (a.map pairKey).Perm (b.map pairKey) := by
      rw [perm_ext_iff_of_nodup ha.nodup hb.nodup]
      intro x
      rw [← mem_pairs, ← mem_pairs, heq]
    have hlt : ∀ {t : OvsdbType} {d : Datum}, t.Has d → (d.map pairKey).Pairwise fun x y => x.1 < y.1 :=
      fun h => pairwise_map.2 h.sorted
    exact hperm.eq_of_pairwise (fun x y _ _ hxy hyx => absurd (hxy.trans hyx) (lt_irrefl _)) (hlt ha) (hlt hb)

end Sets

/-! ## Data from JSON -/

section FromJson

variable {δ : Type} (R : AtomReader δ) {t : OvsdbType}

theorem atomFromJson_type {type : AtomicType} {json : Value δ} {a : Atom} (h : atomFromJson R type json = .ok a) :
    a.type = type := by
  rw [atomFromJson] at h
  cases hread : R.read type json with
  | error message =>
    rw [hread] at h
    cases h
  | ok b =>
    rw [hread] at h
    cases h
    exact R.typed _ _ _ hread

theorem isMap_eq_false_iff : t.isMap = false ↔ t.value = .void := by
  simp [OvsdbType.isMap]

theorem elementFromJson_type {element : Value δ} {p : Atom × Atom} (h : elementFromJson R t element = .ok p) :
    p.1.type = t.key ∧ p.2.type = t.value := by
  unfold elementFromJson at h
  by_cases hmap : t.isMap = true
  · rw [if_pos hmap] at h
    split at h
    · obtain ⟨k, hk, h⟩ := Except.bind_eq_ok h
      obtain ⟨v, hv, h⟩ := Except.bind_eq_ok h
      cases h
      exact ⟨atomFromJson_type R hk, atomFromJson_type R hv⟩
    · cases h
  · rw [if_neg hmap] at h
    obtain ⟨k, hk, h⟩ := Except.bind_eq_ok h
    cases h
    exact ⟨atomFromJson_type R hk, (isMap_eq_false_iff.1 (Bool.eq_false_iff.2 hmap)).symm⟩

theorem mapM_element_type {elems : List (Value δ)} {d : Datum} (h : elems.mapM (elementFromJson R t) = .ok d) :
    d.length = elems.length ∧ ∀ p ∈ d, p.1.type = t.key ∧ p.2.type = t.value := by
  induction elems generalizing d with
  | nil =>
    cases h
    exact ⟨rfl, fun p hp => by cases hp⟩
  | cons e elems ih =>
    rw [mapM_cons] at h
    obtain ⟨p, hp, h⟩ := Except.bind_eq_ok h
    obtain ⟨d', hd, h⟩ := Except.bind_eq_ok h
    cases h
    obtain ⟨hlen, htype⟩ := ih hd
    refine ⟨by rw [length_cons, length_cons, hlen], fun q hq => ?_⟩
    rcases mem_cons.1 hq with rfl | hq
    · exact elementFromJson_type R hp
    · exact htype q hq

theorem datumFromJson_typed {json : Value δ} {d : Datum} (h : datumFromJson R t json = .ok d) :
    (∀ p ∈ d, p.1.type = t.key ∧ p.2.type = t.value) ∧ t.nMin ≤ d.length ∧ d.length ≤ t.nMax := by
  rw [datumFromJson] at h
  by_cases hset : (t.isMap || startsSet json) = true
  · rw [if_pos hset] at h
    split at h
    · cases h
    · split at h
      · cases h
      · obtain ⟨hlen, htype⟩ := mapM_element_type R h
        exact ⟨htype, by omega, by omega⟩
  · rw [if_neg hset] at h
    obtain ⟨k, hk, h⟩ := Except.bind_eq_ok h
    cases h
    have hvoid : t.value = .void := by
      cases hmap : t.isMap with
      | true => simp [hmap] at hset
      | false => exact isMap_eq_false_iff.1 hmap
    refine ⟨forall_mem_singleton.2 ⟨atomFromJson_type R hk, hvoid.symm⟩, t.nMin_le, t.le_nMax⟩

theorem pairwise_lt_of_not_duplicate {type : AtomicType} : ∀ {d : Datum}, (∀ p ∈ d, p.1.type = type) →
    d.Pairwise (fun p q => p.1.key ≤ q.1.key) → hasDuplicate d = false → d.Pairwise fun p q => p.1.key < q.1.key
  | [], _, _, _ => List.Pairwise.nil
  | [_], _, _, _ => pairwise_singleton _ _
  | p :: q :: d, htype, hle, hdup => by
    obtain ⟨hfirst, hrest⟩ := pairwise_cons.1 hle
    rw [hasDuplicate, Bool.or_eq_false_iff] at hdup
    have hne : p.1.key ≠ q.1.key := fun heq => by
      have hsame := (htype p mem_cons_self).trans (htype q (mem_cons_of_mem _ mem_cons_self)).symm
      rw [(atomEquals_iff hsame).2 heq] at hdup
      exact Bool.noConfusion hdup.1
    have hpq : p.1.key < q.1.key := lt_of_le_of_ne (hfirst q mem_cons_self) hne
    refine pairwise_cons.2 ⟨?_, pairwise_lt_of_not_duplicate (fun r hr => htype r (mem_cons_of_mem _ hr)) hrest hdup.2⟩
    intro r hr
    rcases mem_cons.1 hr with rfl | hr
    · exact hpq
    · exact hpq.trans_le ((pairwise_cons.1 hrest).1 r hr)

theorem ovsdbDatumSort_has {d d' : Datum} (h : ovsdbDatumSort t d = .ok d')
    (htype : ∀ p ∈ d, p.1.type = t.key ∧ p.2.type = t.value) (hmin : t.nMin ≤ d.length) (hmax : d.length ≤ t.nMax) :
    t.Has d' := by
  rw [ovsdbDatumSort] at h
  by_cases hshort : d.length < 2
  · rw [if_pos hshort] at h
    cases h
    refine ⟨fun p hp => (htype p hp).1, fun p hp => (htype p hp).2, ?_, hmin, hmax⟩
    match d, hshort with
    | [], _ => exact List.Pairwise.nil
    | [_], _ => exact pairwise_singleton _ _
  rw [if_neg hshort] at h
  dsimp only at h
  have hperm := perm_insertionSort (fun p q : Atom × Atom => ovsdbAtomCompare3way p.1 q.1 ≠ .gt) d
  have hmap := map_insertionSort (fun p q : Atom × Atom => ovsdbAtomCompare3way p.1 q.1 ≠ .gt)
    (· ≤ ·) (fun p => p.1.key) d fun p hp q hq => by
      rw [Ne, (compare3way_compares ((htype p hp).1.trans (htype q hq).1.symm)).eq_gt, not_lt]
  have hle := pairwise_insertionSort (· ≤ ·) (d.map fun p => p.1.key)
  rw [← hmap, pairwise_map] at hle
  have htype' := fun p hp => htype p (hperm.mem_iff.1 hp)
  split at h
  · cases h
  rename_i hdup
  cases h
  exact ⟨fun p hp => (htype' p hp).1, fun p hp => (htype' p hp).2,
    pairwise_lt_of_not_duplicate (fun p hp => (htype' p hp).1) hle (Bool.eq_false_iff.2 hdup),
    by rw [hperm.length_eq]; exact hmin, by rw [hperm.length_eq]; exact hmax⟩

theorem ovsdbDatumFromJson_has {json : Value δ} {d : Datum} (h : ovsdbDatumFromJson R t json = .ok d) : t.Has d := by
  obtain ⟨raw, hraw, hsort⟩ := Except.bind_eq_ok h
  obtain ⟨htype, hmin, hmax⟩ := datumFromJson_typed R hraw
  exact ovsdbDatumSort_has hsort htype hmin hmax

end FromJson

/-! ## Clauses -/

/-- A row of a table, with a datum of its type in every column. -/
structure TableRow (ts : TableSchema) where
  fields : Nat → Datum
  valid : ∀ {name column type}, ts.getColumn name = some (column, type) → type.Has (fields column)

/-- The meaning of a function for a column and an argument: sets are compared as sets, and the order relations hold
between the two values if there are two. -/
def OvsdbFunction.Holds (function : OvsdbFunction) (field arg : Datum) : Prop :=
  match function with
  | .eq => field.pairs = arg.pairs
  | .ne => field.pairs ≠ arg.pairs
  | .includes => arg.pairs ⊆ field.pairs
  | .excludes => Disjoint arg.pairs field.pairs
  | .lt => ∃ x ∈ field, ∃ y ∈ arg, x.1.key < y.1.key
  | .le => ∃ x ∈ field, ∃ y ∈ arg, x.1.key ≤ y.1.key
  | .gt => ∃ x ∈ field, ∃ y ∈ arg, y.1.key < x.1.key
  | .ge => ∃ x ∈ field, ∃ y ∈ arg, y.1.key ≤ x.1.key

/-- The evaluation returns whether the clause holds. -/
def Clause.Agrees (c : Clause) (row : Nat → Datum) : Prop :=
  ∃ b, ovsdbClauseEvaluate row c = .ok b ∧ (b = true ↔ c.function.Holds (row c.column) c.arg)

/-- What has to be so for an optional scalar: an empty column is not compared with an empty argument, a value is
compared with a value, and "excludes" does not find it behind the first element of the argument. -/
structure Clause.Clear (c : Clause) (field : Datum) : Prop where
  empty : field = [] → c.arg = [] → c.function ≠ .eq ∧ c.function ≠ .ne ∧ c.function ≠ .includes
  value : field ≠ [] → c.arg ≠ []
  first : c.function = .excludes → ∀ x ∈ field, ∀ y ∈ c.arg.tail, y.1.key ≠ x.1.key

section Accepted

variable {δ : Type} {R : AtomReader δ} {ts : TableSchema} {json : Value δ} {c : Clause}

/-- A clause that is accepted is about a column of the table, and its argument is of the relaxed type. -/
theorem clauseFromJson_accepted (h : ovsdbClauseFromJson R ts json = .ok c) :
    (∃ name, ts.getColumn name = some (c.column, c.type)) ∧
      ∃ relaxed, relaxType c.function c.type = some relaxed ∧ relaxed.Has c.arg := by
  unfold ovsdbClauseFromJson at h
  split at h
  · split at h
    · cases h
    rename_i hcol
    split at h
    · cases h
    split at h
    · cases h
    rename_i hrelax
    split at h
    · cases h
    · rename_i harg
      cases h
      exact ⟨⟨_, hcol⟩, _, hrelax, ovsdbDatumFromJson_has R harg⟩
  · cases h

end Accepted

section Relaxed

variable {f : OvsdbFunction} {t u : OvsdbType}

theorem relaxType_cases (h : relaxType f t = some u) : u = t ∨
    t.isScalar = false ∧ t.SameAtoms u ∧ (f = .excludes ∨ f = .includes ∧ u.nMax = t.nMax) := by
  have horder : (if (t.isScalar || t.isOptionalScalar) && (t.key = .integer || t.key = .real) then some t else none) =
      some u → u = t := by
    grind
  cases f with
  | eq => exact .inl (Option.some.inj h).symm
  | ne => exact .inl (Option.some.inj h).symm
  | lt => exact .inl (horder h)
  | le => exact .inl (horder h)
  | gt => exact .inl (horder h)
  | ge => exact .inl (horder h)
  | excludes =>
    simp only [relaxType] at h
    split at h
    · exact .inl (Option.some.inj h).symm
    · rename_i hs
      cases h
      exact .inr ⟨Bool.eq_false_iff.2 hs, ⟨rfl, rfl⟩, .inl rfl⟩
  | includes =>
    simp only [relaxType] at h
    split at h
    · exact .inl (Option.some.inj h).symm
    · rename_i hs
      cases h
      exact .inr ⟨Bool.eq_false_iff.2 hs, ⟨rfl, rfl⟩, .inr ⟨rfl, rfl⟩⟩

theorem relaxType_sameAtoms (h : relaxType f t = some u) : t.SameAtoms u := by
  rcases relaxType_cases h with rfl | ⟨_, hsame, _⟩
  · exact ⟨rfl, rfl⟩
  · exact hsame

theorem relaxType_nMax (hf : f ≠ .excludes) (h : relaxType f t = some u) : u.nMax = t.nMax := by
  rcases relaxType_cases h with rfl | ⟨_, _, hf' | ⟨_, hmax⟩⟩
  · rfl
  · exact absurd hf' hf
  · exact hmax

theorem relaxType_order (hs : t.isScalar = false) (ho : t.isOptionalScalar = false) (h : relaxType f t = some u) :
    f = .eq ∨ f = .ne ∨ f = .includes ∨ f = .excludes := by
  cases f with
  | eq => exact .inl rfl
  | ne => exact .inr (.inl rfl)
  | includes => exact .inr (.inr (.inl rfl))
  | excludes => exact .inr (.inr (.inr rfl))
  | _ =>
    simp only [relaxType, hs, ho] at h
    cases h

end Relaxed

/-! ## Evaluation -/

theorem pairs_nil : Datum.pairs [] = ∅ := by
  simp [Datum.pairs]

theorem pairs_cons (p : Atom × Atom) (d : Datum) : Datum.pairs (p :: d) = insert (pairKey p) (Datum.pairs d) := by
  ext x
  simp [Datum.pairs, eq_comm]

theorem pairs_singleton (p : Atom × Atom) : Datum.pairs [p] = {pairKey p} := by
  rw [pairs_cons, pairs_nil, insert_empty_eq]

theorem pairs_ne_empty (p : Atom × Atom) (d : Datum) : Datum.pairs (p :: d) ≠ ∅ := by
  rw [pairs_cons]
  exact (Set.insert_nonempty _ _).ne_empty

theorem pairKey_eq_iff {p q : Atom × Atom} (hp : p.2.type = .void) (hq : q.2.type = .void) :
    pairKey p = pairKey q ↔ p.1.key = q.1.key := by
  have hvoid : ∀ {a : Atom}, a.type = .void → a.key = [] := by
    intro a ha
    cases a with
    | void => rfl
    | _ => cases ha
  rw [pairKey, pairKey, hvoid hp, hvoid hq, Prod.mk.injEq]
  exact and_iff_left rfl

theorem missing_agrees_iff (f : OvsdbFunction) (arg : Datum) :
    (f.ofMissing = true ↔ f.Holds [] arg) ↔ (arg = [] → f ≠ .eq ∧ f ≠ .ne ∧ f ≠ .includes) := by
  cases arg with
  | nil => cases f <;> simp [OvsdbFunction.ofMissing, OvsdbFunction.Holds, pairs_nil]
  | cons y ys =>
    have hne := pairs_ne_empty y ys
    cases f <;> simp [OvsdbFunction.ofMissing, OvsdbFunction.Holds, pairs_nil, hne, hne.symm]

/-- Two values, the argument being a single element or that of "excludes". -/
theorem value_agrees_iff {f : OvsdbFunction} {x y : Atom × Atom} {ys : Datum} (hxy : x.1.type = y.1.type)
    (hx : x.2.type = .void) (hy : ∀ p ∈ y :: ys, p.2.type = .void) (hsorted : ∀ p ∈ ys, y.1.key < p.1.key)
    (hys : f ≠ .excludes → ys = []) :
    (f.ofOrdering (ovsdbAtomCompare3way x.1 y.1) = true ↔ f.Holds [x] (y :: ys)) ↔
      (f = .excludes → ∀ p ∈ ys, p.1.key ≠ x.1.key) := by
  have hcmp := compare3way_compares hxy
  have heq : pairKey x = pairKey y ↔ x.1.key = y.1.key := pairKey_eq_iff hx (hy y mem_cons_self)
  by_cases hf : f = .excludes
  · subst hf
    have hmem : pairKey x ∈ Datum.pairs ys ↔ ∃ p ∈ ys, p.1.key = x.1.key := by
      constructor
      · rintro ⟨p, hp, hpx⟩
        exact ⟨p, hp, (pairKey_eq_iff (hy p (mem_cons_of_mem _ hp)) hx).1 hpx⟩
      · rintro ⟨p, hp, hpx⟩
        exact ⟨p, hp, (pairKey_eq_iff (hy p (mem_cons_of_mem _ hp)) hx).2 hpx⟩
    rw [OvsdbFunction.Holds, pairs_singleton, pairs_cons, Set.disjoint_singleton_right, Set.mem_insert_iff, hmem, heq]
    simp only [OvsdbFunction.ofOrdering, decide_eq_true_iff, Ne, hcmp.eq_eq, true_implies, not_or]
    grind
  · cases hys hf
    refine iff_of_true ?_ fun h => absurd h hf
    have hlt := hcmp.eq_lt
    have hgt := hcmp.eq_gt
    have hee := hcmp.eq_eq
    cases f with
    | excludes => exact absurd rfl hf
    | eq => simp [OvsdbFunction.ofOrdering, OvsdbFunction.Holds, pairs_singleton, heq, hee]
    | ne => simp [OvsdbFunction.ofOrdering, OvsdbFunction.Holds, pairs_singleton, heq, hee]
    | includes =>
      rw [OvsdbFunction.Holds, pairs_singleton, pairs_singleton, Set.singleton_subset_singleton, eq_comm (b := pairKey x),
        heq, ← hee]
      exact decide_eq_true_iff
    | lt => simp [OvsdbFunction.ofOrdering, OvsdbFunction.Holds, hlt]
    | le => simp [OvsdbFunction.ofOrdering, OvsdbFunction.Holds, hgt]
    | gt => simp [OvsdbFunction.ofOrdering, OvsdbFunction.Holds, hgt]
    | ge => simp [OvsdbFunction.ofOrdering, OvsdbFunction.Holds, hlt]

section Evaluate

variable {c : Clause} {row : Nat → Datum} {relaxed : OvsdbType}

theorem isOptionalScalar_iff {t : OvsdbType} : t.isOptionalScalar = true ↔ t.value = .void ∧ t.nMin = 0 ∧ t.nMax = 1 := by
  simp [OvsdbType.isOptionalScalar]

theorem isScalar_iff {t : OvsdbType} : t.isScalar = true ↔ t.value = .void ∧ t.nMin = 1 ∧ t.nMax = 1 := by
  simp [OvsdbType.isScalar]

theorem agrees_iff_of_eq {b : Bool} (h : ovsdbClauseEvaluate row c = .ok b) :
    c.Agrees row ↔ (b = true ↔ c.function.Holds (row c.column) c.arg) := by
  constructor
  · rintro ⟨b', hb', hiff⟩
    simp_all
  · intro hiff
    exact ⟨b, h, hiff⟩

/-- A value of a scalar or optional scalar column and the first element of the argument. -/
theorem evaluate_values {x y : Atom × Atom} {xs ys : Datum} (hs : c.type.isScalar = true ∨ c.type.isOptionalScalar = true)
    (hfield : row c.column = x :: xs) (harg : c.arg = y :: ys) :
    ovsdbClauseEvaluate row c = .ok (c.function.ofOrdering (ovsdbAtomCompare3way x.1 y.1)) := by
  rw [ovsdbClauseEvaluate, hfield, harg]
  rw [if_neg (by simp), if_pos hs]

variable (hfield : c.type.Has (row c.column)) (hrelax : relaxType c.function c.type = some relaxed)
  (harg : relaxed.Has c.arg)

include hfield hrelax harg

theorem values_agree_iff {x y : Atom × Atom} {ys : Datum} (hs : c.type.isScalar = true ∨ c.type.isOptionalScalar = true)
    (hrow : row c.column = [x]) (hc : c.arg = y :: ys) :
    c.Agrees row ↔ (c.function = .excludes → ∀ p ∈ ys, p.1.key ≠ x.1.key) := by
  have hvoid : c.type.value = .void ∧ c.type.nMax = 1 := by
    rcases hs with hs | ho
    · exact ⟨(isScalar_iff.1 hs).1, (isScalar_iff.1 hs).2.2⟩
    · exact ⟨(isOptionalScalar_iff.1 ho).1, (isOptionalScalar_iff.1 ho).2.2⟩
  obtain ⟨hkey, hvalue⟩ := relaxType_sameAtoms hrelax
  rw [agrees_iff_of_eq (evaluate_values hs hrow hc), hrow, hc]
  rw [hrow] at hfield
  rw [hc] at harg
  refine value_agrees_iff ?_ ?_ ?_ (pairwise_cons.1 harg.sorted).1 fun hf => ?_
  · rw [hfield.keys x mem_cons_self, harg.keys y mem_cons_self, hkey]
  · rw [hfield.values x mem_cons_self, hvoid.1]
  · intro p hp
    rw [harg.values p hp, ← hvalue, hvoid.1]
  · have hlen := harg.nMax
    rw [relaxType_nMax hf hrelax, length_cons] at hlen
    exact eq_nil_of_length_eq_zero (by omega)

theorem optional_agrees_iff (ho : c.type.isOptionalScalar = true) : c.Agrees row ↔ c.Clear (row c.column) := by
  cases hrow : row c.column with
  | nil =>
    have heval : ovsdbClauseEvaluate row c = .ok c.function.ofMissing := by
      rw [ovsdbClauseEvaluate, hrow]
      rw [if_pos ⟨ho, rfl⟩]
    rw [agrees_iff_of_eq heval, hrow, missing_agrees_iff]
    exact ⟨fun h => ⟨fun _ => h, fun hne => absurd rfl hne, fun _ x hx => by cases hx⟩, fun h => h.empty rfl⟩
  | cons x xs =>
    have hone : xs = [] := by
      have hlen := hfield.nMax
      rw [hrow, (isOptionalScalar_iff.1 ho).2.2, length_cons] at hlen
      exact eq_nil_of_length_eq_zero (by omega)
    subst hone
    cases hc : c.arg with
    | nil =>
      -- the first element of an empty argument is read
      have heval : ovsdbClauseEvaluate row c = .error .outOfBounds := by
        rw [ovsdbClauseEvaluate, hrow, hc]
        rw [if_neg (by simp), if_pos (.inr ho)]
      refine iff_of_false ?_ fun h => h.value (cons_ne_nil _ _) hc
      rintro ⟨b, hb, _⟩
      cases heval.symm.trans hb
    | cons y ys =>
      rw [values_agree_iff hfield hrelax harg (.inr ho) hrow hc]
      constructor
      · intro h
        refine ⟨fun hnil => absurd hnil (cons_ne_nil _ _), fun _ => by rw [hc]; exact cons_ne_nil _ _, ?_⟩
        grind
      · intro h hf p hp
        refine h.first hf x mem_cons_self p ?_
        rw [hc]
        exact hp

theorem scalar_agrees (hs : c.type.isScalar = true) : c.Agrees row := by
  obtain ⟨hvoid, hmin, hmax⟩ := isScalar_iff.1 hs
  have hone : ∀ {d : Datum}, c.type.Has d → ∃ p, d = [p] := by
    intro d hd
    have hlo := hd.nMin
    have hhi := hd.nMax
    exact length_eq_one_iff.1 (by omega)
  have hsame : relaxed = c.type := by
    rcases relaxType_cases hrelax with rfl | ⟨hno, _⟩
    · rfl
    · simp_all
  obtain ⟨x, hx⟩ := hone hfield
  obtain ⟨y, hy⟩ := hone (hsame ▸ harg)
  exact (values_agree_iff hfield hrelax harg (.inl hs) hx hy).2 fun _ p hp => by cases hp

theorem collection_agrees (hs : c.type.isScalar = false) (ho : c.type.isOptionalScalar = false) :
    c.Agrees row := by
  have hsame := relaxType_sameAtoms hrelax
  have hback : relaxed.SameAtoms c.type := ⟨hsame.1.symm, hsame.2.symm⟩
  rcases relaxType_order hs ho hrelax with hf | hf | hf | hf
  · rw [agrees_iff_of_eq (b := ovsdbDatumEquals (row c.column) c.arg) (by simp [ovsdbClauseEvaluate, hs, ho, hf]), hf]
    exact datumEquals_iff hsame hfield harg
  · rw [agrees_iff_of_eq (b := !ovsdbDatumEquals (row c.column) c.arg) (by simp [ovsdbClauseEvaluate, hs, ho, hf]),
      hf, OvsdbFunction.Holds, Ne, ← datumEquals_iff hsame hfield harg]
    simp
  · rw [agrees_iff_of_eq (b := ovsdbDatumIncludesAll c.arg (row c.column))
      (by simp [ovsdbClauseEvaluate, hs, ho, hf]), hf]
    exact includesAll_iff hback harg hfield
  · rw [agrees_iff_of_eq (b := ovsdbDatumExcludesAll c.arg (row c.column))
      (by simp [ovsdbClauseEvaluate, hs, ho, hf]), hf]
    exact excludesAll_iff hback harg hfield

end Evaluate

/-- A clause that is accepted evaluates to its meaning on a row if and only if it is clear there or its column is not an
optional scalar. -/
theorem clause_agrees_iff {δ : Type} (R : AtomReader δ) (ts : TableSchema) (json : Value δ) (c : Clause)
    (h : ovsdbClauseFromJson R ts json = .ok c) (row : TableRow ts) :
    c.Agrees row.fields ↔ (c.type.isOptionalScalar = true → c.Clear (row.fields c.column)) := by
  obtain ⟨⟨name, hcol⟩, relaxed, hrelax, harg⟩ := clauseFromJson_accepted h
  have hfield := row.valid hcol
  by_cases ho : c.type.isOptionalScalar = true
  · rw [optional_agrees_iff hfield hrelax harg ho]
    exact ⟨fun h _ => h, fun h => h ho⟩
  · refine iff_of_true ?_ fun h => absurd h ho
    by_cases hs : c.type.isScalar = true
    · exact scalar_agrees hfield hrelax harg hs
    · exact collection_agrees hfield hrelax harg (Bool.eq_false_iff.2 hs) (Bool.eq_false_iff.2 ho)

/-! A table with one optional integer column and a reader of integers. -/

def integerReader : AtomReader Unit where
  read
    | .integer, .integer i => .ok (.integer i)
    | _, _ => .error "expected integer"
  typed := by
    intro t json a h
    split at h
    · cases h
      rfl
    · cases h

def optionalInteger : OvsdbType := ⟨.integer, .void, 0, 1, by decide, Nat.le_succ 0, Nat.one_pos⟩

def oneColumn : TableSchema := ⟨fun name => if name = bytes "n" then some (2, optionalInteger) else none⟩

/-- A row without a value in the column, or with one. -/
def oneRow (n : Option Int) : TableRow oneColumn where
  fields _ := n.toList.map fun i => (.integer i, .void)
  valid := by
    intro name column type h
    have htype : type = optionalInteger := by
      simp only [oneColumn] at h
      split at h
      · cases h
        rfl
      · cases h
    subst htype
    cases n with
    | none => exact ⟨by simp, by simp, by simp, by decide, by decide⟩
    | some i => exact ⟨by simp [Atom.type, optionalInteger], by simp [Atom.type, optionalInteger], by simp,
        Nat.zero_le _, Nat.le_refl 1⟩

def clauseJson (function : String) (arg : List Int) : Value Unit :=
  .array [.string (bytes "n"), .string (bytes function), .array [.string (bytes "set"), .array (arg.map .integer)]]

theorem clause_agrees_present :
    (⟨.le, 2, optionalInteger, [(.integer 5, .void)]⟩ : Clause).Agrees (oneRow (some 4)).fields := by
  refine (clause_agrees_iff integerReader oneColumn (clauseJson "<=" [5]) _ rfl (oneRow (some 4))).2 fun _ => ?_
  exact ⟨fun h => absurd h (by decide), fun _ => by decide, fun hf => by cases hf⟩

/-- With the column and the argument empty, "==" is false, "!=" true and "includes" false. With a value in the column,
an empty argument is read beyond its end, and "excludes" overlooks the second element of its argument. -/
theorem optional_clauses_disagree :
    (∃ c, ovsdbClauseFromJson integerReader oneColumn (clauseJson "==" []) = .ok c ∧ ¬ c.Agrees (oneRow none).fields) ∧
    (∃ c, ovsdbClauseFromJson integerReader oneColumn (clauseJson "!=" []) = .ok c ∧ ¬ c.Agrees (oneRow none).fields) ∧
    (∃ c, ovsdbClauseFromJson integerReader oneColumn (clauseJson "includes" []) = .ok c ∧
      ¬ c.Agrees (oneRow none).fields) ∧
    (∃ c, ovsdbClauseFromJson integerReader oneColumn (clauseJson "==" []) = .ok c ∧
      ovsdbClauseEvaluate (oneRow (some 4)).fields c = .error .outOfBounds) ∧
    ∃ c, ovsdbClauseFromJson integerReader oneColumn (clauseJson "excludes" [3, 4]) = .ok c ∧
      ¬ c.Agrees (oneRow (some 4)).fields := by
  refine ⟨⟨_, rfl, ?_⟩, ⟨_, rfl, ?_⟩, ⟨_, rfl, ?_⟩, ⟨_, rfl, rfl⟩, ⟨_, rfl, ?_⟩⟩
  · rw [agrees_iff_of_eq (b := false) rfl]
    simp [OvsdbFunction.Holds, oneRow]
  · rw [agrees_iff_of_eq (b := true) rfl]
    simp [OvsdbFunction.Holds, oneRow]
  · rw [agrees_iff_of_eq (b := false) rfl]
    simp [OvsdbFunction.Holds, oneRow]
  · rw [agrees_iff_of_eq (b := true) rfl]
    intro h
    have hmem : ∀ {d : Datum}, (.integer 4, .void) ∈ d → pairKey (.integer 4, .void) ∈ d.pairs := fun h => ⟨_, h, rfl⟩
    exact Set.disjoint_left.1 (h.1 rfl) (hmem (by decide)) (hmem (by decide))

end LinkerOvs.Ovsdb
