/-
The concurrent priority vector (`lib/pvector.c`), as one writer and a reader between its operations see it:
changes go to the published vector where they keep it sorted and to a copy otherwise, and publishing sorts
the copy. What is published is always sorted, highest priority first, and holds what was put in.
-/
import LinkerOvs.Lib.Run

universe u

namespace LinkerOvs.Cls

open List

def intMin : Int := -2147483648

/-- A removed entry is a gap without pointer. -/
structure PvectorEntry (α : Type u) where
  priority : Int
  ptr : Option α

structure PvectorImpl (α : Type u) where
  vector : List (PvectorEntry α)
  allocated : Nat

structure Pvector (α : Type u) where
  impl : PvectorImpl α
  temp : Option (PvectorImpl α)

/-- `pvector_entry_cmp`, as the order of a sorted vector. -/
def pvectorSorted {α : Type u} (l : List (PvectorEntry α)) : Prop := l.Pairwise fun a b => b.priority ≤ a.priority

/-- What the C library's `qsort` does with the entries of a vector. -/
structure Qsort (α : Type u) where
  sort : List (PvectorEntry α) → List (PvectorEntry α)
  perm : ∀ l, (sort l).Perm l
  sorted : ∀ l, pvectorSorted (sort l)

/-- An insertion sort is a `qsort`. -/
def Qsort.insertion {α : Type u} : Qsort α where
  sort l := l.insertionSort fun a b => b.priority ≤ a.priority
  perm l := l.perm_insertionSort _
  sorted l := by
    have : Std.Total fun a b : PvectorEntry α => b.priority ≤ a.priority := ⟨fun a b => le_total b.priority a.priority⟩
    have : IsTrans (PvectorEntry α) fun a b => b.priority ≤ a.priority := ⟨fun _ _ _ hab hbc => hbc.trans hab⟩
    exact l.pairwise_insertionSort _

section Model

variable {α : Type u}

def pvectorExtraAlloc : Nat := 4

def pvectorInit : Pvector α := { impl := { vector := [], allocated := pvectorExtraAlloc }, temp := none }

def pvectorImplDup (old : PvectorImpl α) : PvectorImpl α :=
  { old with allocated := old.vector.length + pvectorExtraAlloc }

/-- The gaps are at the end once the vector is sorted. -/
def pvectorImplSort (q : Qsort α) (impl : PvectorImpl α) : PvectorImpl α :=
  { impl with vector := ((q.sort impl.vector).reverse.dropWhile fun e => e.priority = intMin).reverse }

/-- The entry of `target` and those before and after it. -/
def pvectorImplFind [DecidableEq α] (target : α) :
    List (PvectorEntry α) → Option (List (PvectorEntry α) × PvectorEntry α × List (PvectorEntry α))
  | [] => none
  | e :: es =>
    if e.ptr = some target then some ([], e, es)
    else (pvectorImplFind target es).map fun r => (e :: r.1, r.2)

def PvectorImpl.append (impl : PvectorImpl α) (e : PvectorEntry α) : PvectorImpl α :=
  { impl with vector := impl.vector ++ [e] }

def pvectorInsert (pvec : Pvector α) (ptr : α) (priority : Int) : Pvector α :=
  match pvec.temp with
  | none =>
    if pvec.impl.allocated > pvec.impl.vector.length ∧
        (∀ last ∈ pvec.impl.vector.getLast?, priority ≤ last.priority) then
      { pvec with impl := pvec.impl.append ⟨priority, some ptr⟩ }
    else
      { pvec with temp := some ((pvectorImplDup pvec.impl).append ⟨priority, some ptr⟩) }
  | some temp =>
    let temp := if temp.vector.length = temp.allocated then pvectorImplDup temp else temp
    { pvec with temp := some (temp.append ⟨priority, some ptr⟩) }

/-- `none` where it asserts that the entry is there. -/
def pvectorRemove [DecidableEq α] (pvec : Pvector α) (ptr : α) : Option (Pvector α) :=
  let temp := pvec.temp.getD (pvectorImplDup pvec.impl)
  (pvectorImplFind ptr temp.vector).map fun (before, _, after) =>
    { pvec with temp := some { temp with vector := before ++ ⟨intMin, none⟩ :: after } }

/-- `none` where it asserts that the entry is there. -/
def pvectorChangePriority [DecidableEq α] (pvec : Pvector α) (ptr : α) (priority : Int) : Option (Pvector α) :=
  let old := pvec.temp.getD pvec.impl
  (pvectorImplFind ptr old.vector).map fun (before, e, after) =>
    let vector := before ++ { e with priority } :: after
    let misplaced : Bool :=
      (priority > e.priority ∧ ∃ prev ∈ before.getLast?, priority > prev.priority) ∨
      (priority < e.priority ∧ ∃ next ∈ after.head?, priority < next.priority)
    match pvec.temp with
    | some temp => { pvec with temp := some { temp with vector } }
    | none =>
      if misplaced then { pvec with temp := some { pvectorImplDup old with vector } }
      else { pvec with impl := { old with vector } }

def pvectorPublish (q : Qsort α) (pvec : Pvector α) : Pvector α :=
  match pvec.temp with
  | some temp => { impl := pvectorImplSort q temp, temp := none }
  | none => pvec

end Model

/-! ## What a published vector holds -/

section Spec

variable {α : Type u}

/-- A published vector with the entries `l`, in some order of the same priorities. -/
structure Pvector.Holds (pvec : Pvector α) (l : List (PvectorEntry α)) : Prop where
  published : pvec.temp = none
  sorted : pvectorSorted pvec.impl.vector
  perm : pvec.impl.vector.Perm l

/-- An entry that is not a gap. -/
def PvectorEntry.Real (e : PvectorEntry α) : Prop := intMin < e.priority

variable {l : List (PvectorEntry α)} {pvec : Pvector α} {priority old : Int} {ptr : α}

/-- Trimming the end of a sorted vector takes off exactly the gaps. -/
theorem trim_eq_filter (hsorted : pvectorSorted l) (hmin : ∀ e ∈ l, intMin ≤ e.priority) :
    (l.reverse.dropWhile fun e => e.priority = intMin).reverse = l.filter fun e => e.priority ≠ intMin := by
  induction l using List.reverseRecOn with
  | nil => rfl
  | append_singleton l e ih =>
    have hl : pvectorSorted l := (pairwise_append.1 hsorted).1
    have hle : ∀ x ∈ l, e.priority ≤ x.priority :=
      fun x hx => (pairwise_append.1 hsorted).2.2 x hx e (mem_singleton_self e)
    rw [reverse_append, reverse_singleton, singleton_append, filter_append]
    by_cases he : e.priority = intMin
    · simp_all
    -- an entry that is no gap has none before it
    have hall : l.filter (fun x => x.priority ≠ intMin) = l := by
      rw [filter_eq_self]
      grind
    rw [hall]
    simp [he]

/-- Publishing a copy leaves its entries, sorted and without gaps. -/
theorem pvectorPublish_holds (q : Qsort α) {temp : PvectorImpl α} (htemp : pvec.temp = some temp)
    (gaps : List (PvectorEntry α)) (hperm : temp.vector.Perm (gaps ++ l))
    (hgaps : ∀ e ∈ gaps, e.priority = intMin) (hreal : ∀ e ∈ l, e.Real) : (pvectorPublish q pvec).Holds l := by
  have hsort : (q.sort temp.vector).Perm (gaps ++ l) := (q.perm _).trans hperm
  have htrim : (pvectorImplSort q temp).vector = (q.sort temp.vector).filter fun e => e.priority ≠ intMin := by
    apply trim_eq_filter (q.sorted _)
    intro e he
    rcases mem_append.1 (hsort.mem_iff.1 he) with he | he
    · exact (hgaps e he).symm.le
    · exact (hreal e he).le
  have hfilter : (gaps ++ l).filter (fun e => e.priority ≠ intMin) = l := by
    rw [filter_append, filter_eq_nil_iff.2, nil_append, filter_eq_self]
    · intro e he
      have := hreal e he
      unfold PvectorEntry.Real at this
      simp only [decide_eq_true_eq]
      omega
    · simp_all
  unfold pvectorPublish
  rw [htemp]
  refine ⟨rfl, ?_, ?_⟩
  · rw [htrim]
    exact (q.sorted _).filter _
  · rw [htrim, ← hfilter]
    exact hsort.filter _

theorem le_of_le_getLast? (hsorted : pvectorSorted l) (hlast : ∀ last ∈ l.getLast?, priority ≤ last.priority) :
    ∀ e ∈ l, priority ≤ e.priority := by
  intro e he
  have hlow := hlast _ (getLast?_eq_some_getLast (ne_nil_of_mem he))
  exact hlow.trans (hsorted.rel_getLast_of_rel_getLast_getLast he le_rfl)

/-- An entry can be replaced in place by one that does not pass its neighbours. -/
theorem pvectorSorted_replace {before after : List (PvectorEntry α)} {e e' : PvectorEntry α}
    (h : pvectorSorted (before ++ e :: after))
    (hb : e'.priority ≤ e.priority ∨ ∀ prev ∈ before.getLast?, e'.priority ≤ prev.priority)
    (ha : e.priority ≤ e'.priority ∨ ∀ next ∈ after.head?, next.priority ≤ e'.priority) :
    pvectorSorted (before ++ e' :: after) := by
  obtain ⟨hbefore, hcons, hcross⟩ := pairwise_append.1 h
  obtain ⟨hafter, hafter'⟩ := pairwise_cons.1 hcons
  have hlow : ∀ x ∈ before, e'.priority ≤ x.priority := by
    rcases hb with hb | hb
    · exact fun x hx => hb.trans (hcross x hx e mem_cons_self)
    · exact le_of_le_getLast? hbefore hb
  have hhigh : ∀ x ∈ after, x.priority ≤ e'.priority := by
    intro x hx
    rcases ha with ha | ha
    · exact (hafter x hx).trans ha
    · have hhead := ha _ (head?_eq_some_head (ne_nil_of_mem hx))
      exact (hafter'.rel_head_of_rel_head_head hx le_rfl).trans hhead
  refine pairwise_append.2 ⟨hbefore, pairwise_cons.2 ⟨hhigh, hafter'⟩, ?_⟩
  grind

/-! ## What the writer's vector holds -/

/-- A gap that a removal leaves in the copy. -/
def PvectorEntry.gap : PvectorEntry α := ⟨intMin, none⟩

/-- Readers have a sorted vector; the writer's, a copy where there is one, has the entries `l`, a copy also `gaps`. -/
structure Pvector.Tracks (pvec : Pvector α) (gaps : Nat) (l : List (PvectorEntry α)) : Prop where
  sorted : pvectorSorted pvec.impl.vector
  perm : (pvec.temp.getD pvec.impl).vector.Perm (replicate gaps .gap ++ l)
  published : pvec.temp = none → gaps = 0

deriving instance DecidableEq for PvectorEntry

theorem pvectorImplFind_of_mem [DecidableEq α] {v : List (PvectorEntry α)} {e : PvectorEntry α} (he : e ∈ v)
    (hptr : e.ptr = some ptr) : ∃ before old after, pvectorImplFind ptr v = some (before, ⟨old, some ptr⟩, after) ∧
      v = before ++ ⟨old, some ptr⟩ :: after := by
  induction v with
  | nil => cases he
  | cons x v ih =>
    unfold pvectorImplFind
    by_cases hx : x.ptr = some ptr
    · exact ⟨[], x.priority, v, by rw [if_pos hx, ← hx], by rw [← hx]; rfl⟩
    · have hv : e ∈ v := (mem_cons.1 he).resolve_left fun heq => hx (heq ▸ hptr)
      obtain ⟨before, old, after, hfind, rfl⟩ := ih hv
      exact ⟨x :: before, old, after, by rw [if_neg hx, hfind]; rfl, rfl⟩

theorem Pvector.Holds.tracks (h : pvec.Holds l) : pvec.Tracks 0 l :=
  ⟨h.sorted, by simpa [h.published] using h.perm, fun _ => rfl⟩

section

variable {gaps : Nat} (h : pvec.Tracks gaps l)
include h

theorem Pvector.Tracks.publish (q : Qsort α) (hreal : ∀ e ∈ l, e.Real) : (pvectorPublish q pvec).Holds l := by
  have hperm := h.perm
  cases htemp : pvec.temp with
  | none =>
    rw [htemp, h.published htemp] at hperm
    unfold pvectorPublish
    rw [htemp]
    exact ⟨htemp, h.sorted, hperm⟩
  | some temp =>
    rw [htemp] at hperm
    exact pvectorPublish_holds q htemp _ hperm (fun e he => by rw [eq_of_mem_replicate he]; rfl) hreal

theorem Pvector.Tracks.insert (ptr : α) (priority : Int) :
    (pvectorInsert pvec ptr priority).Tracks gaps (⟨priority, some ptr⟩ :: l) := by
  have hperm : ((pvec.temp.getD pvec.impl).vector ++ [(⟨priority, some ptr⟩ : PvectorEntry α)]).Perm
      (replicate gaps .gap ++ ⟨priority, some ptr⟩ :: l) :=
    (perm_append_singleton _ _).trans ((h.perm.cons _).trans perm_middle.symm)
  unfold pvectorInsert
  cases htemp : pvec.temp with
  | none =>
    rw [htemp] at hperm
    dsimp only
    split
    next hend =>
      refine ⟨?_, by simpa [htemp, PvectorImpl.append] using hperm, fun _ => h.published htemp⟩
      refine pairwise_append.2 ⟨h.sorted, pairwise_singleton _ _, ?_⟩
      intro e he x hx
      rw [mem_singleton.1 hx]
      exact le_of_le_getLast? h.sorted hend.2 e he
    next => exact ⟨h.sorted, hperm, by rintro ⟨⟩⟩
  | some temp =>
    rw [htemp] at hperm
    refine ⟨h.sorted, ?_, by rintro ⟨⟩⟩
    dsimp only [Option.getD_some, PvectorImpl.append]
    split <;> exact hperm

variable [DecidableEq α]

/-- The entry of a pointer that is present is found, and what is left around it is the rest. -/
theorem Pvector.Tracks.find (hptr : ∃ e ∈ l, e.ptr = some ptr) :
    ∃ before old after, pvectorImplFind ptr (pvec.temp.getD pvec.impl).vector =
        some (before, ⟨old, some ptr⟩, after) ∧
      (pvec.temp.getD pvec.impl).vector = before ++ ⟨old, some ptr⟩ :: after ∧ ⟨old, some ptr⟩ ∈ l ∧
      (before ++ after).Perm (replicate gaps .gap ++ l.erase ⟨old, some ptr⟩) := by
  obtain ⟨e, he, hptr⟩ := hptr
  obtain ⟨before, old, after, hfind, hsplit⟩ :=
    pvectorImplFind_of_mem (h.perm.mem_iff.2 (mem_append_right _ he)) hptr
  have hperm := hsplit ▸ h.perm
  have hmem : ⟨old, some ptr⟩ ∈ l := by
    rcases mem_append.1 (hperm.mem_iff.1 (mem_append_right _ mem_cons_self)) with hgap | hl
    · exact absurd (congrArg PvectorEntry.ptr (eq_of_mem_replicate hgap)) (by rintro ⟨⟩)
    · exact hl
  refine ⟨before, old, after, hfind, hsplit, hmem, ?_⟩
  have hcons := perm_middle.symm.trans (hperm.trans ((perm_cons_erase hmem).append_left _))
  exact (hcons.trans perm_middle).cons_inv

theorem Pvector.Tracks.remove (hptr : ∃ e ∈ l, e.ptr = some ptr) :
    ∃ pvec' old, pvectorRemove pvec ptr = some pvec' ∧ ⟨old, some ptr⟩ ∈ l ∧
      pvec'.Tracks (gaps + 1) (l.erase ⟨old, some ptr⟩) := by
  obtain ⟨before, old, after, hfind, -, hmem, hperm⟩ := h.find hptr
  have hdup : (pvec.temp.getD (pvectorImplDup pvec.impl)).vector = (pvec.temp.getD pvec.impl).vector := by
    cases pvec.temp <;> rfl
  dsimp only [pvectorRemove]
  rw [hdup, hfind]
  exact ⟨_, old, rfl, hmem, h.sorted, perm_middle.trans (hperm.cons _), by rintro ⟨⟩⟩

theorem Pvector.Tracks.changePriority (priority : Int) (hptr : ∃ e ∈ l, e.ptr = some ptr) :
    ∃ pvec' old, pvectorChangePriority pvec ptr priority = some pvec' ∧ ⟨old, some ptr⟩ ∈ l ∧
      pvec'.Tracks gaps (⟨priority, some ptr⟩ :: l.erase ⟨old, some ptr⟩) := by
  obtain ⟨before, old, after, hfind, hsplit, hmem, hperm⟩ := h.find hptr
  replace hperm : (before ++ ⟨priority, some ptr⟩ :: after).Perm (replicate gaps .gap ++ ⟨priority, some ptr⟩ :: _) :=
    perm_middle.trans ((hperm.cons _).trans perm_middle.symm)
  dsimp only [pvectorChangePriority]
  rw [hfind]
  refine ⟨_, old, rfl, hmem, ?_⟩
  cases htemp : pvec.temp with
  | some temp => exact ⟨h.sorted, hperm, by rintro ⟨⟩⟩
  | none =>
    rw [htemp] at hsplit
    dsimp only
    split
    next => exact ⟨h.sorted, hperm, by rintro ⟨⟩⟩
    next hin =>
      -- neither neighbour is passed, so the order stays
      rw [decide_eq_true_eq, not_or] at hin
      push Not at hin
      refine ⟨pvectorSorted_replace (hsplit ▸ h.sorted) ?_ ?_, by simpa [htemp] using hperm, fun _ => h.published htemp⟩
      · exact (le_or_gt priority old).imp_right hin.1
      · exact (le_or_gt old priority).imp_right hin.2

end

/-! ## Changes that are published at once -/

theorem pvectorPublish_of_holds (q : Qsort α) (h : pvec.Holds l) : (pvectorPublish q pvec).Holds l := by
  unfold pvectorPublish
  rw [h.published]
  exact h

theorem pvectorInsert_holds (q : Qsort α) (h : pvec.Holds l)
    (hreal : ∀ e ∈ l, e.Real) (ptr : α) (hpri : intMin < priority) :
    (pvectorPublish q (pvectorInsert pvec ptr priority)).Holds (⟨priority, some ptr⟩ :: l) :=
  (h.tracks.insert ptr priority).publish q (forall_mem_cons.2 ⟨hpri, hreal⟩)

section

variable [DecidableEq α] (q : Qsort α) (h : pvec.Holds (⟨old, some ptr⟩ :: l)) (hreal : ∀ e ∈ l, e.Real)
  (hne : ∀ e ∈ l, e.ptr ≠ some ptr)
include h hreal hne

omit h hreal in
/-- Where one entry has the pointer, it is the one that is found. -/
theorem erase_entry {x : Int} (hmem : (⟨x, some ptr⟩ : PvectorEntry α) ∈ ⟨old, some ptr⟩ :: l) :
    (⟨old, some ptr⟩ :: l).erase ⟨x, some ptr⟩ = l := by
  grind

theorem pvectorRemove_holds : ∃ pvec', pvectorRemove pvec ptr = some pvec' ∧ (pvectorPublish q pvec').Holds l := by
  obtain ⟨pvec', x, hremove, hmem, htracks⟩ := h.tracks.remove ⟨_, mem_cons_self, rfl⟩
  rw [erase_entry hne hmem] at htracks
  exact ⟨pvec', hremove, htracks.publish q hreal⟩

theorem pvectorChangePriority_holds (hpri : intMin < priority) :
    ∃ pvec', pvectorChangePriority pvec ptr priority = some pvec' ∧
      (pvectorPublish q pvec').Holds (⟨priority, some ptr⟩ :: l) := by
  obtain ⟨pvec', x, hchange, hmem, htracks⟩ := h.tracks.changePriority priority ⟨_, mem_cons_self, rfl⟩
  rw [erase_entry hne hmem] at htracks
  exact ⟨pvec', hchange, htracks.publish q (forall_mem_cons.2 ⟨hpri, hreal⟩)⟩

end

/-! ## Runs -/

inductive PvectorCall (α : Type u)
  | insert (ptr : α) (priority : Int)
  | remove (ptr : α)
  | changePriority (ptr : α) (priority : Int)
  | publish

/-- One call; nothing where it asserts. -/
def PvectorCall.next [DecidableEq α] (q : Qsort α) (pvec : Pvector α) : PvectorCall α → Option (Pvector α)
  | .insert ptr priority => some (pvectorInsert pvec ptr priority)
  | .remove ptr => pvectorRemove pvec ptr
  | .changePriority ptr priority => pvectorChangePriority pvec ptr priority
  | .publish => some (pvectorPublish q pvec)

/-- What a call makes of the entries that are present, whatever holds them. A call about a pointer is about one of the
entries that have it, and there is none to make where no entry has it. -/
def PvectorCall.Present [DecidableEq α] (l : List (PvectorEntry α)) : PvectorCall α → List (PvectorEntry α) → Prop
  | .insert ptr priority, l' => l' = ⟨priority, some ptr⟩ :: l
  | .remove ptr, l' => ∃ old, ⟨old, some ptr⟩ ∈ l ∧ l' = l.erase ⟨old, some ptr⟩
  | .changePriority ptr priority, l' =>
    ∃ old, ⟨old, some ptr⟩ ∈ l ∧ l' = ⟨priority, some ptr⟩ :: l.erase ⟨old, some ptr⟩
  | .publish, l' => l' = l

/-- Priorities are above `INT_MIN`. -/
def PvectorCall.Real (_ : List (PvectorEntry α)) : PvectorCall α → Prop
  | .insert _ priority | .changePriority _ priority => intMin < priority
  | .remove _ | .publish => True

/-- A pointer is inserted only while no entry has it. -/
def PvectorCall.New (l : List (PvectorEntry α)) : PvectorCall α → Prop
  | .insert ptr _ => some ptr ∉ l.map PvectorEntry.ptr
  | _ => True

section

variable [DecidableEq α] {call : PvectorCall α} {l₁ l₂ : List (PvectorEntry α)}

/-- The pointers that a call leaves depend on those before it only. -/
theorem PvectorCall.Present.ptrs (h : call.Present l l₁) (h' : call.Present l' l₂)
    (hptr : (l.map PvectorEntry.ptr).Perm (l'.map PvectorEntry.ptr)) :
    (l₁.map PvectorEntry.ptr).Perm (l₂.map PvectorEntry.ptr) := by
  have herase : ∀ {ptr : α} {x y : Int}, ⟨x, some ptr⟩ ∈ l → ⟨y, some ptr⟩ ∈ l' →
      ((l.erase ⟨x, some ptr⟩).map PvectorEntry.ptr).Perm ((l'.erase ⟨y, some ptr⟩).map PvectorEntry.ptr) := by
    intro ptr x y hx hy
    have hl := ((perm_cons_erase hx).map PvectorEntry.ptr).symm.trans hptr
    exact (hl.trans ((perm_cons_erase hy).map PvectorEntry.ptr)).cons_inv
  cases call with
  | insert ptr priority =>
    cases h
    cases h'
    exact hptr.cons _
  | remove ptr =>
    obtain ⟨x, hx, rfl⟩ := h
    obtain ⟨y, hy, rfl⟩ := h'
    exact herase hx hy
  | changePriority ptr priority =>
    obtain ⟨x, hx, rfl⟩ := h
    obtain ⟨y, hy, rfl⟩ := h'
    exact (herase hx hy).cons _
  | publish =>
    cases h
    cases h'
    exact hptr

/-- Where no two entries share a pointer, a call leaves only one list of entries, again without shared pointers. -/
theorem PvectorCall.Present.unique (h : call.Present l l₁) (hnew : call.New l)
    (hnodup : (l.map PvectorEntry.ptr).Nodup) :
    (l₁.map PvectorEntry.ptr).Nodup ∧ ∀ {l₂}, call.Present l l₂ → l₂ = l₁ := by
  have herase : ∀ e, ((l.erase e).map PvectorEntry.ptr).Nodup := fun e => hnodup.sublist (erase_sublist.map _)
  have hsame : ∀ {ptr : α} {x y : Int}, ⟨x, some ptr⟩ ∈ l → ⟨y, some ptr⟩ ∈ l → x = y := fun hx hy =>
    congrArg PvectorEntry.priority (inj_on_of_nodup_map hnodup hx hy rfl)
  cases call with
  | insert ptr priority =>
    cases h
    exact ⟨nodup_cons.2 ⟨hnew, hnodup⟩, id⟩
  | remove ptr =>
    obtain ⟨x, hx, rfl⟩ := h
    refine ⟨herase _, ?_⟩
    rintro _ ⟨y, hy, rfl⟩
    rw [hsame hx hy]
  | changePriority ptr priority =>
    obtain ⟨x, hx, rfl⟩ := h
    refine ⟨nodup_cons.2 ⟨?_, herase _⟩, ?_⟩
    · have hcons := ((perm_cons_erase hx).map PvectorEntry.ptr).nodup_iff.1 hnodup
      exact (nodup_cons.1 hcons).1
    · rintro _ ⟨y, hy, rfl⟩
      rw [hsame hx hy]
  | publish =>
    cases h
    exact ⟨hnodup, id⟩

theorem PvectorCall.present_unique {calls : List (PvectorCall α)}
    (h : Run.Meets PvectorCall.Present PvectorCall.New l calls l₁)
    (hnodup : (l.map PvectorEntry.ptr).Nodup) (h' : Run PvectorCall.Present l calls l₂) : l₂ = l₁ := by
  induction h with
  | nil => cases h'; rfl
  | cons hnew hstep _ ih =>
    obtain ⟨hnodup', hunique⟩ := hstep.unique hnew hnodup
    cases h' with
    | cons hstep' h' => exact ih hnodup' (hunique hstep' ▸ h')

end

/-- The writer's vector has the entries `l`, and none of them looks like a gap. -/
def Pvector.Keeps (pvec : Pvector α) (l : List (PvectorEntry α)) : Prop :=
  (∃ gaps, pvec.Tracks gaps l) ∧ ∀ e ∈ l, e.Real

/-- A call about a pointer that is present does what the call does to the entries that are present. -/
theorem Pvector.Keeps.next [DecidableEq α] (q : Qsort α) (h : pvec.Keeps l) {call : PvectorCall α}
    (hreal : call.Real l) {l₁ l₂ : List (PvectorEntry α)} (hpresent : call.Present l₁ l₂)
    (hptr : (l₁.map PvectorEntry.ptr).Perm (l.map PvectorEntry.ptr)) :
    ∃ pvec' l', call.next q pvec = some pvec' ∧ call.Present l l' ∧ pvec'.Keeps l' := by
  obtain ⟨⟨gaps, h⟩, hl⟩ := h
  have hmem : ∀ {ptr : α} {x : Int}, ⟨x, some ptr⟩ ∈ l₁ → ∃ e ∈ l, e.ptr = some ptr := fun hx =>
    mem_map.1 (hptr.mem_iff.1 (mem_map_of_mem hx))
  cases call with
  | insert ptr priority =>
    exact ⟨_, _, rfl, rfl, ⟨gaps, h.insert ptr priority⟩, forall_mem_cons.2 ⟨hreal, hl⟩⟩
  | remove ptr =>
    obtain ⟨x, hx, -⟩ := hpresent
    obtain ⟨pvec', old, hremove, hold, h'⟩ := h.remove (hmem hx)
    exact ⟨pvec', _, hremove, ⟨old, hold, rfl⟩, ⟨_, h'⟩, fun e he => hl e (mem_of_mem_erase he)⟩
  | changePriority ptr priority =>
    obtain ⟨x, hx, -⟩ := hpresent
    obtain ⟨pvec', old, hchange, hold, h'⟩ := h.changePriority priority (hmem hx)
    exact ⟨pvec', _, hchange, ⟨old, hold, rfl⟩, ⟨_, h'⟩,
      forall_mem_cons.2 ⟨hreal, fun e he => hl e (mem_of_mem_erase he)⟩⟩
  | publish => exact ⟨_, l, rfl, rfl, ⟨0, (h.publish q hl).tracks⟩, hl⟩

/-- The vector follows every run of the reference, about one of the entries where several have the pointer. -/
theorem Pvector.Keeps.run [DecidableEq α] (q : Qsort α) {calls : List (PvectorCall α)}
    {l₁ l₂ : List (PvectorEntry α)} (hrun : Run.Meets PvectorCall.Present PvectorCall.Real l₁ calls l₂)
    (h : pvec.Keeps l) (hptr : (l₁.map PvectorEntry.ptr).Perm (l.map PvectorEntry.ptr)) :
    ∃ pvec' l', Run.exec (PvectorCall.next q) pvec calls = some pvec' ∧
      Run PvectorCall.Present l calls l' ∧ pvec'.Keeps l' := by
  induction hrun generalizing pvec l with
  | nil => exact ⟨pvec, l, rfl, .nil l, h⟩
  | cons hreal hpresent _ ih =>
    obtain ⟨pvec₁, l', hnext, hl', h₁⟩ := h.next q hreal hpresent hptr
    obtain ⟨pvec₂, l'', hexec, hrun, h₂⟩ := ih h₁ (hpresent.ptrs hl' hptr)
    exact ⟨pvec₂, l'', by simp [Run.exec, hnext, hexec], .cons hl' hrun, h₂⟩

/-- In every run of calls about entries that are present no assertion fails, the readers' vector is sorted, and publishing
leaves exactly the entries that are present, with their latest priorities. Where a pointer is inserted while an entry
has it, the calls about it may take either; otherwise there is one list of entries that can be present. -/
theorem pvector_of_run [DecidableEq α] (q : Qsort α) {calls : List (PvectorCall α)} {present : List (PvectorEntry α)}
    (h : Run.Meets PvectorCall.Present PvectorCall.Real [] calls present) :
    ∃ pvec, Run.exec (PvectorCall.next q) pvectorInit calls = some pvec ∧
      pvectorSorted pvec.impl.vector ∧
      (∃ l, Run PvectorCall.Present [] calls l ∧ (pvectorPublish q pvec).impl.vector.Perm l) ∧
      (Run.Meets PvectorCall.Present PvectorCall.New [] calls present →
        (pvectorPublish q pvec).impl.vector.Perm present) := by
  have hinit : (pvectorInit : Pvector α).Keeps [] := ⟨⟨0, Pairwise.nil, Perm.refl _, fun _ => rfl⟩, by simp⟩
  obtain ⟨pvec, l, hexec, hrun, ⟨gaps, htracks⟩, hreal⟩ := hinit.run q h (Perm.refl _)
  have hperm := (htracks.publish q hreal).perm
  refine ⟨pvec, hexec, htracks.sorted, ⟨l, hrun, hperm⟩, fun hnew => ?_⟩
  rw [← PvectorCall.present_unique hnew nodup_nil hrun]
  exact hperm

/-- The first three entries are added in place; 5 then passes 7, so that the changes from there on go to a copy. -/
def sampleCalls : List (PvectorCall Nat) :=
  [.insert 9 9, .insert 7 7, .insert 5 5, .publish, .changePriority 5 8, .remove 7, .insert 3 1, .publish]

theorem pvector_of_run_sampleCalls :
    ∃ pvec, Run.exec (PvectorCall.next .insertion) pvectorInit sampleCalls = some pvec ∧
      pvectorSorted pvec.impl.vector ∧
      (pvectorPublish .insertion pvec).impl.vector.Perm [⟨1, some 3⟩, ⟨8, some 5⟩, ⟨9, some 9⟩] := by
  have hreal : Run.Meets PvectorCall.Present PvectorCall.Real [] sampleCalls [⟨1, some 3⟩, ⟨8, some 5⟩, ⟨9, some 9⟩] :=
    .cons (by decide : intMin < 9) rfl <| .cons (by decide : intMin < 7) rfl <| .cons (by decide : intMin < 5) rfl <|
      .cons trivial rfl <| .cons (by decide : intMin < 8) ⟨5, by decide, rfl⟩ <| .cons trivial ⟨7, by decide, rfl⟩ <|
      .cons (by decide : intMin < 1) rfl <| .cons trivial rfl (.nil _)
  have hnew : Run.Meets PvectorCall.Present PvectorCall.New [] sampleCalls [⟨1, some 3⟩, ⟨8, some 5⟩, ⟨9, some 9⟩] :=
    .cons (by decide : some 9 ∉ _) rfl <| .cons (by decide : some 7 ∉ _) rfl <| .cons (by decide : some 5 ∉ _) rfl <|
      .cons trivial rfl <| .cons trivial ⟨5, by decide, rfl⟩ <| .cons trivial ⟨7, by decide, rfl⟩ <|
      .cons (by decide : some 3 ∉ _) rfl <| .cons trivial rfl (.nil _)
  obtain ⟨pvec, hexec, hsorted, -, hpresent⟩ := pvector_of_run .insertion hreal
  exact ⟨pvec, hexec, hsorted, hpresent hnew⟩

end Spec

end LinkerOvs.Cls
