/-
What holds of a classifier between the operations of its writer: one subtable for a mask, none of them
empty, each with a maximum priority that bounds its rules and under which it is in the published vector,
and tries that hold the prefixes of all chains. Every operation keeps it, without failing an assertion, and
does to the rules what it does to a table of rules.
-/
import LinkerOvs.Lib.Run
import LinkerOvs.Classifier.SubtableOps
import LinkerOvs.Classifier.Table

namespace LinkerOvs.Cls

open List

/-! ## The invariant -/

def ClsSubtable.entry (S : ClsSubtable) : PvectorEntry Flow := ⟨S.maxPriority, some S.mask⟩

/-- The prefixes of a subtable's chains in the trie for a field. -/
def ClsSubtable.prefixes (field : MfField) (S : ClsSubtable) : List (List Bool) :=
  if field.prefixLen S.mask ≠ 0 then
    (S.rules.map Chain.flow).map fun f => (field.bits f).take (field.prefixLen S.mask)
  else []

/-- What holds of a subtable in a classifier with tries for these fields. -/
structure ClsSubtable.Listed (H : FlowHash) (fields : List MfField) (S : ClsSubtable) : Prop where
  wf : S.WF H
  nonempty : S.rules ≠ []
  above : intMin < S.maxPriority
  le : ∀ m ∈ S.clsMatches, m.priority ≤ S.maxPriority
  count : 0 < S.maxCount
  plen : S.triePlen = fields.map fun field => field.prefixLen S.mask

/-- The fields that have tries. -/
def Classifier.fields (cls : Classifier) : List MfField := cls.tries.map ClsTrie.field

structure Classifier.WF (H : FlowHash) (cls : Classifier) : Prop where
  segments : cls.flowSegments.Pairwise (· ≤ ·)
  segments_le : ∀ s ∈ cls.flowSegments, s ≤ flowU64s
  masks : (cls.subtablesMap.map ClsSubtable.mask).Nodup
  listed : ∀ S ∈ cls.subtablesMap, S.Listed H cls.fields
  tries : ∀ t ∈ cls.tries, t.root.Holds (cls.subtablesMap.flatMap (ClsSubtable.prefixes t.field))
  vector : cls.subtables.Holds (cls.subtablesMap.map ClsSubtable.entry)

variable {env : Env} {H : FlowHash} {cls : Classifier} {S S' : ClsSubtable} {rest : List ClsSubtable}

theorem Classifier.WF.of_perm {l : List ClsSubtable} (hperm : cls.subtablesMap.Perm l)
    (segments : cls.flowSegments.Pairwise (· ≤ ·)) (segments_le : ∀ s ∈ cls.flowSegments, s ≤ flowU64s)
    (masks : (l.map ClsSubtable.mask).Nodup) (listed : ∀ S ∈ l, S.Listed H cls.fields)
    (tries : ∀ t ∈ cls.tries, t.root.Holds (l.flatMap (ClsSubtable.prefixes t.field)))
    (vector : cls.subtables.Holds (l.map ClsSubtable.entry)) : cls.WF H where
  segments := segments
  segments_le := segments_le
  masks := (hperm.map _).nodup_iff.2 masks
  listed S hS := listed S (hperm.subset hS)
  tries t ht := (tries t ht).perm (hperm.symm.flatMap_right _)
  vector := ⟨vector.published, vector.sorted, vector.perm.trans (hperm.symm.map _)⟩

theorem classifierInit_wf {flowSegments : Option (List Nat)} (h : (flowSegments.getD []).Pairwise (· ≤ ·)) :
    (classifierInit flowSegments).WF H where
  segments := h.sublist ((take_sublist ..).trans (takeWhile_sublist _))
  segments_le s hs := by
    have hlt := all_eq_true.1 all_takeWhile s (mem_of_mem_take hs)
    exact (of_decide_eq_true hlt).le
  masks := .nil
  listed := nofun
  tries := nofun
  vector := ⟨rfl, .nil, .nil⟩

/-! ## One subtable among the others -/

/-- `S` is the subtable that an operation works on, and `rest` are the others. A new subtable has no rules yet, and is
not in the vector. -/
structure Focus (H : FlowHash) (cls : Classifier) (S : ClsSubtable) (rest : List ClsSubtable) : Prop where
  segments : cls.flowSegments.Pairwise (· ≤ ·)
  segments_le : ∀ s ∈ cls.flowSegments, s ≤ flowU64s
  set : ∀ S', S'.mask = S.mask → (cls.setSubtable S').subtablesMap.Perm (S' :: rest)
  masks : ((S :: rest).map ClsSubtable.mask).Nodup
  wf : S.WF H
  plen : S.triePlen = cls.fields.map fun field => field.prefixLen S.mask
  others : ∀ T ∈ rest, T.Listed H cls.fields
  tries : ∀ t ∈ cls.tries, t.root.Holds ((S :: rest).flatMap (ClsSubtable.prefixes t.field))
  vector : S.rules = [] ∧ cls.subtables.Holds (rest.map ClsSubtable.entry) ∨
    S.Listed H cls.fields ∧ cls.subtables.Holds ((S :: rest).map ClsSubtable.entry)

theorem Classifier.WF.focus (h : cls.WF H) (hS : S ∈ cls.subtablesMap) :
    Focus H cls S (Keyed.erase ClsSubtable.mask S.mask cls.subtablesMap) where
  segments := h.segments
  segments_le := h.segments_le
  set _ hmask := Keyed.set_perm h.masks hS hmask
  masks := ((Keyed.perm_of_mem h.masks hS).map _).nodup_iff.1 h.masks
  wf := (h.listed S hS).wf
  plen := (h.listed S hS).plen
  others T hT := h.listed T (Keyed.mem_erase.1 hT).1
  tries t ht := (h.tries t ht).perm ((Keyed.perm_of_mem h.masks hS).flatMap_right _)
  vector := .inr ⟨h.listed S hS, h.vector.published, h.vector.sorted,
    h.vector.perm.trans ((Keyed.perm_of_mem h.masks hS).map _)⟩

theorem indicesOk_empty (mask : Flow) : ∀ (maps : List Flowmap) (done : Flowmap),
    IndicesOk H mask [] done (maps.map fun map => { map, index := [] })
  | [], _ => trivial
  | _ :: maps, _ => ⟨rfl, indicesOk_empty mask maps _⟩

theorem newSubtable_wf (h : cls.WF H) (mask : Flow) : (newSubtable cls mask).WF H where
  cover := by
    refine Eq.trans ?_ (flatten_stageMaps h.segments h.segments_le mask)
    simp [newSubtable, flatMap_map]
  chains := nofun
  flows := .nil
  ids := .nil
  indices := indicesOk_empty mask _ _
  portsLen := rfl
  ports := by
    unfold ClsSubtable.portsPrefixes
    split <;> exact TrieNode.Holds.nil

theorem prefixes_newSubtable (field : MfField) (mask : Flow) : (newSubtable cls mask).prefixes field = [] := by
  unfold ClsSubtable.prefixes
  split <;> rfl

theorem Classifier.WF.focus_new (h : cls.WF H) {mask : Flow} (hmask : ∀ S ∈ cls.subtablesMap, S.mask ≠ mask) :
    Focus H { cls with subtablesMap := newSubtable cls mask :: cls.subtablesMap } (newSubtable cls mask)
      cls.subtablesMap where
  segments := h.segments
  segments_le := h.segments_le
  set S' hS' := by
    have hmap : Keyed.set ClsSubtable.mask S' cls.subtablesMap = cls.subtablesMap :=
      Keyed.set_eq_self fun T hT => hS'.symm ▸ hmask T hT
    show (Keyed.set ClsSubtable.mask S' (newSubtable cls mask :: cls.subtablesMap)).Perm _
    rw [Keyed.set, map_cons, if_pos hS'.symm, ← Keyed.set, hmap]
  masks := by
    refine nodup_cons.2 ⟨fun hmem => ?_, h.masks⟩
    obtain ⟨T, hT, hTmask⟩ := mem_map.1 hmem
    exact hmask T hT hTmask
  wf := newSubtable_wf h mask
  plen := by
    show cls.tries.map _ = (cls.tries.map ClsTrie.field).map _
    rw [map_map]
    rfl
  others := h.listed
  tries t ht := by
    rw [flatMap_cons, prefixes_newSubtable]
    exact h.tries t ht
  vector := .inl ⟨rfl, h.vector⟩

theorem findOrInsertSubtable_spec (h : cls.WF H) (mask : Flow) :
    ∃ rest, Focus H (findOrInsertSubtable cls mask).1 (findOrInsertSubtable cls mask).2 rest ∧
      (findOrInsertSubtable cls mask).2.mask = mask ∧
      cls.clsMatches.Perm ((findOrInsertSubtable cls mask).2.clsMatches ++ rest.flatMap ClsSubtable.clsMatches) := by
  unfold findOrInsertSubtable
  cases hfind : cls.findSubtable mask with
  | none =>
    exact ⟨_, h.focus_new (Keyed.find_none hfind), rfl, .refl _⟩
  | some S =>
    obtain ⟨hS, hmask⟩ := Keyed.find_some hfind
    exact ⟨_, h.focus hS, hmask, (Keyed.perm_of_mem h.masks hS).flatMap_right ClsSubtable.clsMatches⟩

/-! ## Tries -/

theorem updateTries_eq (update : ClsTrie → Flow → Nat → ClsTrie) (flow mask : Flow) : ∀ tries : List ClsTrie,
    updateTries update flow tries ((tries.map ClsTrie.field).map fun field => field.prefixLen mask) =
      tries.map fun t => if t.field.prefixLen mask ≠ 0 then update t flow (t.field.prefixLen mask) else t
  | [] => rfl
  | _ :: tries => congrArg (_ :: ·) (updateTries_eq update flow mask tries)

theorem trieInsert_holds {t : ClsTrie} {f : Flow} {l : List (List Bool)} (ht : t.root.Holds (S.prefixes t.field ++ l))
    (hmask : S'.mask = S.mask) (hflows : S'.rules.map Chain.flow = f :: S.rules.map Chain.flow) :
    (if t.field.prefixLen S.mask ≠ 0 then trieInsert t f (t.field.prefixLen S.mask) else t).root.Holds
      (S'.prefixes t.field ++ l) := by
  unfold ClsSubtable.prefixes at *
  rw [hmask, hflows]
  by_cases hlen : t.field.prefixLen S.mask ≠ 0
  · rw [if_pos hlen] at ht ⊢
    rw [if_pos hlen]
    exact ht.insert _
  · simp_all

theorem trieRemove_holds {t : ClsTrie} {f : Flow} {l : List (List Bool)} (ht : t.root.Holds (S.prefixes t.field ++ l))
    (hmask : S'.mask = S.mask) (hflows : (S.rules.map Chain.flow).Perm (f :: S'.rules.map Chain.flow)) :
    (if t.field.prefixLen S.mask ≠ 0 then trieRemove t f (t.field.prefixLen S.mask) else t).root.Holds
      (S'.prefixes t.field ++ l) := by
  unfold ClsSubtable.prefixes at *
  rw [hmask]
  by_cases hlen : t.field.prefixLen S.mask ≠ 0
  · rw [if_pos hlen] at ht ⊢
    rw [if_pos hlen]
    obtain ⟨root, hroot, hholds⟩ := (ht.perm ((hflows.map _).append_right l)).remove
    unfold trieRemove
    rw [hroot]
    exact hholds
  · simp_all

theorem prefixes_congr (field : MfField) (hmask : S'.mask = S.mask)
    (hflows : S'.rules.map Chain.flow = S.rules.map Chain.flow) : S'.prefixes field = S.prefixes field := by
  unfold ClsSubtable.prefixes
  rw [hmask, hflows]

end LinkerOvs.Cls
