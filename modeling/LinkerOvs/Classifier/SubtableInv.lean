/-
What holds of a subtable between the operations of the writer: its stages cover the words of its mask, the
matches of a chain are identical and in order of decreasing priority, no two chains have the same match,
each index has one node for each chain, and the ports trie holds the ports of the chains. Adding and
removing matches keeps all of it.
-/
import LinkerOvs.Classifier.TrieBag
import LinkerOvs.Classifier.FlowBits
import LinkerOvs.Classifier.Subtable
import LinkerOvs.Classifier.Pvector

namespace LinkerOvs.Cls

open List

variable {H : FlowHash}

/-! ## Hashes of stages -/

theorem hashRange_append (f mask : Flow) (s : HashState) (a b : Flowmap) :
    hashRange f mask H s (a ++ b) = hashRange f mask H (hashRange f mask H s a) b := by
  simp only [hashRange, length_append, foldl_append, HashState.mk.injEq, and_true]
  omega

theorem hashRange_congr {f f' mask : Flow} {range : Flowmap} (h : ∀ i ∈ range, f i &&& mask i = f' i &&& mask i)
    (s : HashState) : hashRange f mask H s range = hashRange f' mask H s range := by
  unfold hashRange
  congr 1
  apply foldl_ext
  simp_all

theorem hashRange_of_agrees {f f' mask : Flow} (h : mask.Agrees f f') (range : Flowmap) :
    hashRange f mask H {} range = hashRange f' mask H {} range :=
  hashRange_congr (fun i _ => h.and_eq i) {}

theorem ihashLoop_state (f mask : Flow) : ∀ (stages : List Stage) (s : HashState),
    (ihashLoop H f mask stages s).2 = hashRange f mask H s (stages.flatMap Stage.map)
  | [], s => by simp [ihashLoop, hashRange]
  | stage :: stages, s => by
    rw [flatMap_cons, hashRange_append, ← ihashLoop_state f mask stages]
    rfl

theorem length_ihashLoop (f mask : Flow) : ∀ (stages : List Stage) (s : HashState),
    (ihashLoop H f mask stages s).1.length = stages.length
  | [], _ => rfl
  | _ :: stages, _ => congrArg (· + 1) (length_ihashLoop f mask stages _)

/-! ## Stage maps -/

theorem minimaskMapInRange_append (mask : Flow) {a b c : Nat} (hab : a ≤ b) (hbc : b ≤ c) :
    minimaskMapInRange mask a b ++ minimaskMapInRange mask b c = minimaskMapInRange mask a c := by
  -- the words of a map are in order, so those below `b` come first
  have hsplit : ∀ l : List (Fin flowU64s), l.Pairwise (· < ·) →
      (l.filter fun i => a ≤ i.val ∧ i.val < b) ++ (l.filter fun i => b ≤ i.val ∧ i.val < c) =
        l.filter fun i => a ≤ i.val ∧ i.val < c := by
    intro l hl
    induction l with
    | nil => rfl
    | cons i l ih =>
      obtain ⟨hi, hl⟩ := pairwise_cons.1 hl
      by_cases hib : i.val < b
      · rw [filter_cons_of_neg (p := fun i : Fin flowU64s => decide (b ≤ i.val ∧ i.val < c)) (by simp; omega)]
        by_cases hai : a ≤ i.val
        · grind
        · grind
      have hnone : ((i :: l).filter fun i => a ≤ i.val ∧ i.val < b) = [] := by
        rw [filter_eq_nil_iff]
        intro x hx
        have hix : i ≤ x := by
          grind
        simp
        omega
      rw [hnone]
      grind
  exact hsplit _ ((pairwise_lt_finRange _).sublist filter_sublist)

theorem minimaskMapInRange_all (mask : Flow) : minimaskMapInRange mask 0 flowU64s = minimaskMap mask := by
  rw [minimaskMapInRange]
  simp

/-- The maps of the stages together have the words of the mask up to the end of the last segment. -/
theorem flatten_stageMapsLoop (mask : Flow) : ∀ {segments : List Nat} {prev : Nat},
    (prev :: segments).Pairwise (· ≤ ·) → (∀ s ∈ prev :: segments, s ≤ flowU64s) →
    (stageMapsLoop mask segments prev).1.flatten ++
        minimaskMapInRange mask (stageMapsLoop mask segments prev).2 flowU64s =
      minimaskMapInRange mask prev flowU64s
  | [], _, _, _ => rfl
  | segment :: segments, prev, hsorted, hle => by
    obtain ⟨hprev, hsorted⟩ := pairwise_cons.1 hsorted
    have ih := flatten_stageMapsLoop mask hsorted fun s hs => hle s (mem_cons_of_mem _ hs)
    have hstep := minimaskMapInRange_append mask (hprev segment (by simp)) (hle segment (by simp))
    rw [stageMapsLoop, ← hstep, ← ih]
    grind

theorem ne_nil_of_mem_stageMapsLoop (mask : Flow) : ∀ {segments : List Nat} {prev : Nat} {map : Flowmap},
    map ∈ (stageMapsLoop mask segments prev).1 → map ≠ []
  | _ :: _, _, map, h => by
    rw [stageMapsLoop] at h
    split at h
    · exact ne_nil_of_mem_stageMapsLoop mask h
    · rename_i hne
      rcases mem_cons.1 h with rfl | h
      · exact hne
      · exact ne_nil_of_mem_stageMapsLoop mask h

theorem flatten_stageMaps {segments : List Nat} (hsorted : segments.Pairwise (· ≤ ·)) (hle : ∀ s ∈ segments, s ≤ flowU64s)
    (mask : Flow) : (stageMaps segments mask).1.flatten ++ (stageMaps segments mask).2 = minimaskMap mask := by
  have hcover := flatten_stageMapsLoop mask (pairwise_cons.2 ⟨fun s _ => Nat.zero_le s, hsorted⟩)
    (by rintro s (_ | ⟨_, hs⟩); exacts [Nat.zero_le _, hle s hs])
  rw [minimaskMapInRange_all] at hcover
  unfold stageMaps
  dsimp only
  split
  · -- the last stage has bits, which are not in the final map, so the two are never the same
    rename_i hlast
    have hmem := mem_of_getLast? hlast
    obtain ⟨i, hi⟩ := exists_mem_of_ne_nil _ (ne_nil_of_mem_stageMapsLoop mask hmem)
    have hnodup : (minimaskMap mask).Nodup := (nodup_finRange _).filter _
    rw [← hcover] at hnodup
    exact absurd hi ((nodup_append.1 hnodup).2.2 i (mem_flatten.2 ⟨_, hmem, hi⟩) i · rfl)
  · exact hcover

/-! ## The invariant -/

def Chain.ids (c : Chain) : List Nat := c.list.map fun m => m.rule.id

/-- What holds of a chain in a subtable with this mask. -/
structure Chain.WF (H : FlowHash) (mask : Flow) (c : Chain) : Prop where
  same : ∀ m ∈ c.list, m.rule.flow = c.flow ∧ m.rule.mask = mask
  sorted : c.list.Pairwise fun a b => b.priority ≤ a.priority
  above : ∀ m ∈ c.list, intMin < m.priority
  hash : c.hash = flowHashInMinimask H c.flow mask

/-- The node of a chain in an index over the words of `map`. -/
def Chain.indexNode (H : FlowHash) (mask : Flow) (map : Flowmap) (c : Chain) : IndexNode :=
  { hash := (hashRange c.flow mask H {} map).hash H, head := c.head.rule.id }

/-- The index of each stage has a node for each chain; `done` are the words of the stages before. -/
def IndicesOk (H : FlowHash) (mask : Flow) (rules : List Chain) : Flowmap → List Stage → Prop
  | _, [] => True
  | done, stage :: stages =>
    stage.index = rules.map (Chain.indexNode H mask (done ++ stage.map)) ∧
      IndicesOk H mask rules (done ++ stage.map) stages

namespace ClsSubtable

/-- The prefixes in the ports trie of a subtable. -/
def portsPrefixes (S : ClsSubtable) : List (List Bool) :=
  if S.portsMaskLen ≠ 0 then (S.rules.map Chain.flow).map S.portsPrefix else []

structure WF (H : FlowHash) (S : ClsSubtable) : Prop where
  cover : S.stages.flatMap Stage.map ++ S.lastMap = minimaskMap S.mask
  chains : ∀ c ∈ S.rules, c.WF H S.mask
  flows : (S.rules.map Chain.flow).Nodup
  ids : (S.rules.flatMap Chain.ids).Nodup
  indices : IndicesOk H S.mask S.rules [] S.stages
  portsLen : S.portsMaskLen = Cls.portsMaskLen S.mask
  ports : S.portsTrie.Holds S.portsPrefixes

end ClsSubtable

variable {S : ClsSubtable} {c c' : Chain} {mask : Flow} {rules rules' : List Chain}

theorem Chain.head_mem (c : Chain) : c.head ∈ c.list := List.head_mem c.nonempty

theorem Chain.head_eq {m : ClsMatch} {rest : List ClsMatch} (h : c.list = m :: rest) : c.head = m := by
  simp only [Chain.head, h, head_cons]

theorem Chain.head_id_mem (c : Chain) : c.head.rule.id ∈ c.ids := mem_map_of_mem c.head_mem

theorem le_of_sorted {x m : ClsMatch} {xs : List ClsMatch} (h : (x :: xs).Pairwise fun a b => b.priority ≤ a.priority)
    (hm : m ∈ x :: xs) : m.priority ≤ x.priority := by
  rcases mem_cons.1 hm with rfl | hm
  · exact le_refl _
  · exact (pairwise_cons.1 h).1 m hm

theorem Chain.WF.le_head (h : c.WF H mask) {m : ClsMatch} (hm : m ∈ c.list) : m.priority ≤ c.head.priority := by
  have hlist : c.list = c.head :: c.list.tail := (cons_head_tail c.nonempty).symm
  have hsorted := h.sorted
  rw [hlist] at hm hsorted
  exact le_of_sorted hsorted hm

namespace ClsSubtable

theorem mem_clsMatches {m : ClsMatch} : m ∈ S.clsMatches ↔ ∃ c ∈ S.rules, m ∈ c.list := mem_flatMap

theorem mem_ids {id : Nat} : id ∈ S.rules.flatMap Chain.ids ↔ ∃ m ∈ S.clsMatches, m.rule.id = id := by
  simp only [mem_flatMap, Chain.ids, mem_map, clsMatches]
  grind

theorem WF.hash_eq (h : S.WF H) (f : Flow) : S.hash H f = flowHashInMinimask H f S.mask := by
  rw [ClsSubtable.hash, ihashLoop_state, ← hashRange_append, h.cover]
  rfl

theorem WF.eq_of_id (h : S.WF H) (hc : c ∈ S.rules) (hc' : c' ∈ S.rules) {id : Nat} (hid : id ∈ c.ids)
    (hid' : id ∈ c'.ids) : c = c' := by
  by_contra hne
  have : Std.Symm (Function.onFun List.Disjoint Chain.ids) := ⟨fun _ _ h => h.symm⟩
  have hdisjoint := (nodup_flatMap.1 h.ids).2.forall hc hc' hne
  exact hdisjoint hid hid'

theorem WF.eq_of_flow (h : S.WF H) (hc : c ∈ S.rules) (hc' : c' ∈ S.rules) (heq : c.flow = c'.flow) : c = c' :=
  inj_on_of_nodup_map h.flows hc hc' heq

theorem WF.findEqual_iff (h : S.WF H) {f : Flow} :
    S.findEqual f (S.hash H f) = some c ↔ c ∈ S.rules ∧ c.flow = f := by
  unfold findEqual
  constructor
  · grind
  · rintro ⟨hc, rfl⟩
    have hhash : c.hash = S.hash H c.flow := by rw [(h.chains c hc).hash, h.hash_eq]
    cases hfind : S.rules.find? fun x => x.hash = S.hash H c.flow ∧ x.flow = c.flow with
    | none =>
      grind
    | some x =>
      have hp := find?_some hfind
      simp only [decide_eq_true_eq] at hp
      rw [h.eq_of_flow (mem_of_find?_eq_some hfind) hc hp.2]

theorem WF.findEqual_none (h : S.WF H) {f : Flow} (hfind : S.findEqual f (S.hash H f) = none) :
    ∀ c ∈ S.rules, c.flow ≠ f := by
  intro c hc heq
  rw [h.findEqual_iff.2 ⟨hc, heq⟩] at hfind
  cases hfind

end ClsSubtable

/-! ## Changing the indices -/

theorem flatMap_map_updateIndices (update : List IndexNode → UInt32 → List IndexNode) (f : Flow) :
    ∀ (stages : List Stage) (s : HashState),
      (List.zipWith (fun (stage : Stage) h => { stage with index := update stage.index h }) stages
        (ihashLoop H f mask stages s).1).flatMap Stage.map = stages.flatMap Stage.map
  | [], _ => rfl
  | stage :: stages, s => by
    rw [ihashLoop, zipWith_cons_cons, flatMap_cons, flatMap_cons,
      flatMap_map_updateIndices update f stages]

/-- A change of the indices for a flow `f`, which does to the nodes of each index what is done to the chains. -/
theorem IndicesOk.update {update : List IndexNode → UInt32 → List IndexNode} {f : Flow}
    (hupdate : ∀ map, update (rules.map (Chain.indexNode H mask map)) ((hashRange f mask H {} map).hash H) =
      rules'.map (Chain.indexNode H mask map)) : ∀ {stages : List Stage} {done : Flowmap},
    IndicesOk H mask rules done stages →
      IndicesOk H mask rules' done (List.zipWith (fun (stage : Stage) h => { stage with index := update stage.index h })
        stages (ihashLoop H f mask stages (hashRange f mask H {} done)).1)
  | [], _, _ => trivial
  | stage :: stages, done, h => by
    obtain ⟨hindex, hrest⟩ := h
    rw [ihashLoop, zipWith_cons_cons, ← hashRange_append]
    refine ⟨?_, IndicesOk.update hupdate hrest⟩
    rw [hindex, hupdate]

namespace ClsSubtable

theorem WF.cover_update (h : S.WF H) (update : List IndexNode → UInt32 → List IndexNode) (f : Flow) :
    (S.updateIndices update (S.ihash H f)).flatMap Stage.map ++ S.lastMap = minimaskMap S.mask := by
  unfold updateIndices ihash
  rw [flatMap_map_updateIndices]
  exact h.cover

theorem WF.indices_update (h : S.WF H) (update : List IndexNode → UInt32 → List IndexNode) (f : Flow)
    (hupdate : ∀ map, update (S.rules.map (Chain.indexNode H S.mask map)) ((hashRange f S.mask H {} map).hash H) =
      rules'.map (Chain.indexNode H S.mask map)) :
    IndicesOk H S.mask rules' [] (S.updateIndices update (S.ihash H f)) :=
  IndicesOk.update hupdate h.indices

theorem WF.cmapReplace_eq (h : S.WF H) (hc : c ∈ S.rules) (hflow : c'.flow = c.flow) (map : Flowmap) :
    cmapReplace (S.rules.map (Chain.indexNode H S.mask map)) c.head.rule.id c'.head.rule.id
        ((hashRange c.flow S.mask H {} map).hash H) =
      (Keyed.set Chain.flow c' S.rules).map (Chain.indexNode H S.mask map) := by
  rw [cmapReplace, Keyed.set, map_map, map_map]
  apply map_congr_left
  intro x hx
  simp only [Function.comp_apply]
  by_cases hxc : x.flow = c.flow
  · obtain rfl := h.eq_of_flow hx hc hxc
    rw [if_pos ⟨rfl, rfl⟩, if_pos hflow.symm]
    simp only [Chain.indexNode, hflow]
  · have hid : x.head.rule.id ≠ c.head.rule.id := by
      intro heq
      exact hxc (congrArg Chain.flow (h.eq_of_id hx hc x.head_id_mem (heq ▸ c.head_id_mem)))
    rw [if_neg fun hnode => hid hnode.2, if_neg (hflow ▸ hxc)]

theorem WF.cmapRemove_eq (h : S.WF H) (hc : c ∈ S.rules) (map : Flowmap) :
    cmapRemove (S.rules.map (Chain.indexNode H S.mask map)) c.head.rule.id
        ((hashRange c.flow S.mask H {} map).hash H) =
      (Keyed.erase Chain.flow c.flow S.rules).map (Chain.indexNode H S.mask map) := by
  rw [cmapRemove, filter_map]
  congr 1
  apply filter_congr
  intro x hx
  simp only [Function.comp_apply, decide_eq_decide, not_iff_not]
  constructor
  · rintro ⟨-, hid : x.head.rule.id = c.head.rule.id⟩
    exact congrArg Chain.flow (h.eq_of_id hx hc x.head_id_mem (hid ▸ c.head_id_mem))
  · intro hflow
    obtain rfl := h.eq_of_flow hx hc hflow
    exact ⟨rfl, rfl⟩

/-! ## Adding and removing chains -/

theorem addHead_wf (h : S.WF H) {new : ClsMatch} (hmask : new.rule.mask = S.mask)
    (hflow : ∀ c ∈ S.rules, c.flow ≠ new.rule.flow) (hid : ∀ m ∈ S.clsMatches, m.rule.id ≠ new.rule.id)
    (hpri : intMin < new.priority) : (S.addHead H new).WF H := by
  have hchain : Chain.WF H S.mask { hash := S.hash H new.rule.flow, list := [new], nonempty := cons_ne_nil _ _ } := by
    refine ⟨?_, pairwise_singleton .., ?_, h.hash_eq _⟩
    · rintro m (_ | ⟨_, ⟨⟩⟩)
      exact ⟨rfl, hmask⟩
    · simp [*]
  refine ⟨?_, ?_, ?_, ?_, ?_, h.portsLen, ?_⟩
  · exact h.cover_update (fun index h => ⟨h, new.rule.id⟩ :: index) new.rule.flow
  · exact forall_mem_cons.2 ⟨hchain, h.chains⟩
  · refine nodup_cons.2 ⟨fun hmem => ?_, h.flows⟩
    obtain ⟨c, hc, hcflow⟩ := mem_map.1 hmem
    exact hflow c hc hcflow
  · refine nodup_cons.2 ⟨fun hmem => ?_, h.ids⟩
    obtain ⟨m, hm, hmid⟩ := mem_ids.1 hmem
    exact hid m hm hmid
  · exact h.indices_update (fun index h => ⟨h, new.rule.id⟩ :: index) new.rule.flow fun map => rfl
  · have hports := h.ports
    unfold portsPrefixes addHead at *
    split
    · rename_i hlen
      rw [if_pos hlen] at hports
      exact hports.insert _
    · grind

/-- Replacing the head of a chain, and other matches of it, with others of the same flow. -/
theorem replaceHeadRule_wf (h : S.WF H) (hc : c ∈ S.rules) (hflow : c'.flow = c.flow) (hwf : c'.WF H S.mask)
    (hnodup : c'.ids.Nodup) (hids : ∀ id ∈ c'.ids, id ∈ c.ids ∨ id ∉ S.rules.flatMap Chain.ids) :
    (S.replaceHeadRule H c c').WF H := by
  have hflows : (Keyed.set Chain.flow c' S.rules).map Chain.flow = S.rules.map Chain.flow := Keyed.map_key_set
  refine ⟨?_, ?_, ?_, ?_, ?_, h.portsLen, ?_⟩
  · exact h.cover_update (fun index => cmapReplace index c.head.rule.id c'.head.rule.id) c.flow
  · intro x hx
    rcases Keyed.mem_set h.flows hc hflow hx with rfl | ⟨hx, -⟩
    · exact hwf
    · exact h.chains x hx
  · exact hflows ▸ h.flows
  · -- the rules of the new chain are those of the old one or in no other chain
    have hold := ((Keyed.perm_of_mem h.flows hc).flatMap_right Chain.ids).nodup_iff.1 h.ids
    refine ((Keyed.set_perm h.flows hc hflow).flatMap_right Chain.ids).nodup_iff.2 ?_
    rw [flatMap_cons, nodup_append] at hold ⊢
    refine ⟨hnodup, hold.2.1, ?_⟩
    intro id hid id' hid' heq
    subst heq
    rcases hids id hid with hid | hid
    · exact hold.2.2 id hid id hid' rfl
    · obtain ⟨x, hx, hxid⟩ := mem_flatMap.1 hid'
      exact hid (mem_flatMap.2 ⟨x, (Keyed.mem_erase.1 hx).1, hxid⟩)
  · exact h.indices_update (fun index => cmapReplace index c.head.rule.id c'.head.rule.id) c.flow
      (h.cmapReplace_eq hc hflow)
  · have hports := h.ports
    unfold portsPrefixes replaceHeadRule setChain at *
    rw [hflows]
    exact hports

theorem cmapReplace_self (index : List IndexNode) (id : Nat) (hash : UInt32) : cmapReplace index id id hash = index := by
  refine (map_congr_left fun n _ => ?_).trans (map_id index)
  split
  · rename_i hn
    rw [← hn.2]
    rfl
  · rfl

theorem zipWith_self_of_length_eq : ∀ {stages : List Stage} {ihash : List UInt32}, ihash.length = stages.length →
    List.zipWith (fun (stage : Stage) (_ : UInt32) => stage) stages ihash = stages
  | [], _, _ => by simp
  | _ :: _, _ :: _, h => by
    rw [zipWith_cons_cons, zipWith_self_of_length_eq (by simpa using h)]

/-- A chain that keeps its head: the indices stay as they are. -/
theorem replaceHeadRule_eq_setChain (hhead : c'.head.rule.id = c.head.rule.id) :
    S.replaceHeadRule H c c' = S.setChain c' := by
  unfold replaceHeadRule updateIndices ihash
  rw [hhead]
  simp only [cmapReplace_self]
  rw [zipWith_self_of_length_eq (length_ihashLoop c.flow S.mask S.stages {})]
  rfl

theorem removeHead_wf (h : S.WF H) (hc : c ∈ S.rules) : (S.removeHead H c).WF H := by
  have hperm := Keyed.perm_of_mem h.flows hc
  refine ⟨?_, ?_, h.flows.sublist (filter_sublist.map _), ?_, ?_, h.portsLen, ?_⟩
  · exact h.cover_update (fun index => cmapRemove index c.head.rule.id) c.flow
  · exact fun x hx => h.chains x (Keyed.mem_erase.1 hx).1
  · have hold := (hperm.flatMap_right Chain.ids).nodup_iff.1 h.ids
    rw [flatMap_cons, nodup_append] at hold
    exact hold.2.1
  · exact h.indices_update (fun index => cmapRemove index c.head.rule.id) c.flow (h.cmapRemove_eq hc)
  · have hports := h.ports
    unfold portsPrefixes removeHead at *
    split
    · rename_i hlen
      rw [if_pos hlen] at hports
      obtain ⟨t, ht, hholds⟩ := (hports.perm ((hperm.map Chain.flow).map S.portsPrefix)).remove
      rw [ht]
      exact hholds
    · grind

end ClsSubtable

end LinkerOvs.Cls
