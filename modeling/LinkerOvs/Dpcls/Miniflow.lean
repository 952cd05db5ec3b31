/-
Miniflows (`lib/flow.h`): a map of the words that are there, and their values. `MINIFLOW_FOR_EACH_IN_FLOWMAP` walks
through the words of another map, which need not be there, by stepping over the values in between; here it is shown to
yield the words of the flow that the miniflow stands for.
-/
import LinkerOvs.Flows.WcMap

namespace LinkerOvs.Dpcls

open Cls List

/-! ## Reading a miniflow -/

/-- `struct miniflow` with the values that follow it. -/
structure Miniflow where
  map : Flowmap
  values : List (BitVec 64)
  ordered : map.Pairwise (· < ·)

/-- The value of a word, zero for those that are not in the map (`MINIFLOW_IN_MAP`, `miniflow_get__`). -/
def Miniflow.get (mf : Miniflow) (i : Fin flowU64s) : BitVec 64 :=
  if i ∈ mf.map then mf.values.getD (mf.map.filter (· < i)).length 0 else 0

def miniflowExpand (mf : Miniflow) : Flow := mf.get

def flowmapUnits : Nat := 2

/-- `bits[unit]` of a map. -/
def unitBits (map : Flowmap) (unit : Nat) : Flowmap := map.filter fun i => i.val / 64 = unit

/-- `struct mf_for_each_in_map_aux`. -/
structure MapAux where
  unit : Nat
  fmap : Flowmap
  map : Flowmap
  values : List (BitVec 64)

/-- The `while` loop of `mf_get_next_in_map` over units in which nothing is left, and the rightmost 1-bit after it. -/
def nextInUnits : Nat → MapAux → Option (Fin flowU64s × MapAux)
  | 0, _ => none
  | n + 1, aux =>
    match unitBits aux.map aux.unit with
    | i :: _ => some (i, aux)
    | [] =>
      -- skip remaining data in the previous unit
      let values := aux.values.drop (unitBits aux.fmap aux.unit).length
      if aux.unit + 1 = flowmapUnits then none else nextInUnits n { aux with unit := aux.unit + 1, values := values }

def mfGetNextInMap (aux : MapAux) : Option (BitVec 64 × MapAux) :=
  match nextInUnits flowmapUnits aux with
  | none => none
  | some (i, aux) =>
    let map := aux.map.erase i
    if i ∈ unitBits aux.fmap aux.unit then
      let trash := (unitBits aux.fmap aux.unit).filter (· < i)
      let values := aux.values.drop trash.length
      some (values.headD 0, { aux with fmap := aux.fmap.filter (· ∉ trash), map := map, values := values })
    else some (0, { aux with map := map })

/-- The values that `mf_get_next_in_map` yields, at most `n` of them. -/
def inMapLoop : Nat → MapAux → List (BitVec 64)
  | 0, _ => []
  | n + 1, aux =>
    match mfGetNextInMap aux with
    | none => []
    | some (value, aux) => value :: inMapLoop n aux

/-- The values in order. -/
def miniflowForEachInFlowmap (mf : Miniflow) (map : Flowmap) : List (BitVec 64) :=
  inMapLoop (map.length + 1) ⟨0, mf.map, map, mf.values⟩

/-! ## Ordered lists in two parts -/

theorem filter_append_filter_not {α : Type} {p : α → Bool} : ∀ {l : List α},
    l.Pairwise (fun a b => p b = true → p a = true) → l.filter p ++ l.filter (fun a => !p a) = l
  | [], _ => rfl
  | a :: l, h => by
    obtain ⟨hhead, htail⟩ := pairwise_cons.1 h
    have ih := filter_append_filter_not htail
    by_cases ha : p a = true
    · simp [*]
    · have hnone : l.filter p = [] := filter_eq_nil_iff.2 fun b hb hpb => ha (hhead b hb hpb)
      grind

/-! ## The walk -/

/-- The words of the miniflow that have not been stepped over. -/
def MapAux.live (aux : MapAux) : Flowmap := aux.fmap.filter fun j => aux.unit ≤ j.val / 64

/-- The walk stands at the value of the first word that has not been stepped over, and the words that have been are
below those to come. -/
structure MapAux.At (mf : Miniflow) (aux : MapAux) : Prop where
  fordered : aux.fmap.Pairwise (· < ·)
  ordered : aux.map.Pairwise (· < ·)
  ahead : ∀ i ∈ aux.map, aux.unit ≤ i.val / 64
  stepped : ∃ done, mf.map = done ++ aux.live ∧ aux.values = mf.values.drop done.length ∧
    ∀ j ∈ done, ∀ i ∈ aux.map, j < i

variable {mf : Miniflow} {aux : MapAux}

theorem MapAux.At.init (mf : Miniflow) {map : Flowmap} (hmap : map.Pairwise (· < ·)) :
    MapAux.At mf ⟨0, mf.map, map, mf.values⟩ := by
  refine ⟨mf.ordered, hmap, fun _ _ => Nat.zero_le _, [], ?_, rfl, forall_mem_nil _⟩
  exact (filter_eq_self.2 fun j _ => decide_eq_true (Nat.zero_le _)).symm

theorem MapAux.At.nextUnit (h : aux.At mf) (hunit : unitBits aux.map aux.unit = []) :
    MapAux.At mf { aux with unit := aux.unit + 1, values := aux.values.drop (unitBits aux.fmap aux.unit).length } := by
  have hahead : ∀ i ∈ aux.map, aux.unit + 1 ≤ i.val / 64 := by
    intro i hi
    have hle := h.ahead i hi
    have hne : ¬ i.val / 64 = aux.unit := by
      intro heq
      have hmem : i ∈ unitBits aux.map aux.unit := mem_filter.2 ⟨hi, decide_eq_true heq⟩
      simp_all
    omega
  obtain ⟨done, hdone, hvalues, hbelow⟩ := h.stepped
  refine ⟨h.fordered, h.ordered, hahead, done ++ unitBits aux.fmap aux.unit, ?_, ?_, ?_⟩
  · have hsplit := filter_append_filter_not (p := fun j : Fin flowU64s => decide (j.val / 64 ≤ aux.unit))
      (l := aux.live) ((h.fordered.filter _).imp fun {a b} hab hb => by
        have hb' := of_decide_eq_true hb
        refine decide_eq_true ?_
        omega)
    have hfirst : aux.live.filter (fun j => decide (j.val / 64 ≤ aux.unit)) = unitBits aux.fmap aux.unit := by
      rw [MapAux.live, filter_filter]
      refine filter_congr fun j _ => ?_
      rw [← Bool.decide_and]
      refine decide_eq_decide.2 ?_
      omega
    have hrest : aux.live.filter (fun j => !decide (j.val / 64 ≤ aux.unit)) =
        aux.fmap.filter fun j => aux.unit + 1 ≤ j.val / 64 := by
      rw [MapAux.live, filter_filter]
      refine filter_congr fun j _ => ?_
      rw [← decide_not, ← Bool.decide_and]
      refine decide_eq_decide.2 ?_
      omega
    rw [hfirst, hrest] at hsplit
    rw [hdone, ← hsplit, append_assoc]
    rfl
  · rw [hvalues, drop_drop, length_append]
  · intro j hj i hi
    rcases mem_append.1 hj with hj | hj
    · exact hbelow j hj i hi
    · have heq : j.val / 64 = aux.unit := of_decide_eq_true (mem_filter.1 hj).2
      have := hahead i hi
      omega

theorem MapAux.At.map_eq_cons (h : aux.At mf) {i : Fin flowU64s} {is : Flowmap}
    (hunit : unitBits aux.map aux.unit = i :: is) : ∃ rest, aux.map = i :: rest ∧ i.val / 64 = aux.unit := by
  have hi : i ∈ unitBits aux.map aux.unit := by
    simp [*]
  obtain ⟨himap, hiunit⟩ := mem_filter.1 hi
  have hiunit := of_decide_eq_true hiunit
  rcases hmap : aux.map with _ | ⟨k, rest⟩
  · simp_all
  refine ⟨rest, ?_, hiunit⟩
  have hahead := h.ahead k (by rw [hmap]; exact mem_cons_self)
  have hordered := h.ordered
  rw [hmap] at hordered himap hunit
  have hk : k.val / 64 = aux.unit := by
    rcases mem_cons.1 himap with rfl | hin
    · exact hiunit
    · have hlt : k.val < i.val := (pairwise_cons.1 hordered).1 i hin
      omega
  rw [unitBits, filter_cons, if_pos (decide_eq_true hk)] at hunit
  rw [(List.cons.inj hunit).1]

theorem nextInUnits_spec : ∀ {n : Nat} {aux : MapAux}, aux.At mf → flowmapUnits ≤ n + aux.unit → aux.unit < flowmapUnits →
    match aux.map with
    | [] => nextInUnits n aux = none
    | i :: _ => ∃ aux', nextInUnits n aux = some (i, aux') ∧ aux'.At mf ∧ aux'.map = aux.map ∧ i.val / 64 = aux'.unit
  | 0, _, _, hfuel, hlt => absurd hlt (by omega)
  | n + 1, aux, h, hfuel, hlt => by
    rw [nextInUnits]
    rcases hunit : unitBits aux.map aux.unit with _ | ⟨i, is⟩
    · have h' := h.nextUnit hunit
      by_cases hlast : aux.unit + 1 = flowmapUnits
      · -- all words are in the units there are
        have hnone : aux.map = [] := by
          refine eq_nil_iff_forall_not_mem.2 fun i hi => ?_
          have hle := h'.ahead i hi
          simp only [flowmapUnits, flowU64s] at hlast hlt hle
          omega
        simp [hnone, hlast]
      · simp only [if_neg hlast]
        exact nextInUnits_spec h' (by dsimp only; omega) (by dsimp only; omega)
    · obtain ⟨rest, hmap, hi⟩ := h.map_eq_cons hunit
      simp [*]

/-- The value of the first word to come, and the walk after it. -/
theorem mfGetNextInMap_spec (h : aux.At mf) (hunit : aux.unit < flowmapUnits) :
    match aux.map with
    | [] => mfGetNextInMap aux = none
    | i :: rest => ∃ aux', mfGetNextInMap aux = some (mf.get i, aux') ∧ aux'.At mf ∧ aux'.map = rest ∧
        aux'.unit < flowmapUnits := by
  have hnext := nextInUnits_spec h (show flowmapUnits ≤ flowmapUnits + aux.unit by omega) hunit
  rcases hmap : aux.map with _ | ⟨i, rest⟩
  · rw [hmap] at hnext
    rw [mfGetNextInMap, hnext]
  rw [hmap] at hnext
  obtain ⟨aux, hsome, h, hmap, hi⟩ := hnext
  obtain ⟨done, hdone, hvalues, hbelow⟩ := h.stepped
  rw [hmap] at hbelow
  have hahead : ∀ k ∈ rest, aux.unit ≤ k.val / 64 := fun k hk => h.ahead k (hmap ▸ mem_cons_of_mem i hk)
  have hordered := h.ordered
  rw [hmap] at hordered
  obtain ⟨hfirst, hrest⟩ := pairwise_cons.1 hordered
  have hlast : aux.unit < flowmapUnits := by
    have := i.isLt
    simp only [flowmapUnits, flowU64s] at this ⊢
    omega
  have hmem : i ∈ mf.map ↔ i ∈ unitBits aux.fmap aux.unit := by
    rw [hdone, mem_append, MapAux.live, unitBits, mem_filter, mem_filter]
    grind
  rw [mfGetNextInMap, hsome]
  dsimp only
  rw [hmap, erase_cons_head]
  by_cases hin : i ∈ unitBits aux.fmap aux.unit
  · rw [if_pos hin]
    -- what is stepped over are the words below `i`
    have htrash : (unitBits aux.fmap aux.unit).filter (· < i) = aux.live.filter (· < i) := by
      rw [unitBits, MapAux.live, filter_filter, filter_filter]
      grind
    have hsplit := filter_append_filter_not (p := fun j : Fin flowU64s => decide (j < i)) (l := aux.live)
      ((h.fordered.filter _).imp fun {a b} hab hb => decide_eq_true (hab.trans (of_decide_eq_true hb)))
    have hget : mf.get i = (aux.values.drop ((unitBits aux.fmap aux.unit).filter (· < i)).length).headD 0 := by
      have hdoneAll : done.filter (· < i) = done :=
        filter_eq_self.2 fun j hj => decide_eq_true (hbelow j hj i mem_cons_self)
      rw [Miniflow.get, if_pos (hmem.2 hin), hvalues, drop_drop, headD_eq_head?_getD, head?_drop,
        ← getD_eq_getElem?_getD, htrash, hdone, filter_append,
        hdoneAll, length_append]
    rw [← hget]
    refine ⟨_, rfl, ⟨h.fordered.filter _, hrest, hahead, done ++ aux.live.filter (· < i), ?_, ?_, ?_⟩, rfl, hlast⟩
    · have hlive : aux.live.filter (fun j => !decide (j < i)) =
          (aux.fmap.filter (· ∉ (unitBits aux.fmap aux.unit).filter (· < i))).filter
            fun j => aux.unit ≤ j.val / 64 := by
        rw [htrash, MapAux.live, filter_filter, filter_filter]
        refine filter_congr fun j hj => ?_
        rw [← decide_not, ← Bool.decide_and, ← Bool.decide_and]
        refine decide_eq_decide.2 ?_
        rw [mem_filter, mem_filter, decide_eq_true_eq, decide_eq_true_eq]
        tauto
      refine Eq.trans ?_ (congrArg (done ++ aux.live.filter (· < i) ++ ·) hlive)
      rw [append_assoc, hsplit, hdone]
    · rw [htrash, hvalues, drop_drop, length_append]
    · intro j hj k hk
      grind
  · rw [if_neg hin]
    have hget : mf.get i = 0 := by rw [Miniflow.get, if_neg fun hi => hin (hmem.1 hi)]
    rw [hget]
    refine ⟨_, rfl, ⟨h.fordered, hrest, hahead, done, hdone, hvalues, ?_⟩, rfl, hlast⟩
    simp_all

theorem inMapLoop_eq : ∀ {n : Nat} {aux : MapAux}, aux.At mf → aux.unit < flowmapUnits → aux.map.length < n →
    inMapLoop n aux = aux.map.map mf.get
  | 0, _, _, _, hn => absurd hn (Nat.not_lt_zero _)
  | n + 1, aux, h, hunit, hn => by
    have hnext := mfGetNextInMap_spec h hunit
    rw [inMapLoop]
    rcases hmap : aux.map with _ | ⟨i, rest⟩
    · simp_all
    · rw [hmap] at hnext hn
      obtain ⟨aux', hsome, h', hrest, hunit'⟩ := hnext
      rw [hsome, map_cons, ← hrest]
      dsimp only
      rw [inMapLoop_eq h' hunit' (by rw [hrest]; exact Nat.lt_of_succ_lt_succ hn)]

theorem miniflowForEachInFlowmap_eq (mf : Miniflow) {map : Flowmap} (hmap : map.Pairwise (· < ·)) :
    miniflowForEachInFlowmap mf map = map.map (miniflowExpand mf) :=
  inMapLoop_eq (MapAux.At.init mf hmap) (show 0 < 2 by decide) (Nat.lt_succ_self _)

end LinkerOvs.Dpcls
