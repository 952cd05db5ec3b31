/-
The list of PGWs (`ofproto/gtp-manager.c`) under any sequence of additions, deletions and selections. The selection
goes round the slots in use as long as slot 0 is one of them or no wrap-around is due; the list is a finite map from
addresses as long as no address is added twice and there is room.
-/
import LinkerOvs.Lib.Run
import LinkerOvs.Gtp.Manager

namespace LinkerOvs.Gtp

open List
open Function (update update_of_ne update_self)

/-- The calls that work on the list of PGWs. -/
inductive PgwCall
  | add (e : GtpPgwNode)
  | del (ip : UInt32)
  | get

def PgwCall.run (s : Manager) : PgwCall → Except Fault Manager
  | .add e => gtpManagerAddPgw s e
  | .del ip => .ok (gtpManagerDelPgw s ip)
  | .get => .ok (gtpManagerGetPgw s).2

def PgwStep (s : Manager) (c : PgwCall) (s' : Manager) : Prop := c.run s = .ok s'

/-! ## Round robin -/

/-- The slots in use from `start` on. -/
def liveFrom (s : Manager) (start : Nat) : List Nat :=
  (List.range' start (s.endIdx - start)).filter fun i => (s.pgwList i).gtpPgwIp ≠ 0

def liveSlots (s : Manager) : List Nat := liveFrom s 0

/-- What so many calls of `gtp_manager_get_pgw` in a row return. -/
def getPgws : Nat → Manager → List Nat
  | 0, _ => []
  | n + 1, s => (gtpManagerGetPgw s).1 :: getPgws n (gtpManagerGetPgw s).2

variable {s s' : Manager} {i : Nat} {ip : UInt32} {e : GtpPgwNode} {m : UInt32 → Option GtpPgwNode}

theorem mem_liveFrom {start : Nat} :
    i ∈ liveFrom s start ↔ start ≤ i ∧ i < s.endIdx ∧ (s.pgwList i).gtpPgwIp ≠ 0 := by
  rw [liveFrom, mem_filter, mem_range'_1, decide_eq_true_eq]
  grind

theorem pairwise_liveFrom (s : Manager) (start : Nat) : (liveFrom s start).Pairwise (· < ·) :=
  (pairwise_lt_range' 1).filter _

theorem liveFrom_split (s : Manager) {a b : Nat} (h : a ≤ b) :
    liveFrom s a = (liveFrom s a).filter (· < b) ++ liveFrom s b := by
  have hsplit : ∀ n, List.range' a n = (List.range' a n).filter (· < b) ++ List.range' b (n - (b - a)) := by
    intro n
    rcases Nat.le_total n (b - a) with hle | hle
    · have hall : (List.range' a n).filter (· < b) = List.range' a n :=
        filter_eq_self.2 fun i hi => decide_eq_true (by have := mem_range'_1.1 hi; omega)
      rw [hall, Nat.sub_eq_zero_of_le hle, List.range'_zero, append_nil]
    have hcut : List.range' a n = List.range' a (b - a) ++ List.range' b (n - (b - a)) := by
      have happ := List.range'_append_1 (s := a) (m := b - a) (n := n - (b - a))
      grind
    have hleft : (List.range' a (b - a)).filter (· < b) = List.range' a (b - a) :=
      filter_eq_self.2 fun i hi => decide_eq_true (by have := mem_range'_1.1 hi; omega)
    have hright : (List.range' b (n - (b - a))).filter (· < b) = [] :=
      filter_eq_nil_iff.2 fun i hi => by
        grind
    rw [hcut, filter_append, hleft, hright, append_nil]
  rw [liveFrom, filter_comm, liveFrom, ← filter_append, show s.endIdx - b = s.endIdx - a - (b - a) by omega,
    ← hsplit]

theorem gtpManagerGetPgw_of_cons {rest : List Nat} (h : liveFrom s s.current = i :: rest) :
    gtpManagerGetPgw s = (i, { s with current := i + 1 }) := by
  have hfind : (List.range' s.current (s.endIdx - s.current)).find? (fun i => (s.pgwList i).gtpPgwIp ≠ 0) = some i := by
    rw [← head?_filter, ← liveFrom, h, head?_cons]
  rw [gtpManagerGetPgw, hfind]

theorem gtpManagerGetPgw_of_nil (h : liveFrom s s.current = []) :
    gtpManagerGetPgw s = (0, { s with current := 1 }) := by
  have hfind : (List.range' s.current (s.endIdx - s.current)).find? (fun i => (s.pgwList i).gtpPgwIp ≠ 0) = none := by
    rw [← head?_filter, ← liveFrom, h, head?_nil]
  rw [gtpManagerGetPgw, hfind]

theorem liveFrom_succ {start : Nat} {rest : List Nat} (h : liveFrom s start = i :: rest) :
    liveFrom s (i + 1) = rest := by
  have hi : i ∈ liveFrom s start := h ▸ mem_cons_self
  have hsorted : (i :: rest).Pairwise (· < ·) := h ▸ pairwise_liveFrom s start
  have hbelow : (i :: rest).filter (· < i + 1) = [i] := by
    simp_all
  have hsplit := liveFrom_split s (show start ≤ i + 1 from Nat.le_succ_of_le (mem_liveFrom.1 hi).1)
  grind

/-- The calls first go through the slots in use from the cursor on. -/
theorem getPgws_take : ∀ {l rest : List Nat} {c : Nat}, liveFrom s c = l ++ rest →
    getPgws l.length { s with current := c } = l
  | [], rest, c, _ => rfl
  | i :: l, rest, c, h => by
    have hget := gtpManagerGetPgw_of_cons (s := { s with current := c }) h
    rw [length_cons, getPgws, hget]
    exact congrArg (i :: ·) (getPgws_take (liveFrom_succ h))

/-- When no slot in use is left, they start again with slot 0. -/
theorem getPgws_wrap (n : Nat) : ∀ {l : List Nat} {c : Nat}, liveFrom s c = l →
    getPgws (l.length + (n + 1)) { s with current := c } = l ++ 0 :: getPgws n { s with current := 1 }
  | [], c, h => by
    have hget := gtpManagerGetPgw_of_nil (s := { s with current := c }) h
    rw [length_nil, Nat.zero_add, getPgws, hget, nil_append]
  | i :: l, c, h => by
    have hget := gtpManagerGetPgw_of_cons (s := { s with current := c }) h
    rw [length_cons, show l.length + 1 + (n + 1) = l.length + (n + 1) + 1 by omega, getPgws, hget]
    exact congrArg (i :: ·) (getPgws_wrap n (liveFrom_succ h))

/-- As many calls in a row as there are slots in use return each of them once, just when slot 0 is in use or none of
them is behind the cursor: at the wrap-around slot 0 is returned without a look at it. -/
theorem getPgws_each_once_iff (s : Manager) : (getPgws (liveSlots s).length s).Perm (liveSlots s) ↔
    0 ∈ liveSlots s ∨ ∀ i ∈ liveSlots s, s.current ≤ i := by
  have hsplit : liveSlots s = (liveSlots s).filter (· < s.current) ++ liveFrom s s.current :=
    liveFrom_split s (Nat.zero_le s.current)
  cases hbehind : (liveSlots s).filter (· < s.current) with
  | nil =>
    rw [hbehind, nil_append] at hsplit
    have hall : ∀ i ∈ liveSlots s, s.current ≤ i := by
      intro i hi
      rw [hsplit] at hi
      exact (mem_liveFrom.1 hi).1
    refine iff_of_true ?_ (.inr hall)
    have hfrom : liveFrom s s.current = liveSlots s ++ [] := by rw [append_nil, ← hsplit]
    exact .of_eq (getPgws_take hfrom)
  | cons a behind =>
    have ha : a ∈ liveSlots s ∧ a < s.current := by
      have hmem : a ∈ (liveSlots s).filter (· < s.current) := hbehind ▸ mem_cons_self
      simpa using mem_filter.1 hmem
    rw [hbehind] at hsplit
    have hlen : (liveSlots s).length = (liveFrom s s.current).length + (behind.length + 1) := by
      rw [hsplit, length_append, length_cons]
      omega
    have hcalls : getPgws (liveSlots s).length s =
        liveFrom s s.current ++ 0 :: getPgws behind.length { s with current := 1 } := by
      rw [hlen]
      exact getPgws_wrap behind.length (s := s) rfl
    rw [hcalls]
    constructor
    · intro hperm
      exact .inl (hperm.subset (mem_append_right _ mem_cons_self))
    · rintro (hzero | hall)
      · -- slot 0 is the first slot in use, and those behind the cursor follow it
        have hfirst : a = 0 := by
          have hsorted : (liveSlots s).Pairwise (· < ·) := pairwise_liveFrom s 0
          rw [hsplit, cons_append, pairwise_cons] at hsorted
          rw [hsplit, cons_append, mem_cons] at hzero
          rcases hzero with hzero | hzero
          · exact hzero.symm
          · exact absurd (hsorted.1 0 hzero) (Nat.not_lt_zero a)
        subst hfirst
        have hrest : liveFrom s 1 = behind ++ liveFrom s s.current := liveFrom_succ hsplit
        rw [getPgws_take hrest]
        rw [hsplit]
        exact perm_middle.trans (perm_append_comm.cons 0)
      · exact absurd (hall a ha.1) (by omega)

def pgwNode (ip : UInt32) (port : UInt16) : GtpPgwNode := ⟨port, 0, port, 0, ip⟩

/-- Two PGWs, of which the first leaves: the second is returned once, and then slot 0, which is free. -/
theorem deleted_slot_returned : ∃ s, Run PgwStep (gtpManagerInit ⟨0, 0, 0, 0, 0, 0, 0⟩)
      [.add (pgwNode 1 1), .add (pgwNode 2 2), .del 1, .get] s ∧
    liveSlots s = [1] ∧ getPgws 1 s = [0] ∧ ¬ (getPgws (liveSlots s).length s).Perm (liveSlots s) := by
  refine ⟨_, .cons rfl (.cons rfl (.cons rfl (.cons rfl (.nil _)))), by decide, by decide, ?_⟩
  decide

/-! ## The list as a map -/

/-- The map from addresses to PGWs that the calls so far describe. -/
def applyPgwCall (m : UInt32 → Option GtpPgwNode) : PgwCall → UInt32 → Option GtpPgwNode
  | .add e => update m e.gtpPgwIp (some e)
  | .del ip => update m ip none
  | .get => m

/-- The most recent addition of an address, if it has not been deleted since. -/
def pgwMap (calls : List PgwCall) : UInt32 → Option GtpPgwNode := calls.foldl applyPgwCall fun _ => none

/-- The list holds the PGWs of a map, each in one slot. -/
structure HoldsMap (s : Manager) (m : UInt32 → Option GtpPgwNode) : Prop where
  bounded : s.endIdx ≤ maxPgwPerNode
  unique : ∀ i j, i < s.endIdx → j < s.endIdx → (s.pgwList i).gtpPgwIp = (s.pgwList j).gtpPgwIp →
    (s.pgwList i).gtpPgwIp ≠ 0 → i = j
  slot : ∀ i, i < s.endIdx → (s.pgwList i).gtpPgwIp ≠ 0 → m (s.pgwList i).gtpPgwIp = some (s.pgwList i)
  entry : ∀ ip e, ip ≠ 0 → m ip = some e → ∃ i, i < s.endIdx ∧ s.pgwList i = e ∧ e.gtpPgwIp = ip

/-- An addition of an address that no slot has, or of zero, while there is a free slot. -/
def KeepsPgwMap (s : Manager) : PgwCall → Prop
  | .add e => (e.gtpPgwIp ≠ 0 → gtpManagerFindPgw s e.gtpPgwIp = none) ∧
      ((gtpManagerFindPgw s 0).isSome ∨ s.endIdx < maxPgwPerNode)
  | _ => True

instance (s : Manager) : (c : PgwCall) → Decidable (KeepsPgwMap s c)
  | .add _ => inferInstanceAs (Decidable (_ ∧ _))
  | .del _ => inferInstanceAs (Decidable True)
  | .get => inferInstanceAs (Decidable True)

theorem slotOf_some (h : slotOf s ip = some i) : i < s.endIdx ∧ (s.pgwList i).gtpPgwIp = ip :=
  ⟨mem_range.1 (mem_of_find?_eq_some h), by simpa using find?_some h⟩

theorem slotOf_none (h : slotOf s ip = none) : ∀ i, i < s.endIdx → (s.pgwList i).gtpPgwIp ≠ ip := by
  intro i hi
  simpa using find?_eq_none.1 h i (mem_range.2 hi)

/-- The slot that an addition takes: one with address zero, or the next one behind the others. -/
theorem gtpManagerAddPgw_cases (h : gtpManagerAddPgw s e = .ok s') :
    ∃ k, s'.pgwList = update s.pgwList k e ∧
      (k < s.endIdx ∧ (s.pgwList k).gtpPgwIp = 0 ∧ s'.endIdx = s.endIdx ∨
        k = s.endIdx ∧ s.endIdx < maxPgwPerNode ∧ s'.endIdx = s.endIdx + 1) := by
  unfold gtpManagerAddPgw at h
  cases hslot : slotOf s 0 with
  | some k =>
    rw [hslot] at h
    cases h
    exact ⟨k, rfl, .inl ⟨(slotOf_some hslot).1, (slotOf_some hslot).2, rfl⟩⟩
  | none =>
    rw [hslot] at h
    by_cases hroom : s.endIdx < maxPgwPerNode
    · rw [if_pos hroom] at h
      cases h
      exact ⟨s.endIdx, rfl, .inr ⟨rfl, hroom, rfl⟩⟩
    · simp_all

theorem gtpManagerAddPgw_succeeds (h : (gtpManagerFindPgw s 0).isSome ∨ s.endIdx < maxPgwPerNode) :
    ∃ s', gtpManagerAddPgw s e = .ok s' := by
  rw [gtpManagerFindPgw] at h
  rw [gtpManagerAddPgw]
  cases hslot : slotOf s 0 with
  | some k => exact ⟨_, rfl⟩
  | none =>
    simp_all

theorem HoldsMap.add (h : HoldsMap s m)
    (hnew : e.gtpPgwIp ≠ 0 → gtpManagerFindPgw s e.gtpPgwIp = none) (hadd : gtpManagerAddPgw s e = .ok s') :
    HoldsMap s' (applyPgwCall m (.add e)) := by
  obtain ⟨k, hlist, hslot⟩ := gtpManagerAddPgw_cases hadd
  have hself : s'.pgwList k = e := by rw [hlist, update_self]
  have hother : ∀ i, i ≠ k → s'.pgwList i = s.pgwList i := fun i hi => by rw [hlist, update_of_ne hi]
  have hlt : ∀ i, i < s'.endIdx → i ≠ k → i < s.endIdx := by
    omega
  have hgrow : s.endIdx ≤ s'.endIdx ∧ k < s'.endIdx := by
    omega
  have hfresh : e.gtpPgwIp ≠ 0 → ∀ i, i < s.endIdx → (s.pgwList i).gtpPgwIp ≠ e.gtpPgwIp :=
    fun hip => slotOf_none (hnew hip)
  refine ⟨?_, ?_, ?_, ?_⟩
  · have := h.bounded
    omega
  · intro i j hi hj heq hip
    by_cases hik : i = k
    · grind
    rw [hother i hik] at heq hip
    by_cases hjk : j = k
    · grind
    · rw [hother j hjk] at heq
      exact h.unique i j (hlt i hi hik) (hlt j hj hjk) heq hip
  · intro i hi hip
    rw [applyPgwCall]
    by_cases hik : i = k
    · rw [hik, hself, update_self]
    rw [hother i hik] at hip ⊢
    have hne : (s.pgwList i).gtpPgwIp ≠ e.gtpPgwIp := by
      grind
    rw [update_of_ne hne]
    exact h.slot i (hlt i hi hik) hip
  · intro ip e' hip he'
    rw [applyPgwCall] at he'
    by_cases heq : ip = e.gtpPgwIp
    · grind
    rw [update_of_ne heq] at he'
    obtain ⟨i, hi, rfl, hei⟩ := h.entry ip e' hip he'
    grind

theorem HoldsMap.del (h : HoldsMap s m) (ip : UInt32) :
    HoldsMap (gtpManagerDelPgw s ip) (applyPgwCall m (.del ip)) := by
  rw [gtpManagerDelPgw, applyPgwCall]
  cases hslot : slotOf s ip with
  | none =>
    refine ⟨h.bounded, h.unique, ?_, ?_⟩
    · intro i hi hip
      rw [update_of_ne (slotOf_none hslot i hi)]
      exact h.slot i hi hip
    · intro ip' e hip' he
      by_cases heq : ip' = ip
      · simp_all
      · rw [update_of_ne heq] at he
        exact h.entry ip' e hip' he
  | some k =>
    obtain ⟨hk, hkip⟩ := slotOf_some hslot
    -- the freed slot has address zero, the others are as they were
    have hlive : ∀ i, (update s.pgwList k { s.pgwList k with gtpPgwIp := 0, gtpPgwPort := 0, pgwSgiPort := 0 }
        i).gtpPgwIp ≠ 0 → i ≠ k := by
      grind
    refine ⟨h.bounded, ?_, ?_, ?_⟩
    · intro i j hi hj heq hip
      have hik := hlive i hip
      have hjk := hlive j (heq ▸ hip)
      dsimp only at heq hip
      rw [update_of_ne hik] at heq hip
      rw [update_of_ne hjk] at heq
      exact h.unique i j hi hj heq hip
    · intro i hi hip
      have hik := hlive i hip
      dsimp only at hip ⊢
      rw [update_of_ne hik] at hip ⊢
      have hne : (s.pgwList i).gtpPgwIp ≠ ip := fun heq => hik (h.unique i k hi hk (heq.trans hkip.symm) hip)
      rw [update_of_ne hne]
      exact h.slot i hi hip
    · intro ip' e hip' he
      by_cases heq : ip' = ip
      · simp_all
      rw [update_of_ne heq] at he
      obtain ⟨i, hi, hei, heip⟩ := h.entry ip' e hip' he
      have hik : i ≠ k := by
        rintro rfl
        simp_all
      exact ⟨i, hi, (update_of_ne hik _ _).trans hei, heip⟩

theorem HoldsMap.get (h : HoldsMap s m) : HoldsMap (gtpManagerGetPgw s).2 m := by
  rw [gtpManagerGetPgw]
  split
  · exact ⟨h.bounded, h.unique, h.slot, h.entry⟩
  · exact ⟨h.bounded, h.unique, h.slot, h.entry⟩

theorem HoldsMap.step {c : PgwCall} (h : HoldsMap s m) (hc : KeepsPgwMap s c) (hs : PgwStep s c s') :
    HoldsMap s' (applyPgwCall m c) := by
  cases c with
  | add e => exact h.add hc.1 hs
  | del ip =>
    cases hs
    exact h.del ip
  | get =>
    cases hs
    exact h.get

theorem HoldsMap.find (h : HoldsMap s m) (hip : ip ≠ 0) :
    (gtpManagerFindPgw s ip = none ↔ m ip = none) ∧
      ∀ i, gtpManagerFindPgw s ip = some i → m ip = some (s.pgwList i) := by
  have hsome : ∀ i, slotOf s ip = some i → m ip = some (s.pgwList i) := by
    intro i hi
    obtain ⟨hlt, heq⟩ := slotOf_some hi
    have hslot := h.slot i hlt (heq ▸ hip)
    rwa [heq] at hslot
  refine ⟨⟨?_, ?_⟩, hsome⟩
  · intro hnone
    cases hm : m ip with
    | none => rfl
    | some e =>
      obtain ⟨i, hi, hei, heip⟩ := h.entry ip e hip hm
      exact absurd (hei ▸ heip) (slotOf_none hnone i hi)
  · intro hnone
    cases hslot : slotOf s ip with
    | none => exact hslot
    | some i =>
      simp_all

/-- After any calls of which each addition is of an address that is not in the list, while there is room, the list is
the map of the most recent additions, and no further such addition fails. -/
theorem pgwList_holds_map {uninit : GtpTunnelNode} {calls : List PgwCall} {s : Manager}
    (h : Run.Meets PgwStep KeepsPgwMap (gtpManagerInit uninit) calls s) :
    (∀ i j, i < s.endIdx → j < s.endIdx → (s.pgwList i).gtpPgwIp = (s.pgwList j).gtpPgwIp →
        (s.pgwList i).gtpPgwIp ≠ 0 → i = j) ∧
      (∀ ip, ip ≠ 0 → (gtpManagerFindPgw s ip = none ↔ pgwMap calls ip = none) ∧
        ∀ i, gtpManagerFindPgw s ip = some i → pgwMap calls ip = some (s.pgwList i)) ∧
      ∀ c, KeepsPgwMap s c → ∃ s', c.run s = .ok s' := by
  have hmap : HoldsMap s (pgwMap calls) := by
    refine Run.Meets.history (H := fun calls s => HoldsMap s (pgwMap calls)) ?_ ?_ h
    · exact ⟨Nat.zero_le _, fun i _ hi => absurd hi (Nat.not_lt_zero i), fun i hi => absurd hi (Nat.not_lt_zero i),
        fun _ _ _ he => by cases he⟩
    · intro calls t c t' _ hmap hc hs
      rw [pgwMap, foldl_append]
      exact hmap.step hc hs
  refine ⟨hmap.unique, fun ip hip => hmap.find hip, ?_⟩
  intro c hc
  cases c with
  | add e => exact gtpManagerAddPgw_succeeds hc.2
  | del ip => exact ⟨_, rfl⟩
  | get => exact ⟨_, rfl⟩

/-- An address that is added again after its deletion. -/
theorem pgwList_holds_map_readded : ∃ s, Run.Meets PgwStep KeepsPgwMap (gtpManagerInit ⟨0, 0, 0, 0, 0, 0, 0⟩)
      [.add (pgwNode 1 1), .add (pgwNode 2 2), .del 1, .add (pgwNode 1 3)] s ∧
    (gtpManagerFindPgw s 1 = none ↔ pgwMap [.add (pgwNode 1 1), .add (pgwNode 2 2), .del 1, .add (pgwNode 1 3)] 1 = none)
    := by
  have hrun : Run.Meets PgwStep KeepsPgwMap (gtpManagerInit ⟨0, 0, 0, 0, 0, 0, 0⟩)
      [.add (pgwNode 1 1), .add (pgwNode 2 2), .del 1, .add (pgwNode 1 3)] _ :=
    .cons (by decide) rfl (.cons (by decide) rfl (.cons trivial rfl (.cons (by decide) rfl (.nil _))))
  exact ⟨_, hrun, ((pgwList_holds_map hrun).2.1 1 (by decide)).1⟩

/-- So many additions of one address fill the list. -/
theorem replicate_add_run (uninit : GtpTunnelNode) (e : GtpPgwNode) (he : e.gtpPgwIp ≠ 0) : ∀ n, n ≤ maxPgwPerNode →
    ∃ s, Run PgwStep (gtpManagerInit uninit) (List.replicate n (.add e)) s ∧ s.endIdx = n ∧ slotOf s 0 = none ∧
      ∀ i, i < n → s.pgwList i = e
  | 0, _ => ⟨_, .nil _, rfl, rfl, fun i hi => absurd hi (Nat.not_lt_zero i)⟩
  | n + 1, hn => by
    obtain ⟨s, hrun, hend, hfree, hall⟩ := replicate_add_run uninit e he n (Nat.le_of_succ_le hn)
    have hadd : gtpManagerAddPgw s e =
        .ok { s with pgwList := update s.pgwList s.endIdx e, endIdx := s.endIdx + 1 } := by
      rw [gtpManagerAddPgw, hfree]
      exact if_pos (by omega)
    have hfull : ∀ i, i < n + 1 → update s.pgwList s.endIdx e i = e := by
      grind
    refine ⟨{ s with pgwList := update s.pgwList s.endIdx e, endIdx := s.endIdx + 1 }, ?_,
      congrArg (· + 1) hend, ?_, hfull⟩
    · rw [replicate_succ']
      exact hrun.snoc hadd
    · rw [slotOf, find?_eq_none]
      grind

/-- An address that was added twice is still there after its deletion, and too many additions fail the assertion. -/
theorem pgwList_not_map :
    (∃ s, Run PgwStep (gtpManagerInit ⟨0, 0, 0, 0, 0, 0, 0⟩) [.add (pgwNode 1 1), .add (pgwNode 1 2), .del 1] s ∧
      gtpManagerFindPgw s 1 = some 1 ∧ pgwMap [.add (pgwNode 1 1), .add (pgwNode 1 2), .del 1] 1 = none) ∧
    (∃ s, Run PgwStep (gtpManagerInit ⟨0, 0, 0, 0, 0, 0, 0⟩) [.add (pgwNode 1 1), .add (pgwNode 1 2)] s ∧
      0 < s.endIdx ∧ 1 < s.endIdx ∧ (s.pgwList 0).gtpPgwIp = 1 ∧ (s.pgwList 1).gtpPgwIp = 1) ∧
    ∃ s, Run PgwStep (gtpManagerInit ⟨0, 0, 0, 0, 0, 0, 0⟩) (List.replicate maxPgwPerNode (.add (pgwNode 1 1))) s ∧
      (PgwCall.add (pgwNode 1 1)).run s = .error .assertFailed := by
  refine ⟨⟨_, .cons rfl (.cons rfl (.cons rfl (.nil _))), by decide, by decide⟩,
    ⟨_, .cons rfl (.cons rfl (.nil _)), by decide, by decide, by decide, by decide⟩, ?_⟩
  obtain ⟨s, hrun, hend, hfree, -⟩ := replicate_add_run ⟨0, 0, 0, 0, 0, 0, 0⟩ (pgwNode 1 1) (by decide) maxPgwPerNode le_rfl
  refine ⟨s, hrun, ?_⟩
  show gtpManagerAddPgw s _ = _
  rw [gtpManagerAddPgw, hfree]
  exact if_neg (by omega)

end LinkerOvs.Gtp
