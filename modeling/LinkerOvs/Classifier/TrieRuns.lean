/-
The prefix tree over runs of insertions and removals. `trie_remove_prefix` collects the edges it has passed in an array
with as many entries as a prefix has bits. A path can have one node more than that, as a root without bits may stand
above nodes of one bit each, and then it writes behind the end of the array.
-/
import LinkerOvs.Classifier.TrieBag

namespace LinkerOvs.Cls

open TrieNode
open List hiding count

/-! ## Removal with its array -/

/-- The bits of `union trie_prefix`, which are the entries of `edges`. -/
def trieMaxBits : Nat := 128

/-- The entries of `edges` that `trie_remove_prefix` writes from a node on. -/
def trieEdges : TrieNode → List Bool → Nat
  | .nil, _ => 1
  | .node bits _ edge0 edge1, p =>
    let eqbits := CommonPrefix.length bits p
    if eqbits < bits.length then 1
    else match p.drop eqbits with
      | [] => 1
      | false :: rest => trieEdges edge0 (false :: rest) + 1
      | true :: rest => trieEdges edge1 (true :: rest) + 1

/-- `trie_remove_prefix`. Without the prefix it only warns; `none` where it writes behind the end of `edges`. -/
def trieRemoveWithEdges (t : TrieNode) (p : List Bool) : Option TrieNode :=
  if trieEdges t p ≤ trieMaxBits then some ((trieRemovePrefix t p).getD t) else none

inductive TrieOp
  | insert (p : List Bool)
  | remove (p : List Bool)

def TrieOp.run (t : TrieNode) : TrieOp → Option TrieNode
  | .insert p => some (trieInsertPrefix t p)
  | .remove p => trieRemoveWithEdges t p

def TrieOp.apply (stored : List (List Bool)) : TrieOp → List (List Bool)
  | .insert p => p :: stored
  | .remove p => stored.erase p

/-- A prefix has some bits, and what is removed is stored. -/
def TrieOp.Legal (stored : List (List Bool)) : TrieOp → Prop
  | .insert p => 1 ≤ p.length ∧ p.length ≤ trieMaxBits
  | .remove p => p ∈ stored

/-- The path to a prefix that is removed has no more nodes than the array has entries. -/
def TrieOp.HasRoom (t : TrieNode) : TrieOp → Prop
  | .insert _ => True
  | .remove p => trieEdges t p ≤ trieMaxBits

/-- Each operation of the run is legal when its turn comes. -/
def LegalTrieRun : List (List Bool) → List TrieOp → Prop
  | _, [] => True
  | stored, op :: ops => op.Legal stored ∧ LegalTrieRun (op.apply stored) ops

instance (stored : List (List Bool)) : ∀ op, Decidable (TrieOp.Legal stored op)
  | .insert p => inferInstanceAs (Decidable (1 ≤ p.length ∧ p.length ≤ trieMaxBits))
  | .remove p => inferInstanceAs (Decidable (p ∈ stored))

instance : ∀ stored ops, Decidable (LegalTrieRun stored ops)
  | _, [] => .isTrue trivial
  | stored, op :: ops =>
    have := instDecidableLegalTrieRun (op.apply stored) ops
    inferInstanceAs (Decidable (op.Legal stored ∧ LegalTrieRun (op.apply stored) ops))

/-- Each removal of the run has room for the path when its turn comes. -/
def RoomInRun : TrieNode → List TrieOp → Prop
  | _, [] => True
  | t, op :: ops => op.HasRoom t ∧ ∀ t' ∈ op.run t, RoomInRun t' ops

/-! ## The number of bits is that of the stored prefixes -/

variable {t t' : TrieNode} {b : Bool} {p q value : List Bool} {k : Nat}

/-- A stored prefix goes on for `k` bits and has all but the last in common with the value. -/
def TrieNode.Needs (t : TrieNode) (value : List Bool) (k : Nat) : Prop :=
  ∃ p, 0 < t.count p ∧ k ≤ p.length ∧ p.take (k - 1) = value.take (k - 1)

theorem TrieNode.Pruned.exists_pos (h : t.Pruned) (hwf : t.WF) (hne : t ≠ .nil) : ∃ p, 0 < t.count p := by
  by_contra hnone
  push Not at hnone
  exact hne (h.eq_nil hwf fun p => Nat.le_zero.1 (hnone p))

section

variable {bits rest : List Bool} {n : Nat} {e0 e1 : TrieNode}

/-- Within the bits of a node any prefix that is stored there will do. -/
theorem needs_of_le (h : (TrieNode.node bits n e0 e1).Pruned) (hwf : (TrieNode.node bits n e0 e1).WF)
    (hk : k ≤ bits.length) (htake : bits.take (k - 1) = value.take (k - 1)) : (TrieNode.node bits n e0 e1).Needs value k := by
  obtain ⟨p, hp⟩ := h.exists_pos hwf nofun
  obtain ⟨r, rfl⟩ : ∃ r, p = bits ++ r := by
    by_contra hno
    push Not at hno
    rw [count_node_of_not_append hno] at hp
    exact Nat.lt_irrefl 0 hp
  refine ⟨_, hp, by rw [length_append]; omega, ?_⟩
  rw [take_append_of_le_length (by omega), htake]

theorem needs_of_edge (hstart : (edge e0 e1 b).StartsWith b) (h : (edge e0 e1 b).Needs rest k) (hk : 0 < k) :
    (TrieNode.node bits n e0 e1).Needs (bits ++ rest) (bits.length + k) := by
  obtain ⟨q, hq, hle, htake⟩ := h
  have hcount : count (.node bits n e0 e1) (bits ++ q) = (edge e0 e1 b).count q := by
    rw [count_node_append]
    rcases q with _ | ⟨c, q⟩
    · grind
    by_cases hc : c = b
    · subst hc
      cases c <;> rfl
    · rw [hstart.count_other hc] at hq
      exact absurd hq (Nat.lt_irrefl 0)
  refine ⟨_, hcount ▸ hq, by rw [length_append]; omega, ?_⟩
  rw [show bits.length + k - 1 = bits.length + (k - 1) by omega, take_length_add_append, take_length_add_append, htake]

end

theorem trieLookupLoop_needs {t : TrieNode} (hwf : t.WF) (hpruned : t.Pruned) (hne : t ≠ .nil) {leaf : Bool}
    {value : List Bool} {m : Nat} : t.Needs value ((trieLookupLoop leaf t value m).1 - m) := by
  induction t generalizing leaf value m with
  | nil => exact absurd rfl hne
  | node bits n e0 e1 ih0 ih1 =>
    have ⟨_, h0, h1, hwf0, hwf1⟩ := hwf
    have ⟨_, hp0, hp1⟩ := hpruned
    by_cases hlt : CommonPrefix.length bits value < bits.length
    · obtain ⟨ps, a, as, vs, rfl, rfl, hlen, -⟩ := CommonPrefix.exists_split_of_lt hlt
      rw [trieLookupLoop]
      rw [if_pos hlt, ← hlen, show m + ps.length + 1 - m = ps.length + 1 by omega]
      refine needs_of_le hpruned hwf ?_ (by rw [Nat.add_sub_cancel, take_left, take_left])
      omega
    have hle := CommonPrefix.length_le_left bits value
    obtain ⟨rest, rfl⟩ := CommonPrefix.eq_append_of_length_eq
      (show CommonPrefix.length bits value = bits.length by omega)
    have hbits : bits.take (bits.length - 1) = (bits ++ rest).take (bits.length - 1) :=
      (take_append_of_le_length (Nat.sub_le _ _)).symm
    rcases rest with _ | ⟨c, rest⟩
    · rw [trieLookupLoop]
      rw [if_neg hlt, CommonPrefix.length_append_self, drop_left, Nat.add_sub_cancel_left]
      exact needs_of_le hpruned hwf le_rfl hbits
    have hedge : ∀ b, (edge e0 e1 b).StartsWith b ∧ (edge e0 e1 b).WF ∧ (edge e0 e1 b).Pruned := by
      intro b
      cases b
      · exact ⟨h0, hwf0, hp0⟩
      · exact ⟨h1, hwf1, hp1⟩
    have ih : edge e0 e1 c ≠ .nil → ∀ leaf value m,
        (edge e0 e1 c).Needs value ((trieLookupLoop leaf (edge e0 e1 c) value m).1 - m) := by
      cases c
      · exact fun hne _ _ _ => ih0 hwf0 hp0 hne
      · exact fun hne _ _ _ => ih1 hwf1 hp1 hne
    rw [trieLookupLoop_append]
    rcases hc : edge e0 e1 c with _ | ⟨bits', n', f0, f1⟩
    · rw [trieLookupLoop]
      by_cases hleaf : (e0 = .nil && e1 = .nil) = true
      · rw [if_pos hleaf, Nat.add_sub_cancel_left]
        exact needs_of_le hpruned hwf le_rfl hbits
      -- a prefix on the other edge makes the value's next bit count
      have hother : edge e0 e1 (!c) ≠ .nil := by
        cases c <;> simp_all [edge]
      obtain ⟨hstart, hwf, hpruned⟩ := hedge !c
      obtain ⟨q, hq⟩ := hpruned.exists_pos hwf hother
      have hpos : 1 ≤ q.length := by
        rcases q with _ | ⟨_, q⟩
        · rw [hstart.count_empty] at hq
          exact absurd hq (Nat.lt_irrefl 0)
        · exact Nat.le_add_left 1 _
      rw [if_neg hleaf, show m + bits.length + 1 - m = bits.length + 1 by omega]
      exact needs_of_edge hstart ⟨q, hq, hpos, rfl⟩ Nat.one_pos
    · have hstart := (hedge c).1
      have hneeds := ih (by simp [hc]) (e0 = .nil && e1 = .nil) (c :: rest) (m + bits.length)
      rw [hc] at hneeds hstart
      have hmore : m + bits.length <
          (trieLookupLoop (e0 = .nil && e1 = .nil) (.node _ n' f0 f1) (c :: rest) (m + bits.length)).1 :=
        lt_trieLookupLoop hstart ..
      generalize (trieLookupLoop _ _ (c :: rest) (m + bits.length)).1 = k at hneeds hmore ⊢
      rw [show k - m = bits.length + (k - (m + bits.length)) by omega]
      exact needs_of_edge (hc ▸ hstart) (hc ▸ hneeds) (by omega)

namespace TrieNode.Holds

variable {l : List (List Bool)}

/-- A stored prefix that agrees with the value on the bits looked at ends within them. -/
theorem length_le (h : t.Holds l) (hp : p ∈ l) (hlen : p.length ≤ value.length)
    (htake : p.take (trieLookupValue t value).1 = value.take (trieLookupValue t value).1) :
    p.length ≤ (trieLookupValue t value).1 := by
  by_contra hlt
  have hsame : trieLookupValue t (p ++ value.drop p.length) = trieLookupValue t value := by
    refine trieLookupValue_congr h.wf ?_ ?_
    · simp [*]
    · rw [take_append_of_le_length (by omega), htake]
  have hmem : p.length ∈ (trieLookupValue t (p ++ value.drop p.length)).2 :=
    h.mem_lookup.2 ⟨by rw [length_append]; omega, by rwa [take_left]⟩
  rw [hsame] at hmem
  exact hlt (le_of_mem_trieLookupLoop hmem)

theorem bits_le (h : t.Holds l) (h' : t'.Holds l) (hlen : ∀ p ∈ l, p.length ≤ value.length) :
    (trieLookupValue t' value).1 ≤ (trieLookupValue t value).1 := by
  by_contra hlt
  by_cases hnil : t' = .nil
  · rw [hnil] at hlt
    exact hlt (Nat.zero_le _)
  obtain ⟨p, hp, hle, htake⟩ : t'.Needs value ((trieLookupValue t' value).1 - 0) :=
    trieLookupLoop_needs h'.wf h'.pruned hnil
  have hmem : p ∈ l := by rwa [h'.count, count_pos_iff] at hp
  have hagree := congrArg (take (trieLookupValue t value).1) htake
  rw [take_take, take_take, Nat.min_eq_left (by omega)] at hagree
  have := h.length_le hmem (hlen p hmem) hagree
  omega

theorem step (h : t.Holds l) {op : TrieOp} (hlegal : op.Legal l) (hroom : op.HasRoom t) :
    ∃ t', op.run t = some t' ∧ t'.Holds (op.apply l) := by
  cases op with
  | insert p => exact ⟨_, rfl, h.insert p⟩
  | remove p =>
    obtain ⟨t', ht', hholds⟩ := (h.perm (perm_cons_erase hlegal)).remove
    have hroom : trieEdges t p ≤ trieMaxBits := hroom
    exact ⟨t', by rw [TrieOp.run, trieRemoveWithEdges, if_pos hroom, ht', Option.getD_some], hholds⟩

theorem run : ∀ {ops : List TrieOp} {t : TrieNode} {l : List (List Bool)}, t.Holds l → LegalTrieRun l ops →
    RoomInRun t ops → ∃ t', ops.foldlM TrieOp.run t = some t' ∧ t'.Holds (ops.foldl TrieOp.apply l)
  | [], t, _, h, _, _ => ⟨t, rfl, h⟩
  | op :: ops, t, l, h, hlegal, hroom => by
    obtain ⟨t', ht', hholds⟩ := h.step hlegal.1 hroom.1
    rw [foldlM_cons, ht']
    exact hholds.run hlegal.2 (hroom.2 t' ht')

end TrieNode.Holds

/-- The lookups of a tree answer for the stored prefixes: the lengths are those of the stored prefixes of the value, they
are the same for every value with the same bits as far as the lookup looked, and a prefix that is inserted and removed
again leaves every answer as it was. -/
structure TrieAnswers (t : TrieNode) (stored : List (List Bool)) : Prop where
  plens : ∀ value k, k ∈ (trieLookupValue t value).2 ↔ ∃ p ∈ stored, p.length = k ∧ p <+: value
  bits : ∀ value value', value'.length = value.length →
    value'.take (trieLookupValue t value).1 = value.take (trieLookupValue t value).1 →
    trieLookupValue t value' = trieLookupValue t value
  restored : ∀ p, (TrieOp.remove p).HasRoom (trieInsertPrefix t p) → ∃ t',
    trieRemoveWithEdges (trieInsertPrefix t p) p = some t' ∧ ∀ value, (∀ q ∈ stored, q.length ≤ value.length) →
      (trieLookupValue t' value).1 = (trieLookupValue t value).1 ∧
        ∀ k, k ∈ (trieLookupValue t' value).2 ↔ k ∈ (trieLookupValue t value).2

theorem TrieNode.Holds.answers {stored : List (List Bool)} (h : t.Holds stored) : TrieAnswers t stored where
  plens value k := by
    rw [h.mem_lookup]
    constructor
    · grind
    · rintro ⟨p, hp, rfl, hpre⟩
      exact ⟨hpre.length_le, prefix_iff_eq_take.1 hpre ▸ hp⟩
  bits value value' hlen htake := trieLookupValue_congr h.wf hlen.symm htake.symm
  restored p hroom := by
    obtain ⟨t', hrun, hholds⟩ := (h.insert p).step mem_cons_self hroom
    rw [TrieOp.apply, erase_cons_head] at hholds
    refine ⟨_, hrun, fun value hlen => ⟨?_, fun k => by rw [hholds.mem_lookup, h.mem_lookup]⟩⟩
    exact Nat.le_antisymm (h.bits_le hholds hlen) (hholds.bits_le h hlen)

/-- In every run whose removals have room for their paths, the tree answers for what is stored. -/
theorem trie_run_answers (ops : List TrieOp) (hlegal : LegalTrieRun [] ops) (hroom : RoomInRun .nil ops) :
    ∃ t, ops.foldlM TrieOp.run .nil = some t ∧ TrieAnswers t (ops.foldl TrieOp.apply []) := by
  obtain ⟨t, hrun, hholds⟩ := TrieNode.Holds.nil.run hlegal hroom
  exact ⟨t, hrun, hholds.answers⟩

theorem RoomInRun.insert {ops : List TrieOp} (h : RoomInRun (trieInsertPrefix t p) ops) :
    RoomInRun t (.insert p :: ops) := by
  refine ⟨trivial, ?_⟩
  rintro _ ⟨⟩
  exact h

theorem RoomInRun.remove {ops : List TrieOp} (hroom : trieEdges t p ≤ trieMaxBits)
    (h : RoomInRun ((trieRemovePrefix t p).getD t) ops) : RoomInRun t (.remove p :: ops) := by
  refine ⟨hroom, fun t' ht' => ?_⟩
  rw [TrieOp.run, trieRemoveWithEdges, if_pos hroom] at ht'
  cases ht'
  exact h

/-- Four prefixes, one of them in two rules; a branch is cut off and a rule of the shared prefix goes. -/
theorem trie_run_answers_removed : ∃ t, [TrieOp.insert [true, false, true], .insert [true, false, false, true],
      .insert [true, false], .insert [true, false], .insert [false], .remove [true, false, false, true],
      .remove [true, false]].foldlM TrieOp.run .nil = some t ∧
    TrieAnswers t [[false], [true, false], [true, false, true]] :=
  trie_run_answers _ (by decide) (.insert <| .insert <| .insert <| .insert <| .insert <| .remove (by decide) <|
    .remove (by decide) trivial)

/-- The prefixes of one value, from the shortest to the longest, and one that differs in the first bit. The longest is
removed. -/
def deepTrieOps : List TrieOp :=
  .insert [false] :: (range 128).map (fun k => .insert (replicate (k + 1) true)) ++ [.remove (replicate 128 true)]

theorem deepTrieOps_overflow : LegalTrieRun [] deepTrieOps ∧ deepTrieOps.foldlM TrieOp.run .nil = none := by
  constructor <;> decide +kernel

end LinkerOvs.Cls
