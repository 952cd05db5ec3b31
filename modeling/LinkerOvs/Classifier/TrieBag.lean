/-
The prefix tree of the classifier is a bag of prefixes: inserting and removing change the count of one
prefix by one, and a lookup finds the lengths of the prefixes of a value that the bag has, from as many
bits of the value as it reports.
-/
import LinkerOvs.Classifier.Trie

namespace LinkerOvs.Cls

open TrieNode
open List hiding count

/-! ## The bag of prefixes -/

namespace TrieNode

/-- The number of rules whose prefix is `p`. -/
def count : TrieNode → List Bool → Nat
  | .nil, _ => 0
  | .node bits nRules edge0 edge1, p =>
    if CommonPrefix.length bits p < bits.length then 0
    else match p.drop bits.length with
      | [] => nRules
      | false :: rest => edge0.count (false :: rest)
      | true :: rest => edge1.count (true :: rest)

/-- A tree that hangs on the edge for `b`. -/
def StartsWith (b : Bool) : TrieNode → Prop
  | .nil => True
  | .node bits _ _ _ => bits.head? = some b

/-- The shape of a tree: a node's bits fit in its prefix, and a child's bits start with the one its edge is for. -/
def WF : TrieNode → Prop
  | .nil => True
  | .node bits _ edge0 edge1 =>
    bits.length ≤ triePrefixBits ∧ edge0.StartsWith false ∧ edge1.StartsWith true ∧ edge0.WF ∧ edge1.WF

/-- The count of `p` below a node whose bits come before it. -/
def countBelow (nRules : Nat) (edge0 edge1 : TrieNode) : List Bool → Nat
  | [] => nRules
  | false :: rest => edge0.count (false :: rest)
  | true :: rest => edge1.count (true :: rest)

variable {bits p q : List Bool} {n : Nat} {e0 e1 : TrieNode}

@[simp] theorem count_nil (p : List Bool) : count .nil p = 0 := rfl

theorem count_node_append (bits r : List Bool) (n : Nat) (e0 e1 : TrieNode) :
    count (.node bits n e0 e1) (bits ++ r) = countBelow n e0 e1 r := by
  rw [count, if_neg (by rw [CommonPrefix.length_append_self]; omega), drop_left]
  rcases r with _ | ⟨_ | _, r⟩ <;> rfl

theorem count_node_of_not_append (h : ∀ r, p ≠ bits ++ r) : count (.node bits n e0 e1) p = 0 := by
  have hle := CommonPrefix.length_le_left bits p
  by_cases heq : CommonPrefix.length bits p = bits.length
  · obtain ⟨r, hr⟩ := CommonPrefix.eq_append_of_length_eq heq
    exact absurd hr (h r)
  · rw [count, if_pos (by omega)]

theorem count_append_append (ps bits q : List Bool) (n : Nat) (e0 e1 : TrieNode) :
    count (.node (ps ++ bits) n e0 e1) (ps ++ q) = count (.node bits n e0 e1) q := by
  by_cases h : ∃ r, q = bits ++ r
  · obtain ⟨r, rfl⟩ := h
    rw [← append_assoc, count_node_append, count_node_append]
  push Not at h
  rw [count_node_of_not_append h, count_node_of_not_append]
  simp [*]

/-- A change below a node, seen from above it: one more `s` below the bits is one more prefix. -/
theorem count_node_add {s : List Bool} {n' : Nat} {e0' e1' : TrieNode}
    (h : ∀ r, countBelow n' e0' e1' r = countBelow n e0 e1 r + if s = r then 1 else 0) (q : List Bool) :
    count (.node bits n' e0' e1') q = count (.node bits n e0 e1) q + if bits ++ s = q then 1 else 0 := by
  by_cases hq : ∃ r, q = bits ++ r
  · obtain ⟨r, rfl⟩ := hq
    simp only [count_node_append, append_cancel_left_eq]
    exact h r
  · push Not at hq
    rw [count_node_of_not_append hq, count_node_of_not_append hq, if_neg (fun heq => hq s heq.symm)]

theorem count_withEdges (b : Bool) (t t' : TrieNode) :
    count (withEdges bits n b t t') (bits ++ q) =
      match q with
      | [] => n
      | c :: r => if c = b then t.count (c :: r) else t'.count (c :: r) := by
  rcases b with _ | _ <;> rcases q with _ | ⟨_ | _, r⟩ <;> exact count_node_append ..

theorem count_withEdges_of_not_append (b : Bool) (t t' : TrieNode) (h : ∀ r, p ≠ bits ++ r) :
    count (withEdges bits n b t t') p = 0 := by
  rcases b with _ | _ <;> exact count_node_of_not_append h

theorem wf_withEdges {b : Bool} {t t' : TrieNode} (hbits : bits.length ≤ triePrefixBits) (ht : t.StartsWith b)
    (ht' : t'.StartsWith !b) (hwf : t.WF) (hwf' : t'.WF) : (withEdges bits n b t t').WF := by
  rcases b with _ | _
  · exact ⟨hbits, ht, ht', hwf, hwf'⟩
  · exact ⟨hbits, ht', ht, hwf', hwf⟩

end TrieNode

/-! ## Insertion -/

theorem count_leaf (n : Nat) (p q : List Bool) : count (.node p n .nil .nil) q = if p = q then n else 0 := by
  by_cases h : ∃ r, q = p ++ r
  · obtain ⟨r, rfl⟩ := h
    rw [count_node_append]
    rcases r with _ | ⟨_ | _, r⟩ <;> simp [countBelow]
  · push Not at h
    rw [count_node_of_not_append h, if_neg]
    intro heq
    exact h [] (by rw [heq, append_nil])

theorem count_trieBranchCreate (n : Nat) : ∀ (fuel : Nat) (p q : List Bool),
    (trieBranchCreate n fuel p).count q = if p = q then n else 0
  | 0, p, q => count_leaf n p q
  | fuel + 1, p, q => by
    unfold trieBranchCreate
    split
    · exact count_leaf n p q
    split
    · exact count_leaf n p q
    rename_i b rest hdrop
    -- the first node takes the bits that fit, the rest of the prefix hangs below it
    have hp : p = p.take triePrefixBits ++ b :: rest := by rw [← hdrop, take_append_drop]
    generalize p.take triePrefixBits = ps at hp ⊢
    subst hp
    by_cases h : ∃ r, q = ps ++ r
    · obtain ⟨r, rfl⟩ := h
      rw [count_withEdges]
      rcases r with _ | ⟨c, r⟩
      · simp
      · simp only [count_trieBranchCreate n fuel, List.cons.injEq]
        by_cases hc : c = b
        · simp [hc]
        · simp [Ne.symm hc]
    · push Not at h
      rw [count_withEdges_of_not_append _ _ _ h, if_neg]
      exact fun heq => h (b :: rest) heq.symm

/-- A new branch has the shape of a tree, if there are enough steps, and hangs on the edge of its first bit. -/
theorem trieBranchCreate_wf (n : Nat) : ∀ {fuel : Nat} {p : List Bool}, p.length ≤ triePrefixBits + fuel →
    (trieBranchCreate n fuel p).WF ∧ ∀ b, p.head? = some b → (trieBranchCreate n fuel p).StartsWith b
  | 0, p, h => ⟨⟨h, trivial, trivial, trivial, trivial⟩, fun _ hb => hb⟩
  | fuel + 1, p, h => by
    unfold trieBranchCreate
    split
    · rename_i hle
      exact ⟨⟨hle, trivial, trivial, trivial, trivial⟩, fun _ hb => hb⟩
    split
    · rename_i hdrop
      rw [drop_eq_nil_iff] at hdrop
      omega
    rename_i b rest hdrop
    have hlen : (b :: rest).length ≤ triePrefixBits + fuel := by
      rw [← hdrop, length_drop]
      unfold triePrefixBits at *
      omega
    obtain ⟨hwf, hstart⟩ := trieBranchCreate_wf n hlen
    refine ⟨wf_withEdges (by simp) (hstart b rfl) trivial hwf trivial, ?_⟩
    intro c hc
    have hhead : (p.take triePrefixBits).head? = some c := by
      rw [head?_take, if_neg (by decide), hc]
    rcases b with _ | _ <;> exact hhead

/-- What a split node looks like, where its bits and the prefix part after `ps`. -/
theorem trieSplit_eq (ps as p : List Bool) (a : Bool) (n : Nat) (e0 e1 : TrieNode) :
    trieSplit (ps ++ a :: as) n e0 e1 (ps ++ p) ps.length =
      withEdges ps (if p = [] then 1 else 0) a (.node (a :: as) n e0 e1)
        (if p = [] then .nil else trieBranchCreate 1 (ps ++ p).length p) := by
  unfold trieSplit
  rcases p with _ | ⟨b, p⟩ <;> simp

theorem count_trieSplit {ps as p : List Bool} {a : Bool} (n : Nat) (e0 e1 : TrieNode)
    (hne : ∀ b, p.head? = some b → b ≠ a) (q : List Bool) :
    (trieSplit (ps ++ a :: as) n e0 e1 (ps ++ p) ps.length).count q =
      count (.node (ps ++ a :: as) n e0 e1) q + if ps ++ p = q then 1 else 0 := by
  rw [trieSplit_eq]
  by_cases h : ∃ r, q = ps ++ r
  · obtain ⟨r, rfl⟩ := h
    rw [count_withEdges, count_append_append]
    simp only [append_cancel_left_eq]
    rcases r with _ | ⟨c, r⟩
    · rw [count_node_of_not_append (by simp)]
      simp
    by_cases hc : c = a
    · -- on the old branch nothing changes, and the prefix is not there
      subst hc
      grind
    dsimp only
    rw [if_neg hc, count_node_of_not_append (by simp [hc])]
    split
    · rename_i hp
      simp [hp]
    · rw [count_trieBranchCreate, Nat.zero_add]
  · push Not at h
    rw [count_withEdges_of_not_append _ _ _ h, count_node_of_not_append, if_neg (fun heq => h p heq.symm)]
    simp [*]

theorem trieSplit_wf {ps as p : List Bool} {a : Bool} {n : Nat} {e0 e1 : TrieNode}
    (hwf : (TrieNode.node (ps ++ a :: as) n e0 e1).WF) (hne : ∀ b, p.head? = some b → b ≠ a) :
    (trieSplit (ps ++ a :: as) n e0 e1 (ps ++ p) ps.length).WF := by
  obtain ⟨hlen, h0, h1, hwf0, hwf1⟩ := hwf
  rw [length_append, length_cons] at hlen
  rw [trieSplit_eq]
  refine wf_withEdges (by omega) (show (a :: as).head? = some a from rfl) ?_ ?_ ?_
  · -- the new branch is on the other edge
    rcases p with _ | ⟨b, p⟩
    · trivial
    have hb : b = !a := by
      have hba := hne b rfl
      revert hba
      cases a <;> cases b <;> simp
    rw [← hb]
    exact (trieBranchCreate_wf 1 (by simp; omega)).2 b rfl
  · exact ⟨by rw [length_cons]; omega, h0, h1, hwf0, hwf1⟩
  · split
    · trivial
    · exact (trieBranchCreate_wf 1 (by simp; omega)).1

variable {b : Bool} {rest value : List Bool} {k : Nat}

theorem trieInsertPrefix_startsWith {p : List Bool} :
    ∀ {t : TrieNode}, t.StartsWith b → (trieInsertPrefix t (b :: p)).StartsWith b
  | .nil, _ => (trieBranchCreate_wf 1 (by omega)).2 b rfl
  | .node bits n e0 e1, ht => by
    unfold trieInsertPrefix
    dsimp only
    split
    · rename_i hlt
      obtain ⟨ps, a, as, p', rfl, hp, hlen, hne⟩ := CommonPrefix.exists_split_of_lt hlt
      rw [← hlen, hp, trieSplit_eq]
      rcases ps with _ | ⟨c, ps⟩
      · -- the node and the prefix share their first bit
        rw [StartsWith, nil_append, head?_cons, Option.some.injEq] at ht
        grind
      · rcases a with _ | _ <;> exact ht
    · split <;> exact ht

theorem trieInsertPrefix_wf : ∀ {t : TrieNode}, t.WF → ∀ p, (trieInsertPrefix t p).WF
  | .nil, _, p => (trieBranchCreate_wf 1 (by omega)).1
  | .node bits n e0 e1, hwf, p => by
    obtain ⟨hlen, h0, h1, hwf0, hwf1⟩ := id hwf
    unfold trieInsertPrefix
    dsimp only
    split
    · rename_i hlt
      obtain ⟨ps, a, as, p', rfl, rfl, hps, hne⟩ := CommonPrefix.exists_split_of_lt hlt
      rw [← hps]
      exact trieSplit_wf hwf hne
    · split
      · exact hwf
      · exact ⟨hlen, trieInsertPrefix_startsWith h0, h1, trieInsertPrefix_wf hwf0 _, hwf1⟩
      · exact ⟨hlen, h0, trieInsertPrefix_startsWith h1, hwf0, trieInsertPrefix_wf hwf1 _⟩

theorem count_trieInsertPrefix : ∀ (t : TrieNode) (p q : List Bool),
    (trieInsertPrefix t p).count q = t.count q + if p = q then 1 else 0
  | .nil, p, q => by
    rw [trieInsertPrefix, count_trieBranchCreate, count_nil, Nat.zero_add]
  | .node bits n e0 e1, p, q => by
    unfold trieInsertPrefix
    dsimp only
    split
    · rename_i hlt
      obtain ⟨ps, a, as, p', rfl, rfl, hps, hne⟩ := CommonPrefix.exists_split_of_lt hlt
      rw [← hps]
      exact count_trieSplit n e0 e1 hne q
    have hle := CommonPrefix.length_le_left bits p
    obtain ⟨r, rfl⟩ := CommonPrefix.eq_append_of_length_eq (show CommonPrefix.length bits p = bits.length by omega)
    rw [CommonPrefix.length_append_self, drop_left]
    rcases r with _ | ⟨_ | _, r⟩
    · refine count_node_add (fun r => ?_) q
      rcases r with _ | ⟨_ | _, r⟩ <;> simp [countBelow]
    · refine count_node_add (fun r' => ?_) q
      rcases r' with _ | ⟨_ | _, r'⟩ <;> simp [countBelow, count_trieInsertPrefix e0]
    · refine count_node_add (fun r' => ?_) q
      rcases r' with _ | ⟨_ | _, r'⟩ <;> simp [countBelow, count_trieInsertPrefix e1]

/-! ## Removal -/

/-- A node without rules and with one child counts as the two combined. -/
theorem count_combine (bits bits' q : List Bool) (b : Bool) (n : Nat) (e0 e1 : TrieNode) (hb : bits'.head? = some b) :
    count (.node (bits ++ bits') n e0 e1) q = count (withEdges bits 0 b (.node bits' n e0 e1) .nil) q := by
  obtain ⟨bs, rfl⟩ : ∃ bs, bits' = b :: bs := by
    rcases bits' with _ | ⟨c, bs⟩
    · cases hb
    · grind
  by_cases h : ∃ r, q = bits ++ r
  · obtain ⟨r, rfl⟩ := h
    rw [count_append_append, count_withEdges]
    rcases r with _ | ⟨c, r⟩
    · exact count_node_of_not_append (by simp)
    · by_cases hc : c = b
      · simp [hc]
      · dsimp only
        rw [if_neg hc, count_nil, count_node_of_not_append (by simp [hc])]
  · push Not at h
    rw [count_withEdges_of_not_append _ _ _ h, count_node_of_not_append]
    simp [*]

variable {t : TrieNode}

theorem count_triePrune (hwf : t.WF) (q : List Bool) : (triePrune t).count q = t.count q := by
  unfold triePrune
  split
  · rw [count_leaf, count_nil, ite_self]
  · split
    · rfl
    · exact count_combine _ _ q false _ _ _ hwf.2.1
  · split
    · rfl
    · exact count_combine _ _ q true _ _ _ hwf.2.2.1
  · rfl

theorem triePrune_wf (hwf : t.WF) : (triePrune t).WF := by
  unfold triePrune
  split
  · trivial
  · split
    · exact hwf
    · obtain ⟨-, -, -, ⟨-, h⟩, -⟩ := hwf
      exact ⟨by rw [length_append]; omega, h⟩
  · split
    · exact hwf
    · obtain ⟨-, -, -, -, -, h⟩ := hwf
      exact ⟨by rw [length_append]; omega, h⟩
  · exact hwf

theorem triePrune_startsWith (h : t.StartsWith b) : (triePrune t).StartsWith b := by
  have happend : ∀ {bits bits' : List Bool}, bits.head? = some b → (bits ++ bits').head? = some b := by
    simp_all
  unfold triePrune
  split
  · trivial
  · split
    · exact h
    · exact happend h
  · split
    · exact h
    · exact happend h
  · exact h

/-- What holds of a tree and of its pruning holds of a node with a changed child. -/
theorem triePruneAbove_spec (t : TrieNode) {node : TrieNode} (hwf : node.WF) :
    (triePruneAbove t node).WF ∧ (∀ b, node.StartsWith b → (triePruneAbove t node).StartsWith b) ∧
      ∀ q, (triePruneAbove t node).count q = node.count q := by
  unfold triePruneAbove
  split
  · exact ⟨triePrune_wf hwf, fun _ => triePrune_startsWith, count_triePrune hwf⟩
  · exact ⟨hwf, fun _ h => h, fun _ => rfl⟩

theorem trieRemovePrefix_spec : ∀ {t : TrieNode} {p : List Bool}, t.WF → 0 < t.count p →
    ∃ t', trieRemovePrefix t p = some t' ∧ t'.WF ∧ (∀ b, t.StartsWith b → t'.StartsWith b) ∧
      ∀ q, t.count q = t'.count q + if p = q then 1 else 0
  | .nil, p, _, h => absurd h (Nat.lt_irrefl 0)
  | .node bits n e0 e1, p, hwf, hpos => by
    obtain ⟨r, rfl⟩ : ∃ r, p = bits ++ r := by
      by_contra h
      push Not at h
      rw [count_node_of_not_append h] at hpos
      exact Nat.lt_irrefl 0 hpos
    obtain ⟨hlen, h0, h1, hwf0, hwf1⟩ := id hwf
    unfold trieRemovePrefix
    rw [if_neg (by rw [CommonPrefix.length_append_self]; omega), CommonPrefix.length_append_self, drop_left]
    rw [count_node_append] at hpos
    rcases r with _ | ⟨_ | _, r⟩
    · -- the prefix ends here
      have hn : n ≠ 0 := Nat.pos_iff_ne_zero.1 hpos
      have hwf' : (TrieNode.node bits (n - 1) e0 e1).WF := hwf
      rw [if_neg hn]
      refine ⟨_, rfl, triePrune_wf hwf', fun _ hb => triePrune_startsWith hb, fun q => ?_⟩
      rw [count_triePrune hwf']
      refine count_node_add (fun r => ?_) q
      rcases r with _ | ⟨_ | _, r⟩ <;> simp [countBelow]
      omega
    · obtain ⟨t, ht, htwf, hstart, hcount⟩ := trieRemovePrefix_spec hwf0 hpos
      have hwf' : (TrieNode.node bits n t e1).WF := ⟨hlen, hstart false h0, h1, htwf, hwf1⟩
      obtain ⟨habove, hab, hac⟩ := triePruneAbove_spec t hwf'
      dsimp only
      rw [ht]
      refine ⟨_, rfl, habove, fun b hb => hab b hb, fun q => ?_⟩
      rw [hac]
      refine count_node_add (fun r' => ?_) q
      rcases r' with _ | ⟨_ | _, r'⟩ <;> simp [countBelow, hcount]
    · obtain ⟨t, ht, htwf, hstart, hcount⟩ := trieRemovePrefix_spec hwf1 hpos
      have hwf' : (TrieNode.node bits n e0 t).WF := ⟨hlen, h0, hstart true h1, hwf0, htwf⟩
      obtain ⟨habove, hab, hac⟩ := triePruneAbove_spec t hwf'
      dsimp only
      rw [ht]
      refine ⟨_, rfl, habove, fun b hb => hab b hb, fun q => ?_⟩
      rw [hac]
      refine count_node_add (fun r' => ?_) q
      rcases r' with _ | ⟨_ | _, r'⟩ <;> simp [countBelow, hcount]

/-! ## Lookup -/

theorem TrieNode.StartsWith.count_empty : ∀ {t : TrieNode}, t.StartsWith b → t.count [] = 0
  | .nil, _ => rfl
  | .node bits n e0 e1, h => by
    apply count_node_of_not_append
    rcases bits with _ | ⟨c, bits⟩
    · cases h
    · simp

theorem TrieNode.StartsWith.count_other {c : Bool} (hne : c ≠ b) {p : List Bool} : ∀ {t : TrieNode}, t.StartsWith b →
    t.count (c :: p) = 0
  | .nil, _ => rfl
  | .node bits n e0 e1, h => by
    apply count_node_of_not_append
    rcases bits with _ | ⟨a, bits⟩
    · cases h
    · rw [StartsWith, head?_cons, Option.some.injEq] at h
      simp [h, hne]

/-- The prefixes of a value that goes on after the bits of a node. -/
theorem count_take_pos {bits : List Bool} {n : Nat} {e0 e1 : TrieNode} {j : Nat} :
    j ≤ (bits ++ rest).length ∧ 0 < count (.node bits n e0 e1) ((bits ++ rest).take j) ↔
      ∃ i, j = bits.length + i ∧ i ≤ rest.length ∧ 0 < countBelow n e0 e1 (rest.take i) := by
  rw [length_append]
  constructor
  · rintro ⟨hle, hpos⟩
    have hj : bits.length ≤ j := by
      by_contra hlt
      rw [count_node_of_not_append] at hpos
      · exact Nat.lt_irrefl 0 hpos
      · intro r hr
        have := congrArg List.length hr
        grind
    obtain ⟨i, rfl⟩ := Nat.exists_eq_add_of_le hj
    rw [take_length_add_append, count_node_append] at hpos
    exact ⟨i, rfl, by omega, hpos⟩
  · rintro ⟨i, rfl, hi, hpos⟩
    rw [take_length_add_append, count_node_append]
    exact ⟨by omega, hpos⟩

/-- The lengths found at a node and below it, when those found in the child `c` are the right ones. -/
theorem mem_here_append {n m : Nat} {e0 e1 c : TrieNode} {ls : List Nat}
    (hc : c.count [] = 0) (hbelow : ∀ r, countBelow n e0 e1 (b :: r) = c.count (b :: r))
    (hls : k ∈ ls ↔ ∃ j, k = m + j ∧ j ≤ (b :: rest).length ∧ 0 < c.count ((b :: rest).take j)) :
    k ∈ (if n > 0 then [m] else []) ++ ls ↔
      ∃ i, k = m + i ∧ i ≤ (b :: rest).length ∧ 0 < countBelow n e0 e1 ((b :: rest).take i) := by
  have hhere : k ∈ (if n > 0 then [m] else []) ↔ k = m ∧ 0 < n := by
    split <;> simp [*]
  rw [mem_append, hhere, hls]
  constructor
  · rintro (⟨rfl, hn⟩ | ⟨_ | j, rfl, hj, hpos⟩)
    · exact ⟨0, rfl, Nat.zero_le _, hn⟩
    · grind
    · grind
  · rintro ⟨_ | i, rfl, hi, hpos⟩
    · exact .inl ⟨rfl, hpos⟩
    · grind

/-- A lookup finds exactly the lengths of the prefixes of the value that have rules. -/
theorem mem_trieLookupLoop : ∀ {t : TrieNode} {leaf : Bool} {value : List Bool} {matchLen : Nat}, t.WF →
    (k ∈ (trieLookupLoop leaf t value matchLen).2 ↔
      ∃ j, k = matchLen + j ∧ j ≤ value.length ∧ 0 < t.count (value.take j))
  | .nil, _, _, _, _ => by simp [trieLookupLoop]
  | .node bits n e0 e1, leaf, value, matchLen, hwf => by
    obtain ⟨hlen, h0, h1, hwf0, hwf1⟩ := hwf
    unfold trieLookupLoop
    dsimp only
    split
    · -- the value leaves the bits of the node, and with them every prefix below
      rename_i hlt
      simp only [not_mem_nil, false_iff, not_exists, not_and]
      intro j _ _
      rw [count_node_of_not_append]
      · exact Nat.lt_irrefl 0
      · intro r hr
        have hval : value = bits ++ (r ++ value.drop j) := by
          rw [← append_assoc, ← hr, take_append_drop]
        rw [hval, CommonPrefix.length_append_self] at hlt
        exact Nat.lt_irrefl _ hlt
    · have hle := CommonPrefix.length_le_left bits value
      obtain ⟨rest, rfl⟩ := CommonPrefix.eq_append_of_length_eq
        (show CommonPrefix.length bits value = bits.length by omega)
      simp only [count_take_pos, CommonPrefix.length_append_self, drop_left]
      have hshift : ∀ {P : Nat → Prop}, (∃ j, k = matchLen + j ∧ ∃ i, j = bits.length + i ∧ P i) ↔
          ∃ i, k = matchLen + bits.length + i ∧ P i := by
        grind
      rw [hshift]
      rcases rest with _ | ⟨_ | _, rest⟩
      · by_cases hn : n > 0 <;> simp [hn, countBelow]
      · exact mem_here_append h0.count_empty (fun _ => rfl) (mem_trieLookupLoop hwf0)
      · exact mem_here_append h1.count_empty (fun _ => rfl) (mem_trieLookupLoop hwf1)

theorem le_trieLookupLoop (leaf : Bool) : ∀ (t : TrieNode) (value : List Bool) (matchLen : Nat),
    matchLen ≤ (trieLookupLoop leaf t value matchLen).1
  | .nil, _, matchLen => by
    rw [trieLookupLoop]
    split <;> omega
  | .node bits n e0 e1, value, matchLen => by
    unfold trieLookupLoop
    dsimp only
    split
    · omega
    · split
      · exact Nat.le_add_right ..
      · exact (Nat.le_add_right ..).trans (le_trieLookupLoop _ e0 _ _)
      · exact (Nat.le_add_right ..).trans (le_trieLookupLoop _ e1 _ _)

theorem lt_trieLookupLoop {bits : List Bool} {n : Nat} {e0 e1 : TrieNode} (h : bits.head? = some b)
    (leaf : Bool) (value : List Bool) (matchLen : Nat) :
    matchLen < (trieLookupLoop leaf (.node bits n e0 e1) value matchLen).1 := by
  have hpos : 0 < bits.length := by
    grind
  unfold trieLookupLoop
  dsimp only
  split
  · omega
  have hlt : matchLen < matchLen + CommonPrefix.length bits value := by omega
  split
  · exact hlt
  · exact hlt.trans_le (le_trieLookupLoop _ e0 _ _)
  · exact hlt.trans_le (le_trieLookupLoop _ e1 _ _)

def TrieNode.edge (e0 e1 : TrieNode) (b : Bool) : TrieNode := if b then e1 else e0

/-- The lookup goes on below a node whose bits come first in the value. -/
theorem trieLookupLoop_append (leaf b : Bool) (bits rest : List Bool) (n matchLen : Nat) (e0 e1 : TrieNode) :
    trieLookupLoop leaf (.node bits n e0 e1) (bits ++ b :: rest) matchLen =
      ((trieLookupLoop (e0 = .nil && e1 = .nil) (edge e0 e1 b) (b :: rest) (matchLen + bits.length)).1,
        (if n > 0 then [matchLen + bits.length] else []) ++
          (trieLookupLoop (e0 = .nil && e1 = .nil) (edge e0 e1 b) (b :: rest) (matchLen + bits.length)).2) := by
  rw [trieLookupLoop]
  rw [if_neg (by rw [CommonPrefix.length_append_self]; omega), CommonPrefix.length_append_self, drop_left]
  cases b <;> rfl

theorem length_le_trieLookupLoop (leaf : Bool) (bits rest : List Bool) (n matchLen : Nat) (e0 e1 : TrieNode) :
    matchLen + bits.length ≤ (trieLookupLoop leaf (.node bits n e0 e1) (bits ++ rest) matchLen).1 := by
  rcases rest with _ | ⟨b, rest⟩
  · rw [trieLookupLoop]
    rw [if_neg (by rw [CommonPrefix.length_append_self]; omega), CommonPrefix.length_append_self, drop_left]
  · rw [trieLookupLoop_append]
    exact le_trieLookupLoop _ _ _ _

/-- Two values of one length that begin with the bits `v`, of which a lookup of the first looks at no more, have the same
lookup. -/
theorem trieLookupLoop_congr (hwf : t.WF) {leaf : Bool} {v x x' : List Bool} {matchLen : Nat}
    (hlen : x.length = x'.length) (h : (trieLookupLoop leaf t (v ++ x) matchLen).1 ≤ matchLen + v.length) :
    trieLookupLoop leaf t (v ++ x') matchLen = trieLookupLoop leaf t (v ++ x) matchLen := by
  induction t generalizing leaf v matchLen with
  | nil => rfl
  | node bits n e0 e1 ih0 ih1 =>
    obtain ⟨-, h0, h1, hwf0, hwf1⟩ := hwf
    by_cases hv : ∃ v', v = bits ++ v'
    · obtain ⟨_ | ⟨b, v⟩, rfl⟩ := hv
      · rw [append_nil] at h ⊢
        rcases x with _ | ⟨b, x⟩ <;> rcases x' with _ | ⟨b', x'⟩
        · rfl
        · cases hlen
        · cases hlen
        -- the next bit was not looked at, so there is no edge
        rw [trieLookupLoop_append] at h
        have hstart : (edge e0 e1 b).StartsWith b := by
          cases b
          · exact h0
          · exact h1
        have hleaf : e0 = .nil ∧ e1 = .nil := by
          revert hstart h
          cases edge e0 e1 b with
          | nil =>
            intro h _
            by_contra hleaf
            rw [trieLookupLoop, if_neg (by simpa using hleaf)] at h
            omega
          | node bits n f0 f1 => exact fun h hb => absurd h (Nat.not_le.2 (lt_trieLookupLoop hb _ _ _))
        obtain ⟨rfl, rfl⟩ := hleaf
        rw [trieLookupLoop_append, trieLookupLoop_append]
        cases b <;> cases b' <;> rfl
      · rw [append_assoc, cons_append, trieLookupLoop_append, length_append, ← Nat.add_assoc] at h
        rw [append_assoc, append_assoc, cons_append, cons_append, trieLookupLoop_append, trieLookupLoop_append]
        have ih : trieLookupLoop (e0 = .nil && e1 = .nil) (edge e0 e1 b) (b :: v ++ x') (matchLen + bits.length) =
            trieLookupLoop (e0 = .nil && e1 = .nil) (edge e0 e1 b) (b :: v ++ x) (matchLen + bits.length) := by
          cases b
          · exact ih0 hwf0 h
          · exact ih1 hwf1 h
        simp_all
    · -- the values leave the bits of the node before `v` ends
      have hlt : CommonPrefix.length bits (v ++ x) < bits.length := by
        refine (CommonPrefix.length_le_left bits (v ++ x)).lt_of_ne fun heq => hv ?_
        obtain ⟨rest, hrest⟩ := CommonPrefix.eq_append_of_length_eq heq
        have hge := length_le_trieLookupLoop leaf bits rest n matchLen e0 e1
        rw [← hrest] at hge
        exact (prefix_of_prefix_length_le ⟨rest, hrest.symm⟩ (prefix_append v x) (by omega)).imp fun _ => Eq.symm
      have hloop : ∀ y, CommonPrefix.length bits (v ++ y) < bits.length →
          trieLookupLoop leaf (.node bits n e0 e1) (v ++ y) matchLen =
            (matchLen + CommonPrefix.length bits (v ++ y) + 1, []) := by
        intro y hy
        rw [trieLookupLoop]
        rw [if_pos hy]
      rw [hloop x hlt] at h ⊢
      have heq := CommonPrefix.length_append_congr (show CommonPrefix.length bits (v ++ x) < v.length by omega) x'
      rw [hloop x' (heq ▸ hlt), heq]

theorem mem_trieLookupValue (hwf : t.WF) :
    k ∈ (trieLookupValue t value).2 ↔ k ≤ value.length ∧ 0 < t.count (value.take k) := by
  rw [trieLookupValue, mem_trieLookupLoop hwf]
  simp

theorem trieLookupValue_congr (hwf : t.WF) {value' : List Bool} (hlen : value.length = value'.length)
    (htake : value.take (trieLookupValue t value).1 = value'.take (trieLookupValue t value).1) :
    trieLookupValue t value' = trieLookupValue t value := by
  by_cases hle : (trieLookupValue t value).1 ≤ value.length
  · have hsplit := take_append_drop (trieLookupValue t value).1 value
    have hsplit' := take_append_drop (trieLookupValue t value).1 value'
    rw [← htake] at hsplit'
    have hsame := trieLookupLoop_congr hwf (v := value.take (trieLookupValue t value).1)
      (show (value.drop (trieLookupValue t value).1).length = (value'.drop (trieLookupValue t value).1).length by
        rw [length_drop, length_drop, hlen])
      (show (trieLookupLoop true t _ 0).1 ≤ _ by rw [hsplit, length_take_of_le hle, Nat.zero_add]; rfl)
    rwa [hsplit, hsplit'] at hsame
  · rw [take_of_length_le (by omega), take_of_length_le (by omega)] at htake
    rw [htake]

theorem le_of_mem_trieLookupLoop : ∀ {t : TrieNode} {leaf : Bool} {value : List Bool} {matchLen : Nat},
    k ∈ (trieLookupLoop leaf t value matchLen).2 → k ≤ (trieLookupLoop leaf t value matchLen).1
  | .nil, _, _, _, h => by simp [trieLookupLoop] at h
  | .node bits n e0 e1, leaf, value, matchLen, h => by
    have hhere : ∀ {m : Nat}, k ∈ (if n > 0 then [m] else []) → k ≤ m := by
      simp
    unfold trieLookupLoop at h ⊢
    dsimp only at h ⊢
    split at h
    · cases h
    rename_i hlt
    rw [if_neg hlt]
    split at h
    · exact hhere h
    · rcases mem_append.1 h with h | h
      · exact (hhere h).trans (le_trieLookupLoop _ e0 _ _)
      · exact le_of_mem_trieLookupLoop h
    · rcases mem_append.1 h with h | h
      · exact (hhere h).trans (le_trieLookupLoop _ e1 _ _)
      · exact le_of_mem_trieLookupLoop h

/-! ## A tree without dead branches -/

/-- No node is without rules and without children. -/
def TrieNode.Pruned : TrieNode → Prop
  | .nil => True
  | .node _ n e0 e1 => ¬(n = 0 ∧ e0 = .nil ∧ e1 = .nil) ∧ e0.Pruned ∧ e1.Pruned

theorem pruned_withEdges {bits : List Bool} {n : Nat} {t t' : TrieNode} (hne : t ≠ .nil) (ht : t.Pruned)
    (ht' : t'.Pruned) : (withEdges bits n b t t').Pruned := by
  rcases b with _ | _
  · exact ⟨fun h => hne h.2.1, ht, ht'⟩
  · exact ⟨fun h => hne h.2.2, ht', ht⟩

theorem pruned_trieBranchCreate {n : Nat} (hn : n ≠ 0) : ∀ (fuel : Nat) (p : List Bool),
    trieBranchCreate n fuel p ≠ .nil ∧ (trieBranchCreate n fuel p).Pruned
  | 0, _ => ⟨nofun, fun h => hn h.1, trivial, trivial⟩
  | fuel + 1, p => by
    have hleaf : TrieNode.node p n .nil .nil ≠ .nil ∧ (TrieNode.node p n .nil .nil).Pruned :=
      ⟨nofun, fun h => hn h.1, trivial, trivial⟩
    unfold trieBranchCreate
    split
    · exact hleaf
    split
    · exact hleaf
    · rename_i b rest _
      obtain ⟨hne, hpruned⟩ := pruned_trieBranchCreate hn fuel (b :: rest)
      exact ⟨by rcases b with _ | _ <;> nofun, pruned_withEdges hne hpruned trivial⟩

theorem pruned_trieInsertPrefix : ∀ {t : TrieNode}, t.Pruned → ∀ p,
    trieInsertPrefix t p ≠ .nil ∧ (trieInsertPrefix t p).Pruned
  | .nil, _, p => pruned_trieBranchCreate Nat.one_ne_zero _ p
  | .node bits n e0 e1, h, p => by
    unfold trieInsertPrefix
    dsimp only
    split
    · rename_i hlt
      obtain ⟨ps, a, as, p', rfl, rfl, hps, -⟩ := CommonPrefix.exists_split_of_lt hlt
      rw [← hps, trieSplit_eq]
      refine ⟨by rcases a with _ | _ <;> nofun, pruned_withEdges nofun h ?_⟩
      split
      · trivial
      · exact (pruned_trieBranchCreate Nat.one_ne_zero _ _).2
    · obtain ⟨hne, h0, h1⟩ := h
      split
      · exact ⟨nofun, fun h => absurd h.1 (Nat.succ_ne_zero n), h0, h1⟩
      · obtain ⟨hne0, h0⟩ := pruned_trieInsertPrefix h0 (false :: _)
        exact ⟨nofun, fun h => hne0 h.2.1, h0, h1⟩
      · obtain ⟨hne1, h1⟩ := pruned_trieInsertPrefix h1 (true :: _)
        exact ⟨nofun, fun h => hne1 h.2.2, h0, h1⟩

theorem pruned_triePrune {bits : List Bool} {n : Nat} {e0 e1 : TrieNode} (h0 : e0.Pruned) (h1 : e1.Pruned) :
    (triePrune (.node bits n e0 e1)).Pruned := by
  unfold triePrune
  split
  · trivial
  · rename_i heq
    cases heq
    split
    · exact ⟨fun h => (nomatch h.2.1), h0, trivial⟩
    · exact h0
  · rename_i heq
    cases heq
    split
    · exact ⟨fun h => (nomatch h.2.2), trivial, h1⟩
    · exact h1
  · rename_i hleaf _ _
    exact ⟨fun ⟨hn, he0, he1⟩ => hleaf bits (by rw [hn, he0, he1]), h0, h1⟩

theorem pruned_trieRemovePrefix : ∀ {t t' : TrieNode} {p : List Bool}, t.Pruned → trieRemovePrefix t p = some t' →
    t'.Pruned
  | .nil, _, _, _, h => nomatch h
  | .node bits n e0 e1, t', p, hpruned, h => by
    obtain ⟨-, h0, h1⟩ := hpruned
    unfold trieRemovePrefix at h
    dsimp only at h
    split at h
    · cases h
    split at h
    · split at h
      · cases h
      · cases h
        exact pruned_triePrune h0 h1
    · obtain ⟨t, ht, rfl⟩ := Option.map_eq_some_iff.1 h
      have htp := pruned_trieRemovePrefix h0 ht
      unfold triePruneAbove
      split
      · exact pruned_triePrune htp h1
      · rename_i hne
        exact ⟨fun h => hne h.2.1, htp, h1⟩
    · obtain ⟨t, ht, rfl⟩ := Option.map_eq_some_iff.1 h
      have htp := pruned_trieRemovePrefix h1 ht
      unfold triePruneAbove
      split
      · exact pruned_triePrune h0 htp
      · rename_i hne
        exact ⟨fun h => hne h.2.2, h0, htp⟩

theorem TrieNode.Pruned.eq_nil : ∀ {t : TrieNode}, t.Pruned → t.WF → (∀ p, t.count p = 0) → t = .nil
  | .nil, _, _, _ => rfl
  | .node bits n e0 e1, hpruned, hwf, hcount => by
    obtain ⟨hne, hp0, hp1⟩ := hpruned
    obtain ⟨-, hs0, hs1, hwf0, hwf1⟩ := hwf
    have hbelow : ∀ r, countBelow n e0 e1 r = 0 := fun r => by rw [← count_node_append]; exact hcount _
    refine absurd ⟨hbelow [], hp0.eq_nil hwf0 fun p => ?_, hp1.eq_nil hwf1 fun p => ?_⟩ hne
    · -- a prefix that an edge cannot have does not count below it
      rcases p with _ | ⟨_ | _, p⟩
      · exact hs0.count_empty
      · exact hbelow (false :: p)
      · exact hs0.count_other (by decide)
    · rcases p with _ | ⟨_ | _, p⟩
      · exact hs1.count_empty
      · exact hs1.count_other (by decide)
      · exact hbelow (true :: p)

/-! ## The list of prefixes that a tree holds -/

/-- The tree holds the prefixes `l`, each as often as it is in `l`. -/
structure TrieNode.Holds (t : TrieNode) (l : List (List Bool)) : Prop where
  wf : t.WF
  pruned : t.Pruned
  count : ∀ p, t.count p = l.count p

namespace TrieNode.Holds

variable {t : TrieNode} {l l' : List (List Bool)} {p : List Bool}

theorem nil : TrieNode.nil.Holds [] := ⟨trivial, trivial, fun _ => rfl⟩

theorem perm (h : t.Holds l) (hperm : l.Perm l') : t.Holds l' :=
  ⟨h.wf, h.pruned, fun p => (h.count p).trans (hperm.count_eq p)⟩

theorem insert (h : t.Holds l) (p : List Bool) : (trieInsertPrefix t p).Holds (p :: l) := by
  refine ⟨trieInsertPrefix_wf h.wf p, (pruned_trieInsertPrefix h.pruned p).2, fun q => ?_⟩
  rw [count_trieInsertPrefix, h.count, count_cons]
  simp

theorem insertAll : ∀ (ps : List (List Bool)) {t : TrieNode} {l : List (List Bool)}, t.Holds l →
    (ps.foldl trieInsertPrefix t).Holds (ps ++ l)
  | [], _, _, h => h
  | p :: ps, _, _, h => (insertAll ps (h.insert p)).perm perm_middle

theorem remove (h : t.Holds (p :: l)) : ∃ t', trieRemovePrefix t p = some t' ∧ t'.Holds l := by
  have hpos : 0 < t.count p := by
    rw [h.count, count_cons_self]
    omega
  obtain ⟨t', ht', hwf, -, hcount⟩ := trieRemovePrefix_spec h.wf hpos
  refine ⟨t', ht', hwf, pruned_trieRemovePrefix h.pruned ht', fun q => ?_⟩
  have hq := hcount q
  rw [h.count, count_cons] at hq
  simpa using hq.symm

theorem eq_nil (h : t.Holds []) : t = .nil := h.pruned.eq_nil h.wf h.count

theorem mem_lookup (h : t.Holds l) {value : List Bool} {k : Nat} :
    k ∈ (trieLookupValue t value).2 ↔ k ≤ value.length ∧ value.take k ∈ l := by
  rw [mem_trieLookupValue h.wf, h.count, count_pos_iff]

end TrieNode.Holds

end LinkerOvs.Cls
