/-
The longest-prefix match tree of the classifier (`lib/classifier.c`, from `trie_branch_create` to
`trie_remove_prefix`): a binary trie with compressed paths, in which each node counts the rules that end
there.
-/
import LinkerOvs.Lib.CommonPrefix

namespace LinkerOvs.Cls

/-- With the `n_bits` bits of its prefix as a list, most significant bit first; `nil` is a null edge. -/
inductive TrieNode
  | nil
  | node (bits : List Bool) (nRules : Nat) (edge0 edge1 : TrieNode)
deriving DecidableEq, Repr

def triePrefixBits : Nat := 32

namespace TrieNode

/-- A node with `t` on the edge for `b` and `t'` on the other edge. -/
def withEdges (bits : List Bool) (nRules : Nat) (b : Bool) (t t' : TrieNode) : TrieNode :=
  if b then .node bits nRules t' t else .node bits nRules t t'

end TrieNode

open TrieNode

/-- With enough steps for the bits given. -/
def trieBranchCreate (nRules : Nat) : Nat → List Bool → TrieNode
  | 0, bits => .node bits nRules .nil .nil
  | fuel + 1, bits =>
    if bits.length ≤ triePrefixBits then .node bits nRules .nil .nil
    else match bits.drop triePrefixBits with
      | [] => .node bits nRules .nil .nil
      | b :: rest =>
        withEdges (bits.take triePrefixBits) 0 b (trieBranchCreate nRules fuel (b :: rest)) .nil

/-- The node above `t` and a new branch, where a prefix `p` that goes `eq` bits along `t` leaves it. -/
def trieSplit (bits : List Bool) (nRules : Nat) (edge0 edge1 : TrieNode) (p : List Bool) (eq : Nat) : TrieNode :=
  match bits.drop eq with
  | [] => .nil
  | oldBranch :: old =>
    withEdges (bits.take eq) (if p.length = eq then 1 else 0) oldBranch
      (.node (oldBranch :: old) nRules edge0 edge1)
      (if eq < p.length then trieBranchCreate 1 p.length (p.drop eq) else .nil)

/-- For the bits of the prefix that are left at a node. -/
def trieInsertPrefix : TrieNode → List Bool → TrieNode
  | .nil, p => trieBranchCreate 1 p.length p
  | .node bits nRules edge0 edge1, p =>
    let eqbits := CommonPrefix.length bits p
    if eqbits < bits.length then
      trieSplit bits nRules edge0 edge1 p eqbits
    else match p.drop eqbits with
      | [] => .node bits (nRules + 1) edge0 edge1
      | false :: rest => .node bits nRules (trieInsertPrefix edge0 (false :: rest)) edge1
      | true :: rest => .node bits nRules edge0 (trieInsertPrefix edge1 (true :: rest))

/-- One turn of the pruning loop of `trie_remove_prefix`: a node without rules goes if it is a leaf, and is combined
with its only child if their bits fit in one node. -/
def triePrune : TrieNode → TrieNode
  | .node _ 0 .nil .nil => .nil
  | .node bits 0 (.node bits' n e0 e1) .nil =>
    if bits.length + bits'.length > triePrefixBits then .node bits 0 (.node bits' n e0 e1) .nil
    else .node (bits ++ bits') n e0 e1
  | .node bits 0 .nil (.node bits' n e0 e1) =>
    if bits.length + bits'.length > triePrefixBits then .node bits 0 .nil (.node bits' n e0 e1)
    else .node (bits ++ bits') n e0 e1
  | t => t

/-- A node after the child on one of its edges has become `t`: the pruning goes on if the child is gone. -/
def triePruneAbove (t node : TrieNode) : TrieNode :=
  if t = .nil then triePrune node else node

/-- For the bits of the prefix that are left at a node; `none` if no rule has the prefix, and then the tree stays as it
is. -/
def trieRemovePrefix : TrieNode → List Bool → Option TrieNode
  | .nil, _ => none
  | .node bits nRules edge0 edge1, p =>
    let eqbits := CommonPrefix.length bits p
    if eqbits < bits.length then none
    else match p.drop eqbits with
      | [] => if nRules = 0 then none else some (triePrune (.node bits (nRules - 1) edge0 edge1))
      | false :: rest =>
        (trieRemovePrefix edge0 (false :: rest)).map fun t => triePruneAbove t (.node bits nRules t edge1)
      | true :: rest =>
        (trieRemovePrefix edge1 (true :: rest)).map fun t => triePruneAbove t (.node bits nRules edge0 t)

/-- The loop of `trie_lookup_value` from a node on: `matchLen` bits of the value match so far, `value` are the others,
and `leaf` says that the node above is a leaf or that there is none. Returns the number of bits looked at and the
lengths in `plens`. -/
def trieLookupLoop (leaf : Bool) : TrieNode → List Bool → Nat → Nat × List Nat
  | .nil, _, matchLen => (if leaf then matchLen else matchLen + 1, [])
  | .node bits nRules edge0 edge1, value, matchLen =>
    let eqbits := CommonPrefix.length bits value
    if eqbits < bits.length then (matchLen + eqbits + 1, [])
    else
      let matchLen := matchLen + eqbits
      let here := if nRules > 0 then [matchLen] else []
      match value.drop eqbits with
      | [] => (matchLen, here)
      | false :: rest =>
        let r := trieLookupLoop (edge0 = .nil && edge1 = .nil) edge0 (false :: rest) matchLen
        (r.1, here ++ r.2)
      | true :: rest =>
        let r := trieLookupLoop (edge0 = .nil && edge1 = .nil) edge1 (true :: rest) matchLen
        (r.1, here ++ r.2)

def trieLookupValue (t : TrieNode) (value : List Bool) : Nat × List Nat := trieLookupLoop true t value 0

end LinkerOvs.Cls
