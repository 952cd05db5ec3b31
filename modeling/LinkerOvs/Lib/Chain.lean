/-
A hash table with chaining, seen as the list of its nodes with the bucket each one hangs in,
newest first: a chain is the nodes of one bucket in that order, inserting puts a node at the head
of its chain and unlinking a node leaves every other chain as it is. A node is an address of the
client's own storage.
-/
import Mathlib.Tactic

universe u

/-- A node hanging in the chain of `bucket`. -/
structure ChainSlot (ι : Type u) where
  bucket : ι
  node : Nat

namespace ChainSlot

variable {ι : Type u}

/-- The nodes in the chain of bucket `b`, newest first. -/
def chain [DecidableEq ι] (t : List (ChainSlot ι)) (b : ι) : List Nat :=
  (t.filter fun c => c.bucket = b).map (·.node)

/-- The table without node `p`. -/
def unlink (t : List (ChainSlot ι)) (p : Nat) : List (ChainSlot ι) :=
  t.filter fun c => c.node ≠ p

def nodes (t : List (ChainSlot ι)) : List Nat := t.map (·.node)

@[simp] theorem nodes_cons (c : ChainSlot ι) (t : List (ChainSlot ι)) :
    nodes (c :: t) = c.node :: nodes t := rfl

theorem nodes_unlink (t : List (ChainSlot ι)) (p : Nat) :
    nodes (unlink t p) = (nodes t).filter (· ≠ p) := by
  simp only [nodes, List.filter_map]
  rfl

end ChainSlot
