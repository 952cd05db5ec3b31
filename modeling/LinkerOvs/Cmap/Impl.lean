/-
The concurrent cuckoo hash map of `lib/cmap.c`, as its single writer leaves it after each operation. A
slot keeps the hash of the last chain it held, also when the chain is gone, and a slot that was never used
has hash zero; a lookup stops at the first slot with the hash it looks for. Every basis value comes from a
list that stands for the random numbers to come: rebuilding the table is tried with one after the other.
-/
import LinkerOvs.Lib.Outcome

namespace LinkerOvs.Cmap

inductive PointerWidth
  | bits32
  | bits64
deriving DecidableEq, Repr

/-- What a build decides: the width of pointers and the function `hash_finish`. -/
structure Build where
  width : PointerWidth
  hashFinish : UInt32 → UInt32 → UInt32

/-- `CMAP_K`, the number of slots that fit into a cache line of 64 bytes. -/
def Build.k (B : Build) : Nat :=
  match B.width with
  | .bits32 => 7
  | .bits64 => 5

/-- A slot of `struct cmap_bucket`; the null pointer is the empty chain. -/
structure Slot (α : Type) where
  hash : UInt32
  chain : List α

/-- `struct cmap_impl`, with `mask + 1 = 2 ^ bits` buckets. -/
structure Impl (α : Type) where
  n : Nat
  bits : Nat
  basis : UInt32
  slot : Nat → Nat → Slot α

/-- Why an operation does not return: a null pointer or a failed assertion, or that the random numbers do not
suffice. -/
inductive Fault
  | crash
  | outOfBases
deriving DecidableEq, Repr

def cmapMaxLoad : Nat := 3650722200
def cmapMinLoad : Nat := 858993459

variable {α : Type} (B : Build)

def calcMaxN (bits : Nat) : Nat := 2 ^ bits * B.k * cmapMaxLoad / 2 ^ 32

def calcMinN (bits : Nat) : Nat := 2 ^ bits * B.k * cmapMinLoad / 2 ^ 32

/-- With the random basis. -/
def cmapImplCreate (bits : Nat) (basis : UInt32) : Impl α :=
  { n := 0, bits := bits, basis := basis, slot := fun _ _ => { hash := 0, chain := [] } }

def cmapInit (basis : UInt32) : Impl α := cmapImplCreate 0 basis

def otherHash (hash : UInt32) : UInt32 := (hash <<< 16) ||| (hash >>> 16)

namespace Impl

variable (impl : Impl α)

/-- The bucket `h & mask`. -/
def index (h : UInt32) : Nat := h.toNat % 2 ^ impl.bits

variable (hash : UInt32)

def rehash : UInt32 := B.hashFinish impl.basis hash

/-- The two buckets of a hash. -/
def bucket1 : Nat := impl.index (impl.rehash B hash)

def bucket2 : Nat := impl.index (otherHash (impl.rehash B hash))

/-- `cmap_set_bucket`. -/
def setBucket (b i : Nat) (s : Slot α) : Impl α :=
  { impl with slot := fun b' i' => if b' = b ∧ i' = i then s else impl.slot b' i' }

/-- The first slot of the bucket that has this hash, used or not. -/
def hashSlot (b : Nat) (hash : UInt32) : Option Nat := (List.range B.k).find? fun i => (impl.slot b i).hash = hash

def findInBucket (b : Nat) (hash : UInt32) : List α :=
  match impl.hashSlot B b hash with
  | some i => (impl.slot b i).chain
  | none => []

/-- `cmap_find`. -/
def find : List α :=
  match impl.findInBucket B (impl.bucket1 B hash) hash with
  | [] => impl.findInBucket B (impl.bucket2 B hash) hash
  | node :: nodes => node :: nodes

/-- `cmap_find_protected`: the other hash is that of the hash itself, not of its rehash. -/
def findProtected : List α :=
  match impl.findInBucket B (impl.bucket1 B hash) hash with
  | [] => impl.findInBucket B (impl.index (otherHash hash)) hash
  | node :: nodes => node :: nodes

/-- `cmap_find_slot_protected`. -/
def findSlotProtected (b : Nat) (hash : UInt32) : Option Nat :=
  (List.range B.k).find? fun i => (impl.slot b i).hash = hash && !(impl.slot b i).chain.isEmpty

/-- `cmap_find_empty_slot_protected`. -/
def findEmptySlotProtected (b : Nat) : Option Nat := (List.range B.k).find? fun i => (impl.slot b i).chain.isEmpty

/-- `cmap_insert_dup`. -/
def insertDup (nodes : List α) (hash : UInt32) (b : Nat) : Option (Impl α) :=
  (impl.hashSlot B b hash).map fun i =>
    impl.setBucket b i { hash := hash, chain := nodes ++ (impl.slot b i).chain }

/-- `cmap_insert_bucket`. -/
def insertBucket (nodes : List α) (hash : UInt32) (b : Nat) : Option (Impl α) :=
  (impl.findEmptySlotProtected B b).map fun i => impl.setBucket b i { hash := hash, chain := nodes }

/-- `other_bucket_protected`. -/
def otherBucket (b i : Nat) : Nat :=
  if impl.bucket1 B (impl.slot b i).hash = b then impl.bucket2 B (impl.slot b i).hash
  else impl.bucket1 B (impl.slot b i).hash

end Impl

/-- `struct cmap_path`. -/
structure Path where
  start : Nat
  stop : Nat
  slots : List Nat

def maxDepth : Nat := 4
def maxQueue : Nat := 500

/-- A path along which the table can be rearranged: follow it, then slot `i`, and slot `j` is empty. -/
structure FoundPath where
  path : Path
  i : Nat
  j : Nat

namespace Impl

variable (impl : Impl α)

/-- The loop of `cmap_insert_bfs` over the slots of a path's last bucket, with the rest of the queue and the
number of paths that have been put in it. -/
def expand (path : Path) : List Nat → List Path → Nat → FoundPath ⊕ (List Path × Nat)
  | [], queue, head => .inr (queue, head)
  | i :: is, queue, head =>
    let next := impl.otherBucket B path.stop i
    if path.stop = next then expand path is queue head
    else
      match impl.findEmptySlotProtected B next with
      | some j => .inl { path := path, i := i, j := j }
      | none =>
        if path.slots.length < maxDepth ∧ head < maxQueue then
          expand path is (queue ++ [{ path with stop := next, slots := path.slots ++ [i] }]) (head + 1)
        else expand path is queue head

/-- The outer loop of `cmap_insert_bfs`. It takes one path in each turn, of at most `MAX_QUEUE`. -/
def search : Nat → List Path → Nat → Option FoundPath
  | 0, _, _ => none
  | _ + 1, [], _ => none
  | turns + 1, path :: queue, head =>
    match impl.expand B path (List.range B.k) queue head with
    | .inl found => some found
    | .inr (queue, head) => search turns queue head

def places (b : Nat) : List Nat → List (Nat × Nat)
  | [] => []
  | i :: is => (b, i) :: places (impl.otherBucket B b i) is

end Impl

/-- Moves the content of each place to the next one, starting at the end. -/
def shift (impl : Impl α) : List (Nat × Nat) → Impl α
  | p :: q :: ps =>
    let impl := shift impl (q :: ps)
    impl.setBucket q.1 q.2 (impl.slot p.1 p.2)
  | _ => impl

namespace Impl

variable (impl : Impl α)

/-- `cmap_insert_bfs`. -/
def insertBfs (nodes : List α) (hash : UInt32) (b1 b2 : Nat) : Option (Impl α) :=
  let queue := if b1 ≠ b2 then [{ start := b1, stop := b1, slots := [] }, { start := b2, stop := b2, slots := [] }]
    else [{ start := b1, stop := b1, slots := [] }]
  (impl.search B maxQueue queue queue.length).map fun found =>
    let places := impl.places B found.path.start (found.path.slots ++ [found.i, found.j])
    match places with
    | [] => impl
    | p :: ps => (shift impl (p :: ps)).setBucket p.1 p.2 { hash := hash, chain := nodes }

/-- `cmap_try_insert`. -/
def tryInsert (nodes : List α) (hash : UInt32) : Option (Impl α) :=
  let b1 := impl.bucket1 B hash
  let b2 := impl.bucket2 B hash
  (impl.insertDup B nodes hash b1).or <| (impl.insertDup B nodes hash b2).or <|
    (impl.insertBucket B nodes hash b1).or <| (impl.insertBucket B nodes hash b2).or <|
      impl.insertBfs B nodes hash b1 b2

/-- The slots of the table in the order of `cmap_try_rehash`. -/
def allPlaces : List (Nat × Nat) := List.range (2 ^ impl.bits) ×ˢ List.range B.k

/-- `cmap_try_rehash`. -/
def tryRehash (old new : Impl α) : Option (Impl α) :=
  (old.allPlaces B).foldlM
    (fun new p =>
      match (old.slot p.1 p.2).chain with
      | [] => some new
      | node :: nodes => new.tryInsert B (node :: nodes) (old.slot p.1 p.2).hash)
    new

/-- The loop of `cmap_rehash`, with the random numbers that are left. -/
def rehashLoop (old : Impl α) (bits : Nat) : List UInt32 → Except Fault (Impl α × List UInt32)
  | [] => .error .outOfBases
  | basis :: bases =>
    match old.tryRehash B (cmapImplCreate bits basis) with
    | some new => .ok ({ new with n := old.n }, bases)
    | none => rehashLoop old bits bases

def cmapRehash (old : Impl α) (bits : Nat) (bases : List UInt32) : Except Fault (Impl α × List UInt32) :=
  if old.n < calcMaxN B bits then old.rehashLoop B bits bases else .error .crash

/-- The loop of `cmap_insert`. Each turn but the last one uses up a random number. -/
def insertLoop (node : α) (hash : UInt32) : Nat → Impl α → List UInt32 → Except Fault (Impl α)
  | 0, _, _ => .error .outOfBases
  | turns + 1, impl, bases =>
    match impl.tryInsert B [node] hash with
    | some impl => .ok { impl with n := impl.n + 1 }
    | none => do
      let (impl, bases) ← impl.cmapRehash B impl.bits bases
      insertLoop node hash turns impl bases

def cmapInsert (node : α) (hash : UInt32) (bases : List UInt32) : Except Fault (Impl α) := do
  let (impl, bases) ←
    if impl.n ≥ calcMaxN B impl.bits then impl.cmapRehash B (impl.bits + 1) bases else .ok (impl, bases)
  insertLoop B node hash (bases.length + 1) impl bases

end Impl

/-- The end of `cmap_replace` when a node was removed: a table with too few nodes shrinks. -/
def Impl.shrinkIfSparse (impl : Impl α) (bases : List UInt32) : Except Fault (Impl α) :=
  if impl.n < calcMinN B impl.bits then do
    let (impl, _) ← impl.cmapRehash B (impl.bits - 1) bases
    .ok impl
  else .ok impl

section

variable [DecidableEq α]

/-- The walk of `cmap_replace__` along the chain; it runs off the end if the node is not there. -/
def replaceNode (node : α) (replacement : Option α) : List α → Option (List α)
  | [] => none
  | x :: xs => if x = node then some (replacement.toList ++ xs) else (replaceNode node replacement xs).map (x :: ·)

/-- `cmap_replace__`; `none` is its result false. -/
def Impl.replaceIn (impl : Impl α) (node : α) (replacement : Option α) (hash : UInt32) (b : Nat) :
    Except Fault (Option (Impl α)) :=
  match impl.findSlotProtected B b hash with
  | none => .ok none
  | some i =>
    match replaceNode node replacement (impl.slot b i).chain with
    | none => .error .crash
    | some chain => .ok (some (impl.setBucket b i { hash := (impl.slot b i).hash, chain := chain }))

/-- The calls of `cmap_replace__` for the two buckets of the hash. -/
def Impl.replaceInBuckets (impl : Impl α) (node : α) (replacement : Option α) (hash : UInt32) :
    Except Fault (Option (Impl α)) := do
  match ← impl.replaceIn B node replacement hash (impl.bucket1 B hash) with
  | some impl => .ok (some impl)
  | none => impl.replaceIn B node replacement hash (impl.bucket2 B hash)

def Impl.cmapReplace (impl : Impl α) (oldNode : α) (newNode : Option α) (hash : UInt32) (bases : List UInt32) :
    Except Fault (Impl α) := do
  match ← impl.replaceInBuckets B oldNode newNode hash, newNode with
  | none, _ => .error .crash -- ovs_assert(ok)
  | some impl, some _ => .ok impl
  | some impl, none => Impl.shrinkIfSparse B { impl with n := impl.n - 1 } bases

end

/-- The operations of the writer. -/
inductive Op (α : Type)
  | insert (node : α) (hash : UInt32)
  | remove (node : α) (hash : UInt32)
  | replace (oldNode newNode : α) (hash : UInt32)

variable [DecidableEq α]

/-- One operation, with the random numbers that it may use. -/
def step (impl : Impl α) : Op α × List UInt32 → Except Fault (Impl α)
  | (.insert node hash, bases) => impl.cmapInsert B node hash bases
  | (.remove node hash, bases) => impl.cmapReplace B node none hash bases
  | (.replace oldNode newNode hash, bases) => impl.cmapReplace B oldNode (some newNode) hash bases

end LinkerOvs.Cmap
