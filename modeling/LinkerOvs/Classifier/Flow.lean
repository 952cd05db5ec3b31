/-
Flows, masks and wildcards as the classifier sees them (`lib/flow.h`, `lib/classifier-private.h`): the
64-bit words of a `struct flow`, the words that a mask has bits in, big-endian fields and prefixes of
them, and hashes over stages of a mask.
-/
import LinkerOvs.Util.ByteOrder

namespace LinkerOvs.Cls

/-! ## Words -/

/-- 336 bytes of `struct flow_tnl` and 216 others. -/
def flowU64s : Nat := 69

/-- The words of a `struct flow`, of a mask or of a `struct flow_wildcards`. A `struct miniflow` is the flow it stands
for, with zeros for the words that are not in its map. -/
abbrev Flow := Fin flowU64s → BitVec 64

/-- The offsets of `dl_dst`, `nw_src` and `tp_src`, and the end. -/
def flowSegmentU64s : List Nat := [54, 58, 68, flowU64s]

/-- The word whose low half is `conj_id`. -/
def conjIdU64 : Fin flowU64s := ⟨53, by decide⟩

/-- `TP_PORTS_OFS32`, the place of `tp_src` and `tp_dst` among the 32-bit units. -/
def tpPortsOfs32 : Nat := 136

/-- The words that are in it, in order. -/
abbrev Flowmap := List (Fin flowU64s)

instance (i : Fin flowU64s) (map : Flowmap) : Decidable (i ∈ map) := List.instDecidableMemOfLawfulBEq i map

variable (mask : Flow) (f : Flow) (be32ofs nBits : Nat)

/-- The map of a `struct minimask`: the words in which it has bits. -/
def minimaskMap : Flowmap := (List.finRange flowU64s).filter fun i => mask i ≠ 0

/-- `miniflow_get_map_in_range`. -/
def minimaskMapInRange (start stop : Nat) : Flowmap :=
  (minimaskMap mask).filter fun i => start ≤ i.val ∧ i.val < stop

/-- The two flows have the same bits wherever `w` has one. -/
def Flow.Agrees (w f f' : Flow) : Prop := ∀ i, (f i ^^^ f' i) &&& w i = 0

instance (w f f' : Flow) : Decidable (w.Agrees f f') := inferInstanceAs (Decidable (∀ _, _))

def miniflowAndMaskMatchesFlow (flow mask target : Flow) : Bool := mask.Agrees flow target

def flowWildcardsFoldMinimaskInMap (wc mask : Flow) (map : Flowmap) : Flow :=
  fun i => if i ∈ map then wc i ||| mask i else wc i

def flowWildcardsFoldMinimask (wc mask : Flow) : Flow := flowWildcardsFoldMinimaskInMap wc mask (minimaskMap mask)

def rightmost1bit (x : BitVec 64) : BitVec 64 := x &&& -x

/-- The loop of `miniflow_and_mask_matches_flow_wc` over the words of the mask, with the bits looked at. -/
def matchesFlowWcLoop (flow mask target : Flow) : Flowmap → Flow → Bool × Flow
  | [], wc => (true, wc)
  | i :: is, wc =>
    let diff := (flow i ^^^ target i) &&& mask i
    if diff = 0 then matchesFlowWcLoop flow mask target is (Function.update wc i (wc i ||| mask i))
    else if wc i &&& diff = 0 then (false, Function.update wc i (wc i ||| rightmost1bit diff))
    else (false, wc)

def miniflowAndMaskMatchesFlowWc (flow mask target wc : Flow) : Bool × Flow :=
  matchesFlowWcLoop flow mask target (minimaskMap mask) wc

/-- The assignment to `flow->conj_id`. -/
def Flow.setConjId (id : UInt32) : Flow :=
  Function.update f conjIdU64 ((f conjIdU64 &&& 0xffffffff00000000#64) ||| id.toBitVec.setWidth 64)

/-! ## Big-endian fields -/

/-- The `ovs_be32` at a 32-bit offset, as the machine word it is. -/
def Flow.be32 (ofs : Nat) : UInt32 :=
  if h : ofs / 2 < flowU64s then ⟨(f ⟨ofs / 2, h⟩ >>> (32 * (ofs % 2))).setWidth 32⟩ else 0

/-- Bits set in the `ovs_be32` at a 32-bit offset. -/
def Flow.orBe32 (ofs : Nat) (x : UInt32) : Flow :=
  if h : ofs / 2 < flowU64s then
    Function.update f ⟨ofs / 2, h⟩ (f ⟨ofs / 2, h⟩ ||| (x.toBitVec.setWidth 64 <<< (32 * (ofs % 2))))
  else f

/-- `be_get_bit_at` on the bytes of a flow: bit `p` counts from the most significant bit of the first byte. -/
def Flow.bit (p : Nat) : Bool :=
  if h : p / 64 < flowU64s then (f ⟨p / 64, h⟩).getLsbD (p % 64 / 8 * 8 + (7 - p % 8)) else false

/-- As far as the classifier looks at it; no offset stands for a negative `flow_be32ofs`. -/
structure MfField where
  id : Nat
  flowBe32ofs : Option Nat
  nBits : Nat
deriving DecidableEq, Repr

/-- The bits of the field at a 32-bit offset, most significant first. -/
def Flow.fieldBits : List Bool :=
  (List.range nBits).map fun k => f.bit (32 * be32ofs + k)

def ctz32 (x : UInt32) : Nat := ((List.range 32).find? fun j => x.toBitVec.getLsbD j).getD 32

/-- The loop of `minimask_get_prefix_len` over the words of a field's mask, in host order. -/
def prefixLenLoop : List UInt32 → Nat → Nat → Nat
  | [], nBits, _ => nBits
  | mask :: ms, nBits, maskTz =>
    if maskTz ≠ 0 then
      if mask ≠ 0 then 0 else prefixLenLoop ms nBits maskTz
    else if ~~~mask &&& (~~~mask + 1) ≠ 0 then 0
    else prefixLenLoop ms (nBits + (32 - ctz32 mask)) (ctz32 mask)

def minimaskGetPrefixLen : Nat :=
  prefixLenLoop ((List.range (nBits / 32)).map fun i => ntohl (mask.be32 (be32ofs + i))) 0 0

/-- The bits `~0u << (32 - n)` of a prefix mask, in network order. -/
def be32PrefixMask (n : Nat) : UInt32 := if n = 0 then 0 else htonl ⟨0xffffffff#32 <<< (32 - n)⟩

def maskSetPrefixBits (wc : Flow) (be32ofs nBits : Nat) : Flow :=
  let full := (List.range (nBits / 32)).foldl (fun wc i => wc.orBe32 (be32ofs + i) 0xffffffff) wc
  if nBits % 32 ≠ 0 then full.orBe32 (be32ofs + nBits / 32) (be32PrefixMask (nBits % 32)) else full

def maskPrefixBitsSet (wc : Flow) (be32ofs nBits : Nat) : Bool :=
  ((List.range (nBits / 32)).all fun i => ~~~wc.be32 (be32ofs + i) = 0) &&
    (nBits % 32 = 0 || ~~~wc.be32 (be32ofs + nBits / 32) &&& be32PrefixMask (nBits % 32) = 0)

/-- The ports of a flow under a mask, most significant bit first. -/
def maskedPorts (f mask : Flow) : List Bool :=
  (List.range 32).map fun k => f.bit (32 * tpPortsOfs32 + k) && mask.bit (32 * tpPortsOfs32 + k)

/-- The length of the shortest prefix of the ports that has all the bits of their mask. -/
def portsMaskLen : Nat := 32 - ctz32 (ntohl (mask.be32 tpPortsOfs32))

/-! ## Hashes -/

/-- `hash_add64` and `hash_finish`, which depend on the build. -/
structure FlowHash where
  add64 : UInt32 → BitVec 64 → UInt32
  finish : UInt32 → Nat → UInt32

/-- The hash state of a staged hash: `*offset` and `*basis`. -/
structure HashState where
  offset : Nat := 0
  basis : UInt32 := 0

/-- `flow_hash_in_minimask_range`, and `minimatch_hash_range` on the flow that a `struct minimatch` stands for: the
state after the words of `range`. -/
def hashRange (f mask : Flow) (H : FlowHash) (s : HashState) (range : Flowmap) : HashState :=
  { offset := s.offset + range.length, basis := range.foldl (fun hash i => H.add64 hash (f i &&& mask i)) s.basis }

/-- The hash of a state, which the range functions return. -/
def HashState.hash (H : FlowHash) (s : HashState) : UInt32 := H.finish s.basis (s.offset * 8)

/-- `flow_hash_in_minimask` with a basis of 0. -/
def flowHashInMinimask (H : FlowHash) (f mask : Flow) : UInt32 := (hashRange f mask H {} (minimaskMap mask)).hash H

end LinkerOvs.Cls
