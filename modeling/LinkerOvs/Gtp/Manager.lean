/-
The state of the GTP manager (`ofproto/gtp-manager.c`) and the operations on its two tables: the
list of PGWs, whose slots are recycled, and the maps from a TEID or a UE IP to the tunnel node of
its session. Map entries and tunnel nodes live on the heap and are reference counted; using one
after it was freed is a fault here, as is each of the source's unchecked pointer uses.
-/
import LinkerOvs.Lib.Heap
import LinkerOvs.Lib.Outcome
import LinkerOvs.Lib.Chain
import LinkerOvs.Util.Hash

namespace LinkerOvs.Gtp

/-- What stops a call of the GTP manager. -/
inductive Fault
  | nullPacketAt      -- the NULL of dp_packet_at is dereferenced
  | nullUdpPayload    -- the NULL of dp_packet_get_udp_payload is used as an address
  | nullTeidNode      -- the NULL of gtp_manager_get_teid_pgw is dereferenced
  | uninitFoundNode   -- found_node is used although the walk never set it
  | divByZero         -- seq_num % ovs_total with ovs_total = 0
  | useAfterFree
  | outOfBounds       -- an index past pgw_list
  | assertFailed
deriving DecidableEq, Repr

/-- An Ethernet address as its 48 bits. -/
abbrev EthAddr := BitVec 48

structure GtpPgwNode where
  gtpPgwPort : UInt16
  gtpPgwEth : EthAddr
  pgwSgiPort : UInt16
  pgwSgiEth : EthAddr
  gtpPgwIp : UInt32
deriving DecidableEq, Repr

structure GtpTunnelNode where
  teid4SgwC : UInt32
  teid5SgwU : UInt32
  teid2PgwC : UInt32
  teid3PgwU : UInt32
  ueIp : UInt32
  pgwIndex : Nat
  refCount : Int
deriving DecidableEq, Repr

/-- `struct gtp_teid_to_pgw_node` and `struct gtp_ueip_to_pgw_node`, which differ in the name of
their key only. -/
structure MapNode where
  key : UInt32
  gtpTunnelNode : Nat
  refCount : UInt8
deriving DecidableEq, Repr

/-- The 32 cmaps of one kind of key as one table: a bucket is a partition and a hash. -/
abbrev PartMap := List (ChainSlot (UInt32 × UInt32))

/-- Which of the two families of maps. -/
inductive MapKind
  | teid
  | ueip
deriving DecidableEq, Repr

def maxPgwPerNode : Nat := 1024

/-- The static variables of the file and the two heaps its nodes live on. `uninit` stands for what
`xmalloc` leaves in a fresh tunnel node. -/
structure Manager where
  ovsId : UInt16
  ovsTotal : UInt16
  ovsPhyPort : UInt16
  pgwFastpath : UInt8
  pgwList : Nat → GtpPgwNode
  current : Nat
  endIdx : Nat
  teid2pgw : PartMap
  ueip2pgw : PartMap
  nodes : CellHeap MapNode
  tunnels : CellHeap GtpTunnelNode
  uninit : GtpTunnelNode

/-- `gtp_manager_init` on static storage. -/
def gtpManagerInit (uninit : GtpTunnelNode) : Manager where
  ovsId := 0
  ovsTotal := 0
  ovsPhyPort := 0
  pgwFastpath := 0
  pgwList := fun _ => ⟨0, 0, 0, 0, 0⟩
  current := 0
  endIdx := 0
  teid2pgw := []
  ueip2pgw := []
  nodes := .empty
  tunnels := .empty
  uninit := uninit

variable (s : Manager)

def gtpManagerSetParams (ovsId total phyport : UInt16) (fastpath : UInt8) : Manager :=
  { s with ovsId := ovsId, ovsTotal := total, ovsPhyPort := phyport, pgwFastpath := fastpath }

/-! ## The PGW list -/

/-- The first slot below `end` whose PGW has address `ip`: the loop of three of the functions below
(an address of zero marks a free slot). -/
def slotOf (ip : UInt32) : Option Nat :=
  (List.range s.endIdx).find? fun i => (s.pgwList i).gtpPgwIp = ip

def gtpManagerAddPgw (e : GtpPgwNode) : Except Fault Manager :=
  match slotOf s 0 with
  | some i => .ok { s with pgwList := Function.update s.pgwList i e }
  | none =>
    if s.endIdx < maxPgwPerNode then
      .ok { s with pgwList := Function.update s.pgwList s.endIdx e, endIdx := s.endIdx + 1 }
    else .error .assertFailed

/-- The slot keeps the two Ethernet addresses of the PGW that leaves it. -/
def gtpManagerDelPgw (ip : UInt32) : Manager :=
  match slotOf s ip with
  | some i =>
    { s with
      pgwList := Function.update s.pgwList i
        { s.pgwList i with gtpPgwIp := 0, gtpPgwPort := 0, pgwSgiPort := 0 } }
  | none => s

/-- The next PGW in turn; slot 0 when none is left, whether or not it is in use. -/
def gtpManagerGetPgw : Nat × Manager :=
  match (List.range' s.current (s.endIdx - s.current)).find? fun i => (s.pgwList i).gtpPgwIp ≠ 0 with
  | some i => (i, { s with current := i + 1 })
  | none => (0, { s with current := 1 })

/-- `none` is the source's -1. -/
def gtpManagerFindPgw (ip : UInt32) : Option Nat := slotOf s ip

/-- `pgw_list[i]`. -/
def pgwAt (i : Nat) : Except Fault GtpPgwNode :=
  if i < maxPgwPerNode then .ok (s.pgwList i) else .error .outOfBounds

/-! ## The maps -/

/-- The chain a key hangs in: its partition and its hash. -/
def bucketOf : MapKind → UInt32 → UInt32 × UInt32
  | .teid, key => (key &&& 0x0000001F, hashInt key 0)
  | .ueip, key => ((key &&& 0x1F000000) >>> 24, hashInt key 0)

def mapOf : MapKind → PartMap
  | .teid => s.teid2pgw
  | .ueip => s.ueip2pgw

def setMap : MapKind → PartMap → Manager
  | .teid, m => { s with teid2pgw := m }
  | .ueip, m => { s with ueip2pgw := m }

def derefNode (p : Nat) : Except Fault MapNode :=
  match s.nodes.get? p with
  | some n => .ok n
  | none => .error .useAfterFree

def derefTunnel (i : Nat) : Except Fault GtpTunnelNode :=
  match s.tunnels.get? i with
  | some t => .ok t
  | none => .error .useAfterFree

/-- The walk of `CMAP_FOR_EACH_WITH_HASH` up to the first node with the key. -/
def walk (s : Manager) (key : UInt32) : List Nat → Except Fault (Option Nat)
  | [] => .ok none
  | p :: ps => do
    let n ← derefNode s p
    if n.key = key then pure (some p) else walk s key ps

def find (kind : MapKind) (s : Manager) (key : UInt32) : Except Fault (Option Nat) :=
  walk s key (ChainSlot.chain (mapOf s kind) (bucketOf kind key))

/-- The body of the two `put` functions. -/
def putPgw (kind : MapKind) (s : Manager) (key : UInt32) (tunnel : Nat) : Manager :=
  let p := s.nodes.next
  setMap { s with nodes := s.nodes.alloc ⟨key, tunnel, 1⟩ } kind (⟨bucketOf kind key, p⟩ :: mapOf s kind)

/-- The body of the two `get` functions: `none` is `NULL`. -/
def getPgw (kind : MapKind) (s : Manager) (key : UInt32) : Except Fault (Option Nat × Manager) := do
  match ← find kind s key with
  | none => pure (none, s)
  | some p =>
    let n ← derefNode s p
    pure (some p, { s with nodes := s.nodes.set p { n with refCount := n.refCount + 1 } })

/-- Dropping a reference to a tunnel node, the last of which frees it. -/
def unrefTunnel (i : Nat) : Except Fault Manager := do
  let t ← derefTunnel s i
  let tunnels := s.tunnels.set i { t with refCount := t.refCount - 1 }
  pure { s with tunnels := if t.refCount - 1 = 0 then tunnels.free i else tunnels }

/-- Dropping a reference to a map entry, the code that stands at the end of both `del` functions
and after each use of a found entry. -/
def unref (p : Nat) : Except Fault Manager := do
  let n ← derefNode s p
  let s := { s with nodes := s.nodes.set p { n with refCount := n.refCount - 1 } }
  if n.refCount - 1 = 0 then
    let s ← unrefTunnel s n.gtpTunnelNode
    pure { s with nodes := s.nodes.free p }
  else pure s

/-- The body of the two `del` functions. -/
def delPgw (kind : MapKind) (s : Manager) (key : UInt32) : Except Fault Manager := do
  match ← find kind s key with
  | none => .error .uninitFoundNode
  | some p => unref (setMap s kind (ChainSlot.unlink (mapOf s kind) p)) p

def gtpManagerPutTeidPgw := putPgw .teid
def gtpManagerGetTeidPgw := getPgw .teid
def gtpManagerDelTeidPgw := delPgw .teid
def gtpManagerPutUeipPgw := putPgw .ueip
def gtpManagerGetUeipPgw := getPgw .ueip
def gtpManagerDelUeipPgw := delPgw .ueip

end LinkerOvs.Gtp
