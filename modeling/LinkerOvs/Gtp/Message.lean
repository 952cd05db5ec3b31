/-
The messages of the GTP manager (`ofproto/gtp-manager.c`): recognising and parsing GTP-C and GTP-U,
the walk over the information elements of a Create Session Response, and the handlers that choose
the PGW of a message and keep the session maps. Reads of the packet go through `dp_packet_at` and
fault where the source dereferences its result without looking at it.
-/
import LinkerOvs.Gtp.Manager
import LinkerOvs.Packet.DpPacket
import LinkerOvs.Packet.Protocols
import LinkerOvs.Lib.Run

namespace LinkerOvs.Gtp

/-- The members of `struct flow` that the GTP manager reads or writes. -/
structure Flow where
  inPort : UInt16
  dlType : UInt16
  dlDst : EthAddr
  nwSrc : UInt32
  nwDst : UInt32
  nwProto : UInt8
  tpSrc : UInt16
  tpDst : UInt16
deriving DecidableEq, Repr

/-- The masks of `struct flow_wildcards` that the GTP manager sets. -/
structure Wildcards where
  nwDst : UInt32
  dlDst : EthAddr
deriving DecidableEq, Repr

/-- What a handler works on: the flow, its wildcards and the ports `xlate_output_action` has been
called with, the last one first. -/
structure XlateCtx where
  flow : Flow
  wc : Wildcards
  outputs : List UInt16
deriving DecidableEq, Repr

variable (s : Manager) (x : XlateCtx) (packet : DpPacket)

def xlateOutputAction (port : UInt16) : XlateCtx := { x with outputs := port :: x.outputs }

/-! ## Recognising GTP -/

def gtpuPort : UInt16 := 2152
def gtpcPort : UInt16 := 2123

/-- UDP to or from the port. -/
def maybeMessage (port : UInt16) (flow : Flow) : Bool :=
  dlTypeIsIpAny flow.dlType && flow.nwProto = ipprotoUdp && (flow.tpDst = htons port || flow.tpSrc = htons port)

def maybeGtpcMessage := maybeMessage gtpcPort
def maybeGtpuMessage := maybeMessage gtpuPort

def checkIsGtp (flow : Flow) : Bool := maybeGtpcMessage flow || maybeGtpuMessage flow

/-! ## Headers -/

/-- Without a TEID in the message the source leaves `teid` unset; it is then zero here, and no reader looks at it
before `has_teid`. -/
structure GtpcMsgHeader where
  version : UInt8
  hasTeid : Bool
  messageType : UInt8
  messageLength : UInt16
  teid : UInt32
  seqNum : UInt32
  headerLength : Nat
  bodyOffset : Nat
deriving DecidableEq, Repr

structure GtpuMsgHeader where
  version : UInt8
  messageType : UInt8
  messageLength : UInt16
  teid : UInt32
  headerLength : Nat
  bodyOffset : Nat
deriving DecidableEq, Repr

/-- The use of a pointer that may be `NULL`. -/
def deref {α : Type} (fault : Fault) : Option α → Except Fault α
  | some a => .ok a
  | none => .error fault

def readU8 (offset : Nat) : Except Fault UInt8 :=
  deref .nullPacketAt (packet.u8At offset)

def readBe16 (offset : Nat) : Except Fault UInt16 :=
  deref .nullPacketAt (packet.be16At offset)

def readBe32 (offset : Nat) : Except Fault UInt32 :=
  deref .nullPacketAt (packet.be32At offset)

/-- `none` is the `NULL` of a message of another version. The sequence number is masked before the
byte order is changed, so the mask takes the first of its octets away, not the spare one. -/
def parseGtpcMsgHeader : Except Fault (Option GtpcMsgHeader) := do
  let offset ← deref .nullUdpPayload packet.getUdpPayload
  let flag ← readU8 packet offset
  let version := (flag &&& 0xe0) >>> 5
  if version ≠ 2 then return none
  let hasTeid : Bool := (flag &&& 0x08) ≠ 0
  let messageType ← readU8 packet (offset + 1)
  let messageLength ← readBe16 packet (offset + 2)
  let teid ← if hasTeid then readBe32 packet (offset + 4) else pure 0
  let headerLength := if hasTeid then 8 else 4
  let seqNum ← readBe32 packet (offset + headerLength)
  return some
    { version := version
      hasTeid := hasTeid
      messageType := messageType
      messageLength := ntohs messageLength
      teid := ntohl teid
      seqNum := ntohl (seqNum &&& 0xFFFFFF00) >>> 8
      headerLength := headerLength + 4
      bodyOffset := offset + headerLength + 4 }

def parseGtpuMessage : Except Fault (Option GtpuMsgHeader) := do
  let offset ← deref .nullUdpPayload packet.getUdpPayload
  let flag ← readU8 packet offset
  let version := (flag &&& 0xe0) >>> 5
  if version ≠ 1 then return none
  let messageType ← readU8 packet (offset + 1)
  let messageLength ← readBe16 packet (offset + 2)
  let teid ← readBe32 packet (offset + 4)
  return some
    { version := version
      messageType := messageType
      messageLength := ntohs messageLength
      teid := ntohl teid
      headerLength := 8
      bodyOffset := offset + 8 }

/-! ## The body of a Create Session Response -/

/-- The three values the walk over the information elements looks for; zero is not found. -/
structure SessionIes where
  t4 : UInt32
  t5 : UInt32
  ueip : UInt32
deriving DecidableEq, Repr

variable (t2 : UInt32) (ies : SessionIes) (msg : GtpcMsgHeader)

/-- The test that ends the walk and that installs the session. -/
def SessionIes.complete : Bool := ies.t4 ≠ 0 && ies.t5 ≠ 0 && ies.ueip ≠ 0

def ieFteid : UInt8 := 87
def iePaa : UInt8 := 79
def ieBearerContext : UInt8 := 93

/-- The inner loop, over the elements of a bearer context. It moves on by at least four octets a
turn, so `fuel` of the octets left lets it run to its end. -/
def walkBearer (packet : DpPacket) (bcend : Nat) : (fuel bcstart : Nat) → UInt32 → Except Fault UInt32
  | 0, _, t5 => .ok t5
  | fuel + 1, bcstart, t5 =>
    if bcstart < bcend then do
      let bcIeLength ← readBe16 packet (bcstart + 1)
      let bcIeType ← readU8 packet bcstart
      if bcIeType = ieFteid then
        let t5 ← readBe32 packet (bcstart + 5)
        pure (ntohl t5)
      else walkBearer packet bcend fuel (bcstart + (ntohs bcIeLength).toNat + 4) t5
    else .ok t5

/-- What one turn of the outer loop takes from the element of type `ieType` at `start`. -/
def takeIe (start : Nat) (ieType : UInt8) (ieLength : Nat) (ies : SessionIes) :
    Except Fault SessionIes :=
  if ieType = ieFteid then do
    let t4 ← readBe32 packet (start + 5)
    pure { ies with t4 := ntohl t4 }
  else if ieType = iePaa then do
    let ueip ← readBe32 packet (start + 5)
    pure { ies with ueip := ueip }
  else if ieType = ieBearerContext then do
    let t5 ← walkBearer packet (start + 4 + ieLength) ieLength (start + 4) ies.t5
    pure { ies with t5 := t5 }
  else .ok ies

/-- The outer loop, `fuel` as in the inner one. -/
def walkIes (packet : DpPacket) (finish : Nat) : (fuel start : Nat) → SessionIes → Except Fault SessionIes
  | 0, _, ies => .ok ies
  | fuel + 1, start, ies =>
    if start < finish then do
      let ieLength ← readBe16 packet (start + 1)
      let ieType ← readU8 packet start
      let ies ← takeIe packet start ieType (ntohs ieLength).toNat ies
      if ies.complete then pure ies
      else walkIes packet finish fuel (start + (ntohs ieLength).toNat + 4) ies
    else .ok ies

/-- The end of the body by the message's own length field; the offset of a body is never less than
its header's length, so the subtraction is exact. -/
def bodyFinish : Nat :=
  msg.bodyOffset + (msg.messageLength.toNat + 4) - msg.headerLength

def sessionIes : Except Fault SessionIes :=
  walkIes packet (bodyFinish msg) (bodyFinish msg - msg.bodyOffset) msg.bodyOffset ⟨0, 0, 0⟩

/-! ## Handlers -/

/-- Writing the addresses of a PGW to the flow and sending the packet to its GTP port. -/
def forwardGtp (e : GtpPgwNode) : XlateCtx :=
  xlateOutputAction
    { x with
      flow := { x.flow with nwDst := e.gtpPgwIp, dlDst := e.gtpPgwEth }
      wc := ⟨0xffffffff, 0xffffffffffff⟩ }
    e.gtpPgwPort

/-- Sending the packet to the SGi port of a PGW, of whose addresses only the Ethernet one is
written. -/
def forwardSgi (e : GtpPgwNode) : XlateCtx :=
  xlateOutputAction
    { x with
      flow := { x.flow with dlDst := e.pgwSgiEth }
      wc := { x.wc with dlDst := 0xffffffffffff } }
    e.pgwSgiPort

/-- Forwarding by a map, the code of all three handlers for packets from the physical port: look the
key up, drop the packet if there is no entry or the slot of its PGW is free, and drop the
reference. -/
def forwardByMap (kind : MapKind) (forward : XlateCtx → GtpPgwNode → XlateCtx) (s : Manager)
    (x : XlateCtx) (key : UInt32) : Except Fault (Manager × XlateCtx) := do
  let (selected, s) ← getPgw kind s key
  match selected with
  | none => pure (s, x)
  | some p =>
    let n ← derefNode s p
    let t ← derefTunnel s n.gtpTunnelNode
    let e ← pgwAt s t.pgwIndex
    let x := if e.gtpPgwIp = 0 then x else forward x e
    let s ← unref s p
    pure (s, x)

/-- The tunnel node of a new session, `pgw_index` and `ref_count` not yet set. -/
def newTunnel : GtpTunnelNode :=
  { s.uninit with teid2PgwC := t2, teid4SgwC := ies.t4, teid5SgwU := ies.t5, ueIp := ies.ueip }

def installSession (pgwindex : Nat) : Manager :=
  let node := s.tunnels.next
  let tunnel := { newTunnel s t2 ies with pgwIndex := pgwindex, refCount := 4 }
  let s := { s with tunnels := s.tunnels.alloc tunnel }
  let s := gtpManagerPutTeidPgw s ies.t4 node
  let s := gtpManagerPutTeidPgw s ies.t5 node
  let s := gtpManagerPutUeipPgw s ies.ueip node
  gtpManagerPutTeidPgw s t2 node

/-- A Create Session Response whose elements are complete: the tunnel node is allocated before the
PGW is looked up, and nothing frees it when there is none. -/
def createSession : Manager × XlateCtx :=
  match gtpManagerFindPgw s x.flow.nwSrc with
  | none => ({ s with tunnels := s.tunnels.alloc (newTunnel s t2 ies) }, x)
  | some pgwindex => (installSession s t2 ies pgwindex, xlateOutputAction x s.ovsPhyPort)

/-- Deleting what stands under the keys of the session in tunnel node `t`. -/
def deleteEntries (t : GtpTunnelNode) : Except Fault Manager := do
  let s ← gtpManagerDelTeidPgw s t.teid4SgwC
  let s ← gtpManagerDelTeidPgw s t.teid5SgwU
  let s ← gtpManagerDelUeipPgw s t.ueIp
  gtpManagerDelTeidPgw s t2

def deleteSession : Except Fault (Manager × XlateCtx) := do
  let (found, s) ← gtpManagerGetTeidPgw s t2
  match found with
  | none => .error .nullTeidNode
  | some p =>
    let n ← derefNode s p
    let t ← derefTunnel s n.gtpTunnelNode
    let s ← deleteEntries s t2 t
    let s ← unref s p
    pure (s, xlateOutputAction x s.ovsPhyPort)

def createSessionResponse : UInt8 := 33
def deleteSessionResponse : UInt8 := 37

/-- A GTP-C message without a TEID from the physical port: this switch takes its share of them and
hands them to the PGWs in turn. -/
def selectPgw (seqNum : UInt32) : Except Fault (Manager × XlateCtx) :=
  if s.ovsTotal = 0 then .error .divByZero
  else if seqNum % s.ovsTotal.toUInt32 = s.ovsId.toUInt32 then do
    let (i, s) := gtpManagerGetPgw s
    let e ← pgwAt s i
    pure (s, forwardGtp x e)
  else pure (s, x)

def handleGtpcMessage (packet : DpPacket) :
    Except Fault (Manager × XlateCtx) :=
  if x.flow.inPort = s.ovsPhyPort then
    if !msg.hasTeid || msg.teid = 0 then selectPgw s x msg.seqNum
    else forwardByMap .teid forwardGtp s x msg.teid
  else if !msg.hasTeid || msg.teid = 0 then pure (s, xlateOutputAction x s.ovsPhyPort)
  else if msg.messageType = createSessionResponse then do
    let ies ← sessionIes packet msg
    -- with the fast path the message is dropped
    if ies.complete && s.pgwFastpath = 0 then pure (createSession s x msg.teid ies)
    else pure (s, x)
  else if msg.messageType = deleteSessionResponse then deleteSession s x msg.teid
  else pure (s, xlateOutputAction x s.ovsPhyPort)

def handleGtpuMessage (msg : GtpuMsgHeader) :
    Except Fault (Manager × XlateCtx) :=
  if x.flow.inPort = s.ovsPhyPort then
    if msg.teid = 0 then pure (s, x)
    else if s.pgwFastpath = 0 then forwardByMap .teid forwardGtp s x msg.teid
    else pure (s, x)
  else if s.pgwFastpath = 0 then pure (s, xlateOutputAction x s.ovsPhyPort)
  else pure (s, x)

/-- A revalidator translates without a packet: `none`. -/
def handleGtp : Option DpPacket → Except Fault (Manager × XlateCtx)
  | none => pure (s, x)
  | some packet =>
    if maybeGtpcMessage x.flow then do
      match ← parseGtpcMsgHeader packet with
      | some msg => handleGtpcMessage s x msg packet
      | none => pure (s, x)
    else if maybeGtpuMessage x.flow then do
      match ← parseGtpuMessage packet with
      | some msg => handleGtpuMessage s x msg
      | none => pure (s, x)
    else pure (s, x)

def handlePgwSgi : Option DpPacket → Except Fault (Manager × XlateCtx)
  | none => pure (s, x)
  | some _ =>
    if x.flow.inPort = s.ovsPhyPort then
      if s.pgwFastpath = 0 then forwardByMap .ueip forwardSgi s x x.flow.nwDst
      else pure (s, x)
    else if s.pgwFastpath = 0 then pure (s, xlateOutputAction x s.ovsPhyPort)
    else pure (s, x)

/-! ## Runs -/

inductive Call
  | addPgw (e : GtpPgwNode)
  | delPgw (ip : UInt32)
  | setParams (ovsId total phyport : UInt16) (fastpath : UInt8)
  | handleGtp (x : XlateCtx) (packet : Option DpPacket)
  | handlePgwSgi (x : XlateCtx) (packet : Option DpPacket)

def Call.exec : Call → Except Fault Manager
  | .addPgw e => gtpManagerAddPgw s e
  | .delPgw ip => .ok (gtpManagerDelPgw s ip)
  | .setParams ovsId total phyport fastpath => .ok (gtpManagerSetParams s ovsId total phyport fastpath)
  | .handleGtp x packet => Prod.fst <$> Gtp.handleGtp s x packet
  | .handlePgwSgi x packet => Prod.fst <$> Gtp.handlePgwSgi s x packet

def Step (c : Call) (s' : Manager) : Prop := c.exec s = .ok s'

/-- The states that sequences of calls lead to. -/
def Reachable : Prop := ∃ uninit calls, Run Step (gtpManagerInit uninit) calls s

end LinkerOvs.Gtp
