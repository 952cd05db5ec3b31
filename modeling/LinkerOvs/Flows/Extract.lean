/-
Parsing a packet (`miniflow_extract` in `lib/flow.c`). The parser reads the packet through a pointer and a counter of
the bytes that are left, and pushes what it finds into a miniflow. It never looks at what it has pushed, so the
pushes are collected and then carried out in order on the destination.
-/
import Mathlib
import LinkerOvs.Lib.Bytes
import LinkerOvs.Lib.Jump
import LinkerOvs.Flows.Fields
import LinkerOvs.Packet.Protocols

namespace LinkerOvs.Flows

open Cls

/-! ## Pushing -/

/-- A use of a `miniflow_push_*` or `miniflow_pad_to_64` macro, with the offset of the member it is for. -/
inductive Push
  | words (ofs : Nat) (value : List UInt8) (nWords : Nat)
  | words32 (ofs : Nat) (value : List UInt8) (nWords : Nat)
  | macs (ofs : Nat) (value : List UInt8)
  | uint32 (ofs : Nat) (value : UInt32)
  | uint16 (ofs : Nat) (value : UInt16)
  | padTo64 (ofs : Nat)
deriving DecidableEq, Repr

/-- The map, the number of units that `data` is past the first one, and the destination's bytes. -/
structure MfCtx where
  map : Flowmap
  data : Nat
  buf : List UInt8

def flowmapSet (map : Flowmap) (idx nBits : Nat) : Flowmap :=
  (List.finRange flowU64s).filter fun i => i ∈ map ∨ idx ≤ i.val ∧ i.val < idx + nBits

def Push.run (mf : MfCtx) : Push → MfCtx
  | .words ofs value nWords =>
    ⟨flowmapSet mf.map (ofs / 8) nWords, mf.data + nWords, Bytes.write mf.buf (8 * mf.data) value⟩
  | .words32 ofs value nWords =>
    let data := mf.data + (nWords + 1) / 2
    let buf := Bytes.write mf.buf (8 * mf.data) value
    ⟨flowmapSet mf.map (ofs / 8) ((nWords + 1) / 2), data,
      if nWords % 2 = 1 then Bytes.write buf (8 * data - 4) [0, 0, 0, 0] else buf⟩
  | .macs ofs value => ⟨flowmapSet mf.map (ofs / 8) 2, mf.data + 1, Bytes.write mf.buf (8 * mf.data) value⟩
  | .uint32 ofs value =>
    if ofs % 8 = 0 then ⟨flowmapSet mf.map (ofs / 8) 1, mf.data, Bytes.write mf.buf (8 * mf.data) (store32 value)⟩
    else if ofs % 8 = 4 then ⟨mf.map, mf.data + 1, Bytes.write mf.buf (8 * mf.data + 4) (store32 value)⟩
    else mf
  | .uint16 ofs value =>
    if ofs % 8 = 0 then ⟨flowmapSet mf.map (ofs / 8) 1, mf.data, Bytes.write mf.buf (8 * mf.data) (store16 value)⟩
    else if ofs % 8 = 2 then ⟨mf.map, mf.data, Bytes.write mf.buf (8 * mf.data + 2) (store16 value)⟩
    else if ofs % 8 = 4 then ⟨mf.map, mf.data, Bytes.write mf.buf (8 * mf.data + 4) (store16 value)⟩
    else if ofs % 8 = 6 then ⟨mf.map, mf.data + 1, Bytes.write mf.buf (8 * mf.data + 6) (store16 value)⟩
    else mf
  | .padTo64 ofs =>
    ⟨mf.map, mf.data + 1, Bytes.write mf.buf (8 * mf.data + ofs % 8) (List.replicate (8 - ofs % 8) 0)⟩

/-! ## Metadata -/

/-- `sizeof (struct flow_tnl)`. -/
def flowTnlSize : Nat := 336

/-- The tunnel and the connection label are kept as the bytes they are. -/
structure PktMetadata where
  recircId : UInt32
  dpHash : UInt32
  skbPriority : UInt32
  pktMark : UInt32
  ctState : UInt16
  ctZone : UInt16
  ctMark : UInt32
  ctLabel : List UInt8
  ctLabel_length : ctLabel.length = 16
  inPort : UInt32
  tunnel : List UInt8
  tunnel_length : tunnel.length = flowTnlSize

def flowTnlFUdpif : UInt16 := 16

namespace PktMetadata

variable (md : PktMetadata)

def flowTnlDstIsSet : Bool := (Bytes.read md.tunnel 0 20).any (· ≠ 0)

def tunnelFlags : UInt16 := loadBe16 (md.tunnel.getD 48 0) (md.tunnel.getD 49 0)

/-- `tunnel.metadata.present.map` is not zero. -/
def presentMap : Bool := (Bytes.read md.tunnel 64 8).any (· ≠ 0)

/-- `tunnel.metadata.present.len`. -/
def presentLen : Nat := (md.tunnel.getD 64 0).toNat

end PktMetadata

def pushTunnel (md : PktMetadata) : List Push :=
  if md.flowTnlDstIsSet then
    .words 0 (Bytes.read md.tunnel 0 64) 8 ::
      if md.tunnelFlags &&& flowTnlFUdpif = 0 then
        if md.presentMap then [.words 64 (Bytes.read md.tunnel 64 272) 34] else []
      else if md.presentLen ≠ 0 then
        [.words 64 (Bytes.read md.tunnel 64 8) 1,
          .words 80 (Bytes.read md.tunnel 80 (8 * ((md.presentLen + 7) / 8))) ((md.presentLen + 7) / 8)]
      else []
  else []

/-- The pushes for the other metadata. -/
def pushMetadata (md : PktMetadata) : List Push :=
  (if md.skbPriority ≠ 0 ∨ md.pktMark ≠ 0 then
    [.uint32 Field.skbPriority.ofs md.skbPriority, .uint32 Field.pktMark.ofs md.pktMark] else []) ++
  [.uint32 Field.dpHash.ofs md.dpHash, .uint32 Field.inPort.ofs md.inPort] ++
  (if md.recircId ≠ 0 ∨ md.ctState ≠ 0 then
    [.uint32 Field.recircId.ofs md.recircId, .uint16 Field.ctState.ofs md.ctState, .uint16 Field.ctZone.ofs md.ctZone]
    else []) ++
  (if md.ctState ≠ 0 then
    [.uint32 Field.ctMark.ofs md.ctMark, .padTo64 Field.pad1.ofs] ++
      (if md.ctLabel.any (· ≠ 0) then [.words Field.ctLabel.ofs md.ctLabel 2] else [])
    else [])

/-! ## The parser -/

/-- A read outside the packet, or a loop that takes more turns than it was given. -/
inductive Fault
  | outside
  | turns
deriving DecidableEq, Repr

/-- Where the parser is: the pointer as an offset, the bytes that are left (a `size_t`) and whether this counter has
gone below zero; what it has pushed; and the offsets it has stored in the packet. -/
structure Parser where
  data : Nat
  size : Nat
  wrapped : Bool
  pushes : List Push
  l2PadSize : Nat
  l25Ofs : Option Nat
  l3Ofs : Option Nat
  l4Ofs : Option Nat

abbrev Parse := Jump Fault Parser

section

variable (pkt : List UInt8)

def readAt (p n : Nat) : Parse (List UInt8) := if p + n ≤ pkt.length then pure (Bytes.read pkt p n) else Jump.fault .outside

def u8At (p : Nat) : Parse UInt8 := do
  let bs ← readAt pkt p 1
  pure (bs.getD 0 0)

def be16At (p : Nat) : Parse UInt16 := do
  let bs ← readAt pkt p 2
  pure (loadBe16 (bs.getD 0 0) (bs.getD 1 0))

def be32At (p : Nat) : Parse UInt32 := do
  let bs ← readAt pkt p 4
  pure (loadBe32 (bs.getD 0 0) (bs.getD 1 0) (bs.getD 2 0) (bs.getD 3 0))

end

def push (p : Push) : Parse Unit := Jump.modify fun s => { s with pushes := s.pushes ++ [p] }

/-- The counter after `n` bytes were taken from it. -/
def sizeMinus (size n : Nat) : Nat := if n ≤ size then size - n else size + 2 ^ 64 - n

def dataPull (n : Nat) : Parse Nat := do
  let data ← Jump.gets Parser.data
  Jump.modify fun s => { s with data := s.data + n, size := sizeMinus s.size n, wrapped := s.wrapped || s.size < n }
  pure data

def dataTryPull (n : Nat) : Parse (Option Nat) := do
  let size ← Jump.gets Parser.size
  if n ≤ size then
    let data ← dataPull n
    pure (some data)
  else pure none

section

variable (pkt : List UInt8)

/-- The loop of `parse_mpls`, for a number of turns. -/
def parseMplsLoop : Nat → Nat → Parse Nat
  | 0, _ => Jump.fault .turns
  | fuel + 1, count => do
    match ← dataTryPull 4 with
    | none => pure count
    | some mh =>
      let lo ← be16At pkt (mh + 2)
      if lo &&& htons 0x100 ≠ 0 then pure (count + 1) else parseMplsLoop fuel (count + 1)

def parseMpls : Parse Nat := do
  let size ← Jump.gets Parser.size
  let count ← parseMplsLoop pkt (size + 1) 0
  pure (min count 3)

def parseVlan : Parse UInt16 := do
  let eth ← dataPull 12
  let ethType ← be16At pkt (eth + 12)
  let size ← Jump.gets Parser.size
  if ethType = htons ethTypeVlan ∧ 6 ≤ size then
    let qp ← dataPull 4
    let tci ← be16At pkt (qp + 2)
    pure (tci ||| htons vlanCfi)
  else pure 0

def flowDlTypeNone : UInt16 := 0x5ff

def parseEthertype : Parse UInt16 := do
  let p ← dataPull 2
  let proto ← be16At pkt p
  if ethTypeMin ≤ ntohs proto then pure proto
  else
    let size ← Jump.gets Parser.size
    if size < 8 then pure (htons flowDlTypeNone)
    else
      let llc ← Jump.gets Parser.data
      let hdr ← readAt pkt llc 6
      if hdr ≠ [0xaa, 0xaa, 3, 0, 0, 0] then pure (htons flowDlTypeNone)
      else
        let _ ← dataPull 8
        let snapType ← be16At pkt (llc + 6)
        if ethTypeMin ≤ ntohs snapType then pure snapType else pure (htons flowDlTypeNone)

/-- What `parse_icmpv6` stores: the target's place and the two link-layer addresses. -/
structure NdInfo where
  ndTarget : Option Nat
  arpSha : List UInt8
  arpTha : List UInt8

/-- The loop of `parse_icmpv6` over the options. -/
def parseNdOptions : Nat → NdInfo → Parse NdInfo
  | 0, _ => Jump.fault .turns
  | fuel + 1, nd => do
    let size ← Jump.gets Parser.size
    if size < 8 then pure nd
    else
      let opt ← Jump.gets Parser.data
      let len ← u8At pkt (opt + 1)
      let optLen := len.toNat * 8
      if optLen = 0 ∨ size < optLen then pure nd
      else
        let type ← u8At pkt opt
        if type = 1 ∧ optLen = 8 then
          if nd.arpSha = ethAddrZero then
            let mac ← readAt pkt (opt + 2) 6
            let _ ← dataTryPull optLen
            parseNdOptions fuel { nd with arpSha := mac }
          else pure ⟨none, ethAddrZero, ethAddrZero⟩
        else if type = 2 ∧ optLen = 8 then
          if nd.arpTha = ethAddrZero then
            let mac ← readAt pkt (opt + 2) 6
            let _ ← dataTryPull optLen
            parseNdOptions fuel { nd with arpTha := mac }
          else pure ⟨none, ethAddrZero, ethAddrZero⟩
        else
          let _ ← dataTryPull optLen
          parseNdOptions fuel nd

def parseIcmpv6 (icmp : Nat) : Parse NdInfo := do
  let code ← u8At pkt (icmp + 1)
  let type ← u8At pkt icmp
  if code = 0 ∧ (type = 135 ∨ type = 136) then
    match ← dataTryPull 16 with
    | none => pure ⟨none, ethAddrZero, ethAddrZero⟩
    | some target =>
      let size ← Jump.gets Parser.size
      parseNdOptions pkt (size + 1) ⟨some target, ethAddrZero, ethAddrZero⟩
  else pure ⟨none, ethAddrZero, ethAddrZero⟩

/-- What the network layer leaves for the transport layer. -/
structure NwInfo where
  nwFrag : UInt8
  nwTos : UInt8
  nwTtl : UInt8
  nwProto : UInt8

/-- The part of `miniflow_extract` for the Ethernet header. -/
def parseEthernet : Parse UInt16 := do
  let size ← Jump.gets Parser.size
  if size < 14 then Jump.out
  else
    let data ← Jump.gets Parser.data
    let macs ← readAt pkt data 12
    push (.macs Field.dlDst.ofs macs)
    let vlanTci ← parseVlan pkt
    let dlType ← parseEthertype pkt
    push (.uint16 Field.dlType.ofs dlType)
    push (.uint16 Field.vlanTci.ofs vlanTci)
    pure dlType

def extractMpls (dlType : UInt16) : Parse Unit :=
  if ethTypeIsMpls dlType then do
    let mpls ← Jump.gets Parser.data
    Jump.modify fun s => { s with l25Ofs := some (s.data % 2 ^ 16) }
    let count ← parseMpls pkt
    let lses ← readAt pkt mpls (4 * count)
    push (.words32 Field.mplsLse.ofs lses count)
  else pure ()

def parseIpv4 : Parse NwInfo := do
  let size ← Jump.gets Parser.size
  let nh ← Jump.gets Parser.data
  if size < 20 then Jump.out
  else
    let ihlVer ← u8At pkt nh
    let ipLen := (ihlVer &&& 15).toNat * 4
    if ipLen < 20 then Jump.out
    else if size < ipLen then Jump.out
    else
      let len ← be16At pkt (nh + 2)
      let totLen := (ntohs len).toNat
      if size < totLen then Jump.out
      else if 255 < size - totLen then Jump.out
      else
        Jump.modify fun s => { s with l2PadSize := size - totLen, size := totLen }
        let addrs ← readAt pkt (nh + 12) 8
        push (.words Field.nwSrc.ofs addrs 1)
        push (.uint32 Field.ipv6Label.ofs 0)
        let tos ← u8At pkt (nh + 1)
        let ttl ← u8At pkt (nh + 8)
        let proto ← u8At pkt (nh + 9)
        let fragOff ← be16At pkt (nh + 6)
        let frag :=
          if fragOff &&& htons 0x3fff ≠ 0 then
            if fragOff &&& htons 0x1fff ≠ 0 then flowNwFragAny ||| flowNwFragLater else flowNwFragAny
          else 0
        let _ ← dataPull ipLen
        pure ⟨frag, tos, ttl, proto⟩

/-- The loop over the extension headers of IPv6, with the fragment flags and the protocol so far. -/
def parseExtHdrs : Nat → UInt8 → UInt8 → Parse (UInt8 × UInt8)
  | 0, _, _ => Jump.fault .turns
  | fuel + 1, nwFrag, nwProto =>
    if nwProto ≠ ipprotoHopopts ∧ nwProto ≠ ipprotoRouting ∧ nwProto ≠ ipprotoDstopts ∧ nwProto ≠ ipprotoAh ∧
        nwProto ≠ ipprotoFragment then pure (nwFrag, nwProto)
    else do
      let size ← Jump.gets Parser.size
      if size < 8 then Jump.out
      else
        let hdr ← Jump.gets Parser.data
        let next ← u8At pkt hdr
        if nwProto = ipprotoHopopts ∨ nwProto = ipprotoRouting ∨ nwProto = ipprotoDstopts then
          let len ← u8At pkt (hdr + 1)
          match ← dataTryPull ((len.toNat + 1) * 8) with
          | none => Jump.out
          | some _ => parseExtHdrs fuel nwFrag next
        else if nwProto = ipprotoAh then
          let len ← u8At pkt (hdr + 1)
          match ← dataTryPull ((len.toNat + 2) * 4) with
          | none => Jump.out
          | some _ => parseExtHdrs fuel nwFrag next
        else
          match ← dataTryPull 8 with
          | none => Jump.out
          | some _ =>
            let offlg ← be16At pkt (hdr + 2)
            if offlg ≠ 0 then
              if offlg &&& htons 0xfff8 ≠ 0 then pure (flowNwFragAny ||| flowNwFragLater, ipprotoFragment)
              else parseExtHdrs fuel flowNwFragAny next
            else parseExtHdrs fuel nwFrag next

def parseIpv6 : Parse NwInfo := do
  let size ← Jump.gets Parser.size
  if size < 40 then Jump.out
  else
    let nh ← dataPull 40
    let len ← be16At pkt (nh + 4)
    let plen := (ntohs len).toNat
    let size ← Jump.gets Parser.size
    if size < plen then Jump.out
    else if 255 < size - plen then Jump.out
    else
      Jump.modify fun s => { s with l2PadSize := size - plen, size := plen }
      let src ← readAt pkt (nh + 8) 16
      push (.words Field.ipv6Src.ofs src 2)
      let dst ← readAt pkt (nh + 24) 16
      push (.words Field.ipv6Dst.ofs dst 2)
      let tcFlow ← be32At pkt nh
      push (.uint32 Field.ipv6Label.ofs (tcFlow &&& htonl 0x000fffff))
      let ttl ← u8At pkt (nh + 7)
      let nxt ← u8At pkt (nh + 6)
      let size ← Jump.gets Parser.size
      let (frag, proto) ← parseExtHdrs pkt (size + 1) 0 nxt
      pure ⟨frag, (ntohl tcFlow >>> 20).toUInt8, ttl, proto⟩

def extractArp : Parse Unit := do
  match ← dataTryPull 28 with
  | none => pure ()
  | some arp =>
    let hrd ← be16At pkt arp
    let pro ← be16At pkt (arp + 2)
    let hln ← u8At pkt (arp + 4)
    let pln ← u8At pkt (arp + 5)
    if hrd = htons 1 ∧ pro = htons ethTypeIp ∧ hln = 6 ∧ pln = 4 then
      let spa ← be32At pkt (arp + 14)
      push (.uint32 Field.nwSrc.ofs spa)
      let tpa ← be32At pkt (arp + 24)
      push (.uint32 Field.nwDst.ofs tpa)
      let op ← be16At pkt (arp + 6)
      if ntohs op ≤ 0xff then
        push (.uint32 Field.ipv6Label.ofs 0)
        push (.uint32 Field.nwFrag.ofs (htonl (ntohs op).toUInt32))
      let sha ← readAt pkt (arp + 8) 6
      let tha ← readAt pkt (arp + 18) 6
      push (.macs Field.arpSha.ofs (sha ++ tha))
      push (.padTo64 Field.tcpFlags.ofs)

/-- Both ports, and zeros for the IGMP group. -/
def pushPorts (src dst : UInt16) : Parse Unit := do
  push (.uint16 Field.tpSrc.ofs src)
  push (.uint16 Field.tpDst.ofs dst)
  push (.padTo64 Field.igmpGroupIp4.ofs)

/-- `htons` of a byte that is read. -/
def htonsOf (b : UInt8) : UInt16 := htons b.toUInt16

def extractIcmpv6 : Parse Unit := do
  let icmp ← dataPull 8
  let nd ← parseIcmpv6 pkt icmp
  match nd.ndTarget with
  | none => pure ()
  | some target =>
    let addr ← readAt pkt target 16
    push (.words Field.ndTarget.ofs addr 2)
  push (.macs Field.arpSha.ofs (nd.arpSha ++ nd.arpTha))
  push (.padTo64 Field.tcpFlags.ofs)
  let type ← u8At pkt icmp
  let code ← u8At pkt (icmp + 1)
  pushPorts (htonsOf type) (htonsOf code)

def extractTransport (nwProto : UInt8) : Parse Unit := do
  let size ← Jump.gets Parser.size
  let hdr ← Jump.gets Parser.data
  if nwProto = ipprotoTcp then
    if 20 ≤ size then
      push (.uint32 (Field.arpTha.ofs + 2) 0)
      let ctl ← be16At pkt (hdr + 12)
      push (.uint32 Field.tcpFlags.ofs (ctl &&& htons 0x0fff).toUInt32)
      let src ← be16At pkt hdr
      let dst ← be16At pkt (hdr + 2)
      pushPorts src dst
  else if nwProto = ipprotoUdp then
    if 8 ≤ size then
      let src ← be16At pkt hdr
      let dst ← be16At pkt (hdr + 2)
      pushPorts src dst
  else if nwProto = ipprotoSctp then
    if 12 ≤ size then
      let src ← be16At pkt hdr
      let dst ← be16At pkt (hdr + 2)
      pushPorts src dst
  else if nwProto = ipprotoIcmp then
    if 8 ≤ size then
      let type ← u8At pkt hdr
      let code ← u8At pkt (hdr + 1)
      pushPorts (htonsOf type) (htonsOf code)
  else if nwProto = ipprotoIgmp then
    if 8 ≤ size then
      let type ← u8At pkt hdr
      push (.uint16 Field.tpSrc.ofs (htonsOf type))
      let code ← u8At pkt (hdr + 1)
      push (.uint16 Field.tpDst.ofs (htonsOf code))
      let group ← be32At pkt (hdr + 4)
      push (.uint32 Field.igmpGroupIp4.ofs group)
  else if nwProto = ipprotoIcmpv6 then
    if 8 ≤ size then extractIcmpv6 pkt

def bytesToBe32 (b1 b2 b3 b4 : UInt8) : UInt32 := loadBe32 b1 b2 b3 b4

/-- The part after the network header. -/
def extractUpper (nw : NwInfo) : Parse Unit := do
  Jump.modify fun s => { s with l4Ofs := some (s.data % 2 ^ 16) }
  push (.uint32 Field.nwFrag.ofs (bytesToBe32 nw.nwFrag nw.nwTos nw.nwTtl nw.nwProto))
  if nw.nwFrag &&& flowNwFragLater = 0 then extractTransport pkt nw.nwProto

/-- `miniflow_extract` from the packet's first byte on. -/
def extractPacket : Parse Unit := do
  let dlType ← parseEthernet pkt
  extractMpls pkt dlType
  Jump.modify fun s => { s with l3Ofs := some (s.data % 2 ^ 16) }
  let nw ←
    if dlType = htons ethTypeIp then parseIpv4 pkt
    else if dlType = htons ethTypeIpv6 then parseIpv6 pkt
    else do
      if dlType = htons ethTypeArp ∨ dlType = htons ethTypeRarp then extractArp pkt
      Jump.out
  extractUpper pkt nw

/-- A packet has no registers and no metadata field, and of the headers that exclude each other the smaller ones are
not counted. -/
def flowMaxPacketU64s : Nat := flowU64s - 4 - 1 - 1 - 2 - 1

/-- The parser at the first byte of a packet, the metadata pushed. -/
def Parser.init (md : PktMetadata) : Parser :=
  ⟨0, pkt.length, false, pushTunnel md ++ pushMetadata md, 0, none, none, none⟩

/-- The parser at the end of `miniflow_extract`. -/
def parsePacket (md : PktMetadata) : Except Fault Parser :=
  match extractPacket pkt (Parser.init pkt md) with
  | .error e => .error e
  | .ok (_, s) => .ok s

/-- `miniflow_extract` into a destination with the given bytes: the parser at the end, and the miniflow. -/
def miniflowExtract (md : PktMetadata) (dst : List UInt8) : Except Fault (Parser × MfCtx) :=
  match parsePacket pkt md with
  | .error e => .error e
  | .ok s => .ok (s, s.pushes.foldl Push.run ⟨[], 0, dst⟩)

end

end LinkerOvs.Flows
