/-
NORMAL forwarding (`xlate_normal` of `ofproto/ofproto-dpif-xlate.c`): a packet is admitted into a VLAN,
its source is learned, and it is output to the bundle its destination was learned on, to the members of
its multicast group, or to every bundle of the VLAN. The tables are those of MAC learning and multicast
snooping; bonds, which choose a slave by a hash and may refuse a packet, are parameters.
-/
import LinkerOvs.L2.MacLearning
import LinkerOvs.L2.McastSnooping
import LinkerOvs.Lib.Run
import LinkerOvs.Packet.Protocols

namespace LinkerOvs.Xlate

open L2

/-- The fields of `struct flow` that NORMAL forwarding looks at. -/
structure L2Flow where
  inPort : UInt16
  dlSrc : EthAddr
  dlDst : EthAddr
  dlType : UInt16
  vlanTci : UInt16
  nwProto : UInt8
  nwSrc : UInt32
  nwDst : UInt32
  ipv6Src : In6Addr
  ipv6Dst : In6Addr
  tpSrc : UInt16
  igmpGroupIp4 : UInt32

inductive PortVlanMode
  | access
  | trunk
  | nativeTagged
  | nativeUntagged
deriving DecidableEq, Repr

inductive BondVerdict
  | accept
  | drop
  | dropIfMoved
deriving DecidableEq, Repr

/-- What NORMAL forwarding asks a bond. -/
structure Bond where
  checkAdmissibility : UInt16 → EthAddr → BondVerdict
  chooseOutputSlave : L2Flow → UInt16 → Option UInt16

/-- With whether it is reserved as the output of a mirror. Only a trunk has no VLAN of its own (`bundle_set`). -/
structure Xbundle where
  ofbundle : Nat
  xports : List UInt16
  bond : Option Bond
  vlanMode : PortVlanMode
  vlan : Int
  trunks : Option (UInt16 → Bool)
  usePriorityTags : Bool
  floodable : Bool
  mirrorOut : Bool
  vlanRange : vlanMode = .trunk ∨ (0 ≤ vlan ∧ vlan ≤ 4095)

/-- The bundles of a bridge and its setting for reserved multicast addresses. -/
structure Bundles where
  xbundles : List Xbundle
  forwardBpdu : Bool
  nodup : (xbundles.map (·.ofbundle)).Nodup

/-- What a bridge has learned; without multicast snooping there is no table for it. -/
structure Tables where
  ml : MacLearning
  ms : Option McastSnooping

/-- One call: the flow, whether the translation may learn, what the packet reports about multicast groups if
there is a packet, the time, and the port that would lose an entry of a full MAC table. -/
structure NormalIn where
  flow : L2Flow
  mayLearn : Bool
  packet : Option (List McastRecord)
  now : Int
  heapMax : Nat

/-! ## Packets -/

def vlanPcpMask : UInt16 := 0xe000
def igmpHostMembershipQuery : UInt16 := 0x11
def igmpHostMembershipReport : UInt16 := 0x12
def igmpv2HostMembershipReport : UInt16 := 0x16
def igmpHostLeaveMessage : UInt16 := 0x17
def igmpv3HostMembershipReport : UInt16 := 0x22
def in6addrAllHosts : In6Addr := 0xff020000000000000000000000000001

/-- The addresses that `eth_addr_is_reserved` lists. -/
def reservedAddrs : List EthAddr :=
  [0x0180c2000000, 0x0180c2000001, 0x0180c2000002, 0x0180c2000003, 0x0180c2000004, 0x0180c2000005,
    0x0180c2000006, 0x0180c2000007, 0x0180c2000008, 0x0180c2000009, 0x0180c200000a, 0x0180c200000b,
    0x0180c200000c, 0x0180c200000d, 0x0180c200000e, 0x0180c200000f,
    -- Extreme protocols
    0x00e02b000000, 0x00e02b000004, 0x00e02b000006,
    -- Cisco protocols
    0x01000c000000, 0x01000ccccccc, 0x01000ccccccd, 0x01000ccdcdcd,
    0x01000cccccc0, 0x01000cccccc1, 0x01000cccccc2, 0x01000cccccc3, 0x01000cccccc4, 0x01000cccccc5,
    0x01000cccccc6, 0x01000cccccc7]

def ethAddrIsReserved (ea : EthAddr) : Bool := ea ∈ reservedAddrs

def vlanTciToVid (tci : UInt16) : UInt16 := tci &&& 0xfff

namespace L2Flow

variable (flow : L2Flow)

def isIpAny : Bool := flow.dlType = ethTypeIp || flow.dlType = ethTypeIpv6

def isIgmp : Bool := flow.dlType = ethTypeIp && flow.nwProto = ipprotoIgmp

def isIcmpv6 : Bool := flow.dlType = ethTypeIpv6 && flow.nwProto = ipprotoIcmpv6

def isMld : Bool :=
  flow.isIcmpv6 && flow.tpSrc.toNat ∈ [mldQuery, mldReport, mldDone, mld2Report]

def isMldQuery : Bool := flow.isIcmpv6 && flow.tpSrc.toNat = mldQuery

def isMldReport : Bool := flow.isMld && !flow.isMldQuery

def isGratuitousArp : Bool :=
  flow.dlType = ethTypeArp && ethAddrIsBroadcast flow.dlDst &&
    (flow.nwProto = 2 || (flow.nwProto = 1 && flow.nwSrc = flow.nwDst))

/-- The packets that snooping leaves to be flooded: `ip_is_local_multicast` and `ipv6_is_all_hosts`. -/
def isLocalMulticast : Bool :=
  (flow.dlType = ethTypeIp && flow.nwDst &&& 0xffffff00 = 0xe0000000) ||
    (flow.dlType = ethTypeIpv6 && flow.ipv6Dst = in6addrAllHosts)

end L2Flow

def mcastSnoopingIsQuery (igmpType : UInt16) : Bool := igmpType = igmpHostMembershipQuery

def mcastSnoopingIsMembership (igmpType : UInt16) : Bool :=
  igmpType = igmpHostMembershipReport || igmpType = igmpv2HostMembershipReport ||
    igmpType = igmpv3HostMembershipReport || igmpType = igmpHostLeaveMessage

/-! ## Bundles and VLANs -/

variable (flow : L2Flow) (b : Xbundle) (vlan : UInt16)

def xbundleTrunksVlan : Bool :=
  b.vlanMode ≠ .access &&
    match b.trunks with
    | some trunks => trunks vlan
    | none => true

def xbundleIncludesVlan : Bool :=
  (vlan.toNat : Int) = b.vlan || xbundleTrunksVlan b vlan

def xbundleLookup (br : Bundles) (ofbundle : Nat) : Option Xbundle := br.xbundles.find? (·.ofbundle = ofbundle)

/-- The bundle of the input port, with `some none` for `ofpp_none_bundle`. -/
def lookupInputBundle (br : Bundles) (inPort : UInt16) : Option (Option Xbundle) :=
  match br.xbundles.find? (inPort ∈ ·.xports) with
  | some b => some (some b)
  | none => if inPort = ofppController || inPort = ofppNone then some none else none

/-- `ofpp_none_bundle` is a trunk. -/
def inputVidToVlan (inBundle : Option Xbundle) (vid : UInt16) : UInt16 :=
  match inBundle with
  | none => vid
  | some b =>
    match b.vlanMode with
    | .access => .ofNat b.vlan.toNat
    | .trunk => vid
    | .nativeUntagged | .nativeTagged => if vid ≠ 0 then vid else .ofNat b.vlan.toNat

def inputVidIsValid (vid : UInt16) (inBundle : Option Xbundle) : Bool :=
  match inBundle with
  | none => true
  | some b =>
    match b.vlanMode with
    | .access => vid = 0
    | .nativeUntagged | .nativeTagged => vid = 0 || xbundleIncludesVlan b vid
    | .trunk => xbundleIncludesVlan b vid

def outputVlanToVid : UInt16 :=
  match b.vlanMode with
  | .access => 0
  | .trunk | .nativeTagged => vlan
  | .nativeUntagged => if (vlan.toNat : Int) = b.vlan then 0 else vlan

/-- An output of `output_normal`: the bundle, the port chosen in it and the tag that the packet carries. -/
structure NormalOut where
  xbundle : Xbundle
  ofpPort : UInt16
  tci : UInt16

/-- A bundle without ports, or whose bond has no slave enabled, gets nothing. -/
def outputNormal (b : Xbundle) : Option NormalOut :=
  let vid := outputVlanToVid b vlan
  let xport :=
    if b.xports = [] then none
    else
      match b.bond with
      | none => b.xports.head?
      | some bond => bond.chooseOutputSlave flow vid
  let tci :=
    if vid ≠ 0 || b.usePriorityTags then
      let tci := vid ||| (flow.vlanTci &&& vlanPcpMask)
      if tci ≠ 0 then tci ||| vlanCfi else tci
    else vid
  xport.map fun ofpPort => { xbundle := b, ofpPort := ofpPort, tci := tci }

/-! ## Admission and learning -/

/-- For a packet that came in on a port of `b`. -/
def isAdmissible (br : Bundles) (ml : MacLearning) (flow : L2Flow) (now : Int) (b : Xbundle) (vlan : UInt16) : Bool :=
  (br.forwardBpdu || !ethAddrIsReserved flow.dlDst) &&
    match b.bond with
    | none => true
    | some bond =>
      match bond.checkAdmissibility flow.inPort flow.dlDst with
      | .accept => true
      | .drop => false
      | .dropIfMoved =>
        match ml.lookup flow.dlSrc vlan with
        | some mac =>
          !(mac.port ≠ some b.ofbundle && (!flow.isGratuitousArp || mac.isGratArpLocked now))
        | none => true

/-- The checks of `xlate_normal`: the input bundle and the VLAN into which the packet is admitted. -/
def normalAdmit (br : Bundles) (ml : MacLearning) (x : NormalIn) : Option (Option Xbundle × UInt16) :=
  match lookupInputBundle br x.flow.inPort with
  | none => none -- no input bundle
  | some inBundle =>
    if x.flow.dlType = ethTypeVlan && x.flow.vlanTci &&& vlanCfi = 0 then none -- partial VLAN tag
    else if inBundle.any (·.mirrorOut) then none -- reserved for mirroring
    else
      let vid := vlanTciToVid x.flow.vlanTci
      if inputVidIsValid vid inBundle then
        let vlan := inputVidToVlan inBundle vid
        if inBundle.all (isAdmissible br ml x.flow x.now · vlan) then some (inBundle, vlan) else none
      else none

def isMacLearningUpdateNeeded (ml : MacLearning) (x : NormalIn) (vlan : UInt16) (b : Xbundle) : Bool :=
  ml.mayLearn x.flow.dlSrc vlan &&
    match ml.lookup x.flow.dlSrc vlan with
    | none => true
    | some mac =>
      if ml.entryAge mac x.now ≠ 0 then true
      else if x.flow.isGratuitousArp && b.bond.isNone then true
      else if x.flow.isGratuitousArp && mac.isGratArpLocked x.now then false
      else mac.port ≠ some b.ofbundle

/-- `update_learning_table__`: an entry that a gratuitous ARP has locked is not moved to a bond. -/
def updateLearningTableSlow (ml : MacLearning) (x : NormalIn) (vlan : UInt16) (b : Xbundle) : MacLearning :=
  if ml.mayLearn x.flow.dlSrc vlan then
    let (mac, ml) := ml.insert x.flow.dlSrc vlan x.now x.heapMax
    if x.flow.isGratuitousArp && b.bond.isNone then
      { ml with lrus := ml.lrus ++
          [{ mac with gratArpLock := some (x.now + macGratArpLockTime), port := some b.ofbundle }] }
    else if x.flow.isGratuitousArp && mac.isGratArpLocked x.now then { ml with lrus := ml.lrus ++ [mac] }
    else { ml with lrus := ml.lrus ++ [{ mac with port := some b.ofbundle }] }
  else ml

def updateLearningTable (ml : MacLearning) (x : NormalIn) (vlan : UInt16) (inBundle : Option Xbundle) : MacLearning :=
  match inBundle with
  | none => ml -- don't learn the OFPP_NONE port
  | some b => if isMacLearningUpdateNeeded ml x vlan b then updateLearningTableSlow ml x vlan b else ml

/-- On the records of the packet. -/
def updateMcastSnoopingTable4 (ms : McastSnooping) (flow : L2Flow) (now : Int) (vlan : UInt16) (port : Nat)
    (records : List McastRecord) : McastSnooping :=
  if flow.tpSrc = igmpHostMembershipReport || flow.tpSrc = igmpv2HostMembershipReport then
    ms.addGroup (in6AddrMappedIpv4 flow.igmpGroupIp4) vlan port now
  else if flow.tpSrc = igmpHostLeaveMessage then ms.leaveGroup (in6AddrMappedIpv4 flow.igmpGroupIp4) vlan port
  else if flow.tpSrc = igmpHostMembershipQuery then
    if flow.nwSrc ≠ 0 then ms.addMrouter vlan port now else ms
  else if flow.tpSrc = igmpv3HostMembershipReport then records.foldl (McastSnooping.applyRecord vlan port now) ms
  else ms

/-- On the records of the packet. -/
def updateMcastSnoopingTable6 (ms : McastSnooping) (flow : L2Flow) (now : Int) (vlan : UInt16) (port : Nat)
    (records : List McastRecord) : McastSnooping :=
  if flow.tpSrc.toNat = mldQuery then
    if flow.ipv6Src ≠ 0 then ms.addMrouter vlan port now else ms
  else if flow.tpSrc.toNat ∈ [mldReport, mldDone, mld2Report] then
    records.foldl (McastSnooping.applyRecord vlan port now) ms
  else ms

def updateMcastSnoopingTable (ms : McastSnooping) (x : NormalIn) (vlan : UInt16) (inBundle : Option Xbundle)
    (records : List McastRecord) : McastSnooping :=
  match inBundle with
  | none => ms -- don't learn the OFPP_NONE port
  | some b =>
    if b.ofbundle ∈ ms.fportList then ms -- don't learn from flood ports
    else if x.flow.dlType = ethTypeIp then updateMcastSnoopingTable4 ms x.flow x.now vlan b.ofbundle records
    else updateMcastSnoopingTable6 ms x.flow x.now vlan b.ofbundle records

/-- Whether snooping handles the packet: an IP multicast that is not a broadcast. -/
def mcastSnooped : Bool :=
  !ethAddrIsBroadcast flow.dlDst && ethAddrIsMulticast flow.dlDst && flow.isIpAny

/-- The tables after the packet has been learned from. -/
def normalLearn (s : Tables) (x : NormalIn) (inBundle : Option Xbundle) (vlan : UInt16) : Tables :=
  let ml := if x.mayLearn then updateLearningTable s.ml x vlan inBundle else s.ml
  let reports := (x.flow.isIgmp && (mcastSnoopingIsMembership x.flow.tpSrc || mcastSnoopingIsQuery x.flow.tpSrc))
    || x.flow.isMld
  let ms :=
    match s.ms, x.packet with
    | some ms, some records =>
      if mcastSnooped x.flow && reports && x.mayLearn then
        some (updateMcastSnoopingTable ms x vlan inBundle records)
      else some ms
    | ms, _ => ms
  { ml := ml, ms := ms }

/-! ## Delivery -/

section

variable (br : Bundles) (inBundle : Option Xbundle) (vlan : UInt16)

/-- `xbundle != in_xbundle`. -/
def isOther (b : Xbundle) : Bool := inBundle.all (·.ofbundle ≠ b.ofbundle)

/-- The loop that the four `xlate_normal_mcast_send_` functions share: each port whose bundle is known and is
not the input bundle. -/
def sendToPorts (ports : List Nat) : List Xbundle := (ports.filterMap (xbundleLookup br)).filter (isOther inBundle)

def xlateNormalMcastSendGroup (grp : McastGroup) : List Xbundle := sendToPorts br inBundle (grp.bundleLru.map (·.port))

variable (ms : McastSnooping) (flow : L2Flow)

def xlateNormalMcastSendMrouters : List Xbundle :=
  sendToPorts br inBundle (ms.mrouterLru.map (·.port))

def xlateNormalMcastSendFports : List Xbundle := sendToPorts br inBundle ms.fportList

def xlateNormalMcastSendRports : List Xbundle := sendToPorts br inBundle ms.rportList

def xlateNormalFlood : List Xbundle :=
  br.xbundles.filter fun b => isOther inBundle b && xbundleIncludesVlan b vlan && b.floodable && !b.mirrorOut

/-- The group that a packet is addressed to, if hosts have joined it. -/
def mcastGroup : Option McastGroup :=
  if flow.dlType = ethTypeIp then ms.lookup4 flow.nwDst vlan
  else if flow.dlType = ethTypeIpv6 then ms.lookup flow.ipv6Dst vlan
  else none

/-- Forwarding to the ports of the group. -/
def normalMcastGroup : List Xbundle :=
  match mcastGroup vlan ms flow with
  | some grp =>
    xlateNormalMcastSendGroup br inBundle grp ++ xlateNormalMcastSendFports br inBundle ms
      ++ xlateNormalMcastSendMrouters br inBundle ms
  | none =>
    if ms.floodUnreg then xlateNormalFlood br inBundle vlan
    else xlateNormalMcastSendMrouters br inBundle ms ++ xlateNormalMcastSendFports br inBundle ms

/-- The branch of `xlate_normal` for snooped multicast. Only for IGMP and for local addresses does it return
before the group is looked up. -/
def normalMcast : List Xbundle :=
  if flow.isIgmp then
    if mcastSnoopingIsMembership flow.tpSrc then
      xlateNormalMcastSendMrouters br inBundle ms ++ xlateNormalMcastSendRports br inBundle ms
    else xlateNormalFlood br inBundle vlan
  else if flow.isMld then
    (if flow.isMldReport then
        xlateNormalMcastSendMrouters br inBundle ms ++ xlateNormalMcastSendRports br inBundle ms
      else xlateNormalFlood br inBundle vlan)
      ++ normalMcastGroup br inBundle vlan ms flow
  else if flow.isLocalMulticast then xlateNormalFlood br inBundle vlan
  else normalMcastGroup br inBundle vlan ms flow

/-- The branch of `xlate_normal` for all other packets. -/
def normalUnicast (ml : MacLearning) (flow : L2Flow) : List Xbundle :=
  match (ml.lookup flow.dlDst vlan).bind (·.port) with
  | some port => sendToPorts br inBundle [port]
  | none => xlateNormalFlood br inBundle vlan

/-- The bundles that `output_normal` is called for, in order. -/
def normalSend (s : Tables) (flow : L2Flow) : List Xbundle :=
  match s.ms with
  | some ms => if mcastSnooped flow then normalMcast br inBundle vlan ms flow else normalUnicast br inBundle vlan s.ml flow
  | none => normalUnicast br inBundle vlan s.ml flow

end

/-- The tables afterwards, and what is output. -/
def xlateNormal (br : Bundles) (s : Tables) (x : NormalIn) : Tables × List NormalOut :=
  match normalAdmit br s.ml x with
  | none => (s, [])
  | some (inBundle, vlan) =>
    let s := normalLearn s x inBundle vlan
    (s, (normalSend br inBundle vlan s x.flow).filterMap (outputNormal x.flow vlan))

/-- What happens to the tables of a bridge while its configuration stays: packets are translated, flows in the
datapath refresh the address they were learned from (`xlate_cache_normal`), entries expire, and the tables are
flushed. -/
inductive TableEvent
  | packet (x : NormalIn)
  | cacheNormal (x : NormalIn)
  | macRun (now : Int)
  | mcastRun (now : Int)
  | macFlush
  | mcastFlush

def tableStep (br : Bundles) (s : Tables) : TableEvent → Tables
  | .packet x => (xlateNormal br s x).1
  | .cacheNormal x =>
    -- the VLAN was stored when the flow was translated, with the input bundle it still has
    match lookupInputBundle br x.flow.inPort with
    | some inBundle =>
      let vid := vlanTciToVid x.flow.vlanTci
      if inputVidIsValid vid inBundle then
        { s with ml := updateLearningTable s.ml x (inputVidToVlan inBundle vid) inBundle }
      else s
    | none => s
  | .macRun now => { s with ml := s.ml.run now }
  | .mcastRun now => { s with ms := s.ms.map (·.run now) }
  | .macFlush => { s with ml := s.ml.flush }
  | .mcastFlush => { s with ms := s.ms.map (·.mdbFlush) }

/-- Tables in which nothing has been learned. The flood and report ports are configuration; each is listed
once (`mcast_snooping_set_port_flood`). -/
structure Tables.Fresh (s : Tables) : Prop where
  macs : s.ml.lrus = []
  groups : ∀ ms, s.ms = some ms → ms.groupLru = []
  mrouters : ∀ ms, s.ms = some ms → ms.mrouterLru = []
  fports : ∀ ms, s.ms = some ms → ms.fportList.Nodup
  rports : ∀ ms, s.ms = some ms → ms.rportList.Nodup

/-- The tables that a bridge can have learned under its configuration. -/
def LearnedTables (br : Bundles) (s : Tables) : Prop :=
  ∃ s₀ es, Tables.Fresh s₀ ∧ Run (fun s e s' => tableStep br s e = s') s₀ es s

end LinkerOvs.Xlate
