/-
The two ways a flow-mod reaches the tables: as a message of its own (`handle_flow_mod`), where the GTP
actions are looked for first, and in a bundle (`ofproto/bundles.c`, `handle_bundle_control`,
`handle_bundle_add` and `do_bundle_commit`).
-/
import LinkerOvs.FlowTable.FlowMod

namespace LinkerOvs.FlowTable

open Cls Ofp

variable {M : Type}

/-! ## State -/

/-- `struct ofputil_port_mod`. -/
structure PortMod where
  portNo : UInt16
  hwAddr : Gtp.EthAddr
  config : UInt32
  mask : UInt32

/-- `struct ofp_bundle_entry`. -/
inductive BundleEntry (M : Type)
  | flowMod (fm : FlowMod M)
  | portMod (pm : PortMod)

structure OfpBundle (M : Type) where
  id : UInt32
  flags : UInt16
  closed : Bool
  msgList : List (BundleEntry M)

/-- Whether it is a primary connection in the slave role, and its bundles. -/
structure Ofconn (M : Type) where
  primary : Bool
  slave : Bool
  bundles : List (OfpBundle M)

/-- A bridge, the GTP manager and the connection on which a message arrives. -/
structure Switch (M : Type) where
  ofproto : Ofproto M
  gtp : Gtp.Manager
  ofconn : Ofconn M

/-- The state after a message, and the answer to it. -/
abbrev Reply (M : Type) := Switch M × Except OfpErr Unit

/-- The decoders for what a message or a bundled message holds, for this connection's protocol and bridge. -/
structure Decoder (M : Type) where
  flowMod : List UInt8 → Except OfpErr (FlowMod M)
  portMod : List UInt8 → Except OfpErr PortMod

variable (c : Ofconn M) (p : Ofproto M) (id : UInt32)

def rejectSlaveController : Bool := c.primary && c.slave

def ofprotoCheckOfpacts (ofpacts : List Ofpact) : Except OfpErr Unit :=
  let mid := ofpactsGetMeter ofpacts
  if mid != 0 && !p.meters.contains mid then .error .ofpmmfcInvalidMeter
  else if (flattened ofpacts).any fun
      | .group g => !p.groups.contains g
      | _ => false then .error .ofpbacBadOutGroup
  else .ok ()

/-! ## A flow-mod of its own -/

/-- The local variables of `handle_flow_mod` that hold GTP arguments. -/
structure GtpArgs where
  operation : UInt8
  gtpTeid : UInt32
  gtpPgwIp : UInt32
  ovsId : UInt16
  ovsTotal : UInt16
  gtpPgwPort : UInt16
  ovsPhyPort : UInt16
  pgwSgiPort : UInt16
  pgwFastpath : UInt8
  gtpPgwEth : Gtp.EthAddr
  pgwSgiEth : Gtp.EthAddr
deriving DecidableEq

/-- Their values before the loop; the two Ethernet addresses are not initialised. -/
def GtpArgs.init (gtpPgwEth pgwSgiEth : Gtp.EthAddr) : GtpArgs :=
  ⟨0, 0, 0, 0, 0, 0, 0, 0, 0, gtpPgwEth, pgwSgiEth⟩

def GtpArgs.take (x : GtpArgs) : Ofpact → GtpArgs
  | .gtp (.operateGtp v) => { x with operation := v }
  | .gtp (.gtpTeid v) => { x with gtpTeid := v }
  | .gtp (.gtpPgwIp v) => { x with gtpPgwIp := v }
  | .gtp (.ovsId v) => { x with ovsId := v }
  | .gtp (.ovsTotal v) => { x with ovsTotal := v }
  | .gtp (.gtpPgwPort v) => { x with gtpPgwPort := v }
  | .gtp (.ovsPhyPort v) => { x with ovsPhyPort := v }
  | .gtp (.pgwFastpath v) => { x with pgwFastpath := v }
  | .gtp (.pgwSgiPort v) => { x with pgwSgiPort := v }
  | .gtp (.gtpPgwEth v) => { x with gtpPgwEth := v }
  | .gtp (.pgwSgiEth v) => { x with pgwSgiEth := v }
  | _ => x

/-- What the two uninitialised variables happen to hold. -/
structure Garbage where
  gtpPgwEth : Gtp.EthAddr
  pgwSgiEth : Gtp.EthAddr

def gtpArgs (g : Garbage) (ofpacts : List Ofpact) : GtpArgs :=
  (flattened ofpacts).foldl GtpArgs.take (.init g.gtpPgwEth g.pgwSgiEth)

/-- The PGW that operation 1 adds. -/
def GtpArgs.pgw (x : GtpArgs) : Gtp.GtpPgwNode := ⟨x.gtpPgwPort, x.gtpPgwEth, x.pgwSgiPort, x.pgwSgiEth, x.gtpPgwIp⟩

/-- The `switch` on the operation. Operation 4 writes the state to the log. -/
def GtpArgs.operate (x : GtpArgs) (s : Gtp.Manager) : Except Gtp.Fault Gtp.Manager :=
  if x.operation = 1 then Gtp.gtpManagerAddPgw s x.pgw
  else if x.operation = 2 then .ok (Gtp.gtpManagerDelPgw s x.gtpPgwIp)
  else if x.operation = 3 then .ok (Gtp.gtpManagerSetParams s x.ovsId x.ovsTotal x.ovsPhyPort x.pgwFastpath)
  else .ok s

/-- `handle_flow_mod` once the message is decoded and its actions are accepted. With a GTP operation the flow is not
added to the table. -/
def handleAccepted [DecidableEq M] (env : Provider M) (g : Garbage) (sw : Switch M) (fm : FlowMod M) :
    Except Abort (Reply M) :=
  let x := gtpArgs g fm.ofpacts
  if x.operation ≠ 0 then
    match x.operate sw.gtp with
    | .ok s => .ok ({ sw with gtp := s }, .ok ())
    | .error f => .error (.gtp f)
  else do
    let (p, r) ← handleFlowModCommon env sw.ofproto fm
    .ok ({ sw with ofproto := p }, r)

def handleFlowMod [DecidableEq M] (env : Provider M) (dec : Decoder M) (g : Garbage) (sw : Switch M) (oh : List UInt8) :
    Except Abort (Reply M) :=
  if rejectSlaveController sw.ofconn then .ok (sw, .error .ofpbrcIsSlave)
  else
    match dec.flowMod oh with
    | .error e => .ok (sw, .error e)
    | .ok fm =>
      match ofprotoCheckOfpacts sw.ofproto fm.ofpacts with
      | .error e => .ok (sw, .error e)
      | .ok () => handleAccepted env g sw fm

/-! ## Port-mods -/

def portModStart (pm : PortMod) : Except OfpErr OfPort :=
  match p.ports.find? fun o => o.portNo = pm.portNo with
  | none => .error .ofppmfcBadPort
  | some port => if port.hwAddr = pm.hwAddr then .ok port else .error .ofppmfcBadHwAddr

def ofputilPcPortDown : UInt32 := 1

/-- `port_mod_finish`, that is `update_port_config`. -/
def portModFinish (env : Provider M) (p : Ofproto M) (pm : PortMod) (port : OfPort) : Ofproto M :=
  let toggle := (pm.config ^^^ port.config) &&& pm.mask
  let toggle := if toggle &&& ofputilPcPortDown ≠ 0 && !env.turnFlags port then toggle &&& ~~~ofputilPcPortDown else toggle
  { p with ports := p.ports.map fun o => if o.portNo = port.portNo then { o with config := o.config ^^^ toggle } else o }

/-! ## Bundles -/

def ofconnGetBundle : Option (OfpBundle M) := c.bundles.find? fun b => b.id = id

def ofconnInsertBundle (b : OfpBundle M) : Ofconn M := { c with bundles := b :: c.bundles }

def ofpBundleRemove : Ofconn M := { c with bundles := c.bundles.eraseP fun b => b.id = id }

def ofpBundleOpen (flags : UInt16) : Ofconn M × Except OfpErr Unit :=
  match ofconnGetBundle c id with
  | some _ => (ofpBundleRemove c id, .error .ofpbfcBadId)
  | none => (ofconnInsertBundle c ⟨id, flags, false, []⟩, .ok ())

def ofpBundleClose (flags : UInt16) : Ofconn M × Except OfpErr Unit :=
  match ofconnGetBundle c id with
  | none => (c, .error .ofpbfcBadId)
  | some b =>
    if b.closed then (ofpBundleRemove c id, .error .ofpbfcBundleClosed)
    else if b.flags ≠ flags then (ofpBundleRemove c id, .error .ofpbfcBadFlags)
    else (ofconnInsertBundle (ofpBundleRemove c id) { b with closed := true }, .ok ())

def ofpBundleDiscard : Ofconn M × Except OfpErr Unit :=
  match ofconnGetBundle c id with
  | none => (c, .error .ofpbfcBadId)
  | some _ => (ofpBundleRemove c id, .ok ())

def ofpBundleAddMessage (flags : UInt16) (e : BundleEntry M) :
    Ofconn M × Except OfpErr Unit :=
  match ofconnGetBundle c id with
  | none => (ofconnInsertBundle c ⟨id, flags, false, [e]⟩, .ok ())
  | some b =>
    if b.closed then (ofpBundleRemove c id, .error .ofpbfcBundleClosed)
    else if flags ≠ b.flags then (ofpBundleRemove c id, .error .ofpbfcBadFlags)
    else (ofconnInsertBundle (ofpBundleRemove c id) { b with msgList := b.msgList ++ [e] }, .ok ())

/-! ## Committing a bundle -/

def ofpbfAtomic : UInt16 := 1

/-- A message whose start phase is over. -/
inductive Begun (M : Type)
  | flowMod (ofm : OfprotoFlowMod M)
  | portMod (pm : PortMod) (port : OfPort)

/-- The first loop of `do_bundle_commit`: the messages begun, in order, and the error that stopped it. -/
def bundleBegin [DecidableEq M] (env : Provider M) (flags : UInt16) :
    Ofproto M → Nat → Bool → List (BundleEntry M) → Except Abort (Ofproto M × List (Begun M) × Option OfpErr)
  | p, _, _, [] => .ok (p, [], none)
  | p, version, _, .portMod pm :: es =>
    -- our port mods are not atomic
    if flags &&& ofpbfAtomic ≠ 0 then .ok (p, [], some .ofpbfcMsgFailed)
    else
      match portModStart p pm with
      | .error e => .ok (p, [], some e)
      | .ok port => do
        let (p, bs, e) ← bundleBegin env flags p version true es
        .ok (p, .portMod pm port :: bs, e)
  | p, version, prevIsPortMod, .flowMod fm :: es => do
    let version := if prevIsPortMod then version + 1 else version
    let (p, r) ← ofprotoFlowModStart env p ⟨fm, version, [], [], none⟩
    match r with
    | .error e => .ok (p, [], some e)
    | .ok ofm =>
      let (p, bs, e) ← bundleBegin env flags p version false es
      .ok (p, .flowMod ofm :: bs, e)

/-- The loop that takes back what was begun, last message first. -/
def bundleRevert (bs : List (Begun M)) : Except Abort (Ofproto M) :=
  bs.reverse.foldlM (fun p b => match b with
    | .flowMod ofm => ofprotoFlowModRevert p ofm
    | .portMod .. => .ok p) p

/-- The loop that finishes the messages, publishing their versions. -/
def bundleFinish (env : Provider M) (p : Ofproto M) (bs : List (Begun M)) : Except Abort (Ofproto M) :=
  bs.foldlM (fun p b => match b with
    | .flowMod ofm =>
      let p := if p.tablesVersion < ofm.version then { p with tablesVersion := ofm.version } else p
      ofprotoFlowModFinish env p ofm
    | .portMod pm port => .ok (portModFinish env p pm port)) p

/-- The bundle is discarded regardless of the outcome. -/
def doBundleCommit [DecidableEq M] (env : Provider M) (sw : Switch M) (id : UInt32) (flags : UInt16) : Except Abort (Reply M) :=
  match ofconnGetBundle sw.ofconn id with
  | none => .ok (sw, .error .ofpbfcBadId)
  | some b =>
    let ofconn := ofpBundleRemove sw.ofconn id
    if b.flags ≠ flags then .ok ({ sw with ofconn := ofconn }, .error .ofpbfcBadFlags)
    else do
      let (p, bs, e) ← bundleBegin env flags sw.ofproto (sw.ofproto.tablesVersion + 1) false b.msgList
      match e with
      | some _ =>
        let p ← bundleRevert p bs
        .ok ({ sw with ofproto := p, ofconn := ofconn }, .error .ofpbfcMsgFailed)
      | none =>
        let p ← bundleFinish env p bs
        .ok ({ sw with ofproto := p, ofconn := ofconn }, .ok ())

inductive BundleCtrlType
  | openRequest
  | closeRequest
  | commitRequest
  | discardRequest
  | reply
deriving DecidableEq

def handleBundleControl [DecidableEq M] (env : Provider M) (sw : Switch M) (type : BundleCtrlType) (id : UInt32)
    (flags : UInt16) : Except Abort (Reply M) :=
  if rejectSlaveController sw.ofconn then .ok (sw, .error .ofpbrcIsSlave)
  else
    match type with
    | .openRequest =>
      let (c, r) := ofpBundleOpen sw.ofconn id flags
      .ok ({ sw with ofconn := c }, r)
    | .closeRequest =>
      let (c, r) := ofpBundleClose sw.ofconn id flags
      .ok ({ sw with ofconn := c }, r)
    | .commitRequest => doBundleCommit env sw id flags
    | .discardRequest =>
      let (c, r) := ofpBundleDiscard sw.ofconn id
      .ok ({ sw with ofconn := c }, r)
    | .reply => .ok (sw, .error .ofpbfcBadType)

/-- The kinds of messages that may stand in a bundle. -/
inductive BundledMsg
  | flowMod (msg : List UInt8)
  | portMod (msg : List UInt8)

/-- The entry that `handle_bundle_add` makes of a bundled message. -/
def bundleEntry (dec : Decoder M) (p : Ofproto M) : BundledMsg → Except OfpErr (BundleEntry M)
  | .portMod msg => do
    let pm ← dec.portMod msg
    .ok (.portMod pm)
  | .flowMod msg => do
    let fm ← dec.flowMod msg
    if fm.ofpacts.isEmpty then .ok (.flowMod fm)
    else
      ofprotoCheckOfpacts p fm.ofpacts
      .ok (.flowMod fm)

def handleBundleAdd (dec : Decoder M) (sw : Switch M) (id : UInt32) (flags : UInt16) (msg : BundledMsg) : Except Abort (Reply M) :=
  if rejectSlaveController sw.ofconn then .ok (sw, .error .ofpbrcIsSlave)
  else
    match bundleEntry dec sw.ofproto msg with
    | .error e => .ok (sw, .error e)
    | .ok entry =>
      let (c, r) := ofpBundleAddMessage sw.ofconn id flags entry
      .ok ({ sw with ofconn := c }, r)

/-- A flow-mod as the only message of a bundle that is opened, filled and committed; each request is made
whatever the answer to the one before. -/
def bundledFlowMod [DecidableEq M] (env : Provider M) (dec : Decoder M) (sw : Switch M) (id : UInt32) (flags : UInt16)
    (oh : List UInt8) : Except Abort (Reply M) := do
  let (sw, _) ← handleBundleControl env sw .openRequest id flags
  let (sw, _) ← handleBundleAdd dec sw id flags (.flowMod oh)
  handleBundleControl env sw .commitRequest id flags

end LinkerOvs.FlowTable
