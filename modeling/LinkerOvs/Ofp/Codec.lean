/-
The wire form of OpenFlow actions (`lib/ofp-actions.c`): the table-driven encoder and decoder of one action,
the GTP actions' own encoders and decoders, and the loops over a list of actions.
-/
import LinkerOvs.Lib.Bytes
import LinkerOvs.Lib.Outcome
import LinkerOvs.Ofp.RawActions
import LinkerOvs.Util.ByteOrder

namespace LinkerOvs.Ofp

open Bytes

/-- The `enum ofperr` values that decoding a list of actions returns. -/
inductive ActionErr
  | ofpbrcBadLen
  | ofpbacBadLen
  | ofpbacBadVendor
  | ofpbacBadType
  | ofpbacBadVendorType
  | ofpbacBadArgument
  | ofpbacBadSetArgument
  | ofpbacUnsupportedOrder
  | ofpbicUnsupInst
  | nxbacBadConjunction
  | other (code : Nat)
deriving DecidableEq, Repr

/-! ## One raw action -/

def ofpatVendor : Nat := 0xffff
def nxVendorId : Nat := 0x00002320
def onfVendorId : Nat := 0x4f4e4600
def sizeofActionHeader : Nat := 8
def sizeofExtActionHeader : Nat := 16

/-- The vendor and the type that an action's header gives. -/
def actionHdrs (buf : List UInt8) : Except ActionErr (Nat × Nat) :=
  if buf.length < sizeofActionHeader then
    .error .ofpbacBadLen
  else if num (read buf 0 2) = ofpatVendor then
    if num (read buf 4 4) = nxVendorId ∨ num (read buf 4 4) = onfVendorId then
      if buf.length < sizeofExtActionHeader then .error .ofpbacBadLen
      else .ok (num (read buf 4 4), num (read buf 8 2))
    else .error .ofpbacBadVendor
  else .ok (0, num (read buf 0 2))

variable (x : ExtInstances) (v : OfpVersion)

/-- The search of `ofpact_decode_raw` in the table. -/
def findHdrs (hdrs : Nat × Nat) : Except ActionErr OfpactRawInstance :=
  match (allRawInstances x).find? fun i => i.vendor = hdrs.1 ∧ i.type = hdrs.2 ∧ i.ofpVersion = v with
  | some inst => .ok inst
  | none => .error (if hdrs.1 ≠ 0 then .ofpbacBadVendorType else .ofpbacBadType)

def ofpactDecodeRaw (buf : List UInt8) : Except ActionErr OfpactRawInstance := do
  let hdrs ← actionHdrs buf
  findHdrs x v hdrs

/-- A raw action off the front of `buf`, with its argument and what is left of `buf`. -/
def ofpactPullRaw (buf : List UInt8) :
    Except ActionErr (OfpRawActionType × Nat × List UInt8) := do
  let action ← ofpactDecodeRaw x v buf
  let length := num (read buf 2 2)
  if length > buf.length ∨ length < action.minLength ∨ length > action.maxLength ∨ length % 8 ≠ 0 then
    .error .ofpbacBadLen
  else
    .ok (action.raw, num (read buf action.argOfs action.argLen), buf.drop length)

def ofpactRawLookup (raw : OfpRawActionType) : Option OfpactRawInstance :=
  (allRawInstances x).find? fun i => i.raw = raw ∧ i.ofpVersion = v

/-- The bytes that `ofpact_put_raw` appends for an instance. -/
def rawBytes (inst : OfpactRawInstance) (arg : Nat) : List UInt8 :=
  let oah := List.replicate inst.minLength 0
  let oah := write oah 0 (ofNum 2 (if inst.vendor ≠ 0 then ofpatVendor else inst.type))
  let oah := write oah 2 (ofNum 2 inst.minLength)
  let oah := write oah 4 (ofNum 4 inst.vendor)
  let oah := if inst.vendor ≠ 0 then write oah 8 (ofNum 2 inst.type) else oah
  write oah inst.argOfs (ofNum inst.argLen arg)

/-- `none` where it asserts: there is no such action in that version, or it takes no argument. -/
def ofpactPutRaw (raw : OfpRawActionType) (arg : Nat) : Option (List UInt8) :=
  match ofpactRawLookup x v raw with
  | some inst => if inst.argLen = 0 ∧ arg ≠ 0 then none else some (rawBytes inst arg)
  | none => none

/-! ## The GTP actions -/

/-- The first version that the annotations of a set of GTP actions name, which the generated `put_` functions use. -/
def GtpRaw.putVersion : GtpRaw → OfpVersion
  | .raw10 => .ofp10
  | .raw11 => .ofp11
  | .raw12 => .ofp12

/-- The set of raw GTP actions that the encoders choose for a version. -/
def gtpRawFor : OfpVersion → GtpRaw
  | .ofp10 => .raw10
  | .ofp11 => .raw11
  | _ => .raw12

def GtpAction.kind : GtpAction → GtpKind
  | .handleGtp => .handleGtp
  | .handlePgwSgi => .handlePgwSgi
  | .operateGtp _ => .operateGtp
  | .gtpTeid _ => .gtpTeid
  | .gtpPgwIp _ => .gtpPgwIp
  | .ovsId _ => .ovsId
  | .ovsTotal _ => .ovsTotal
  | .gtpPgwPort _ => .gtpPgwPort
  | .ovsPhyPort _ => .ovsPhyPort
  | .pgwSgiPort _ => .pgwSgiPort
  | .pgwFastpath _ => .pgwFastpath
  | .gtpPgwEth _ => .gtpPgwEth
  | .pgwSgiEth _ => .pgwSgiEth

/-- The argument that the generated `put_` function of an action passes on; an `ovs_be32` is turned into host order. -/
def GtpAction.arg : GtpAction → Nat
  | .handleGtp | .handlePgwSgi | .gtpPgwEth _ | .pgwSgiEth _ => 0
  | .operateGtp n | .pgwFastpath n => n.toNat
  | .gtpTeid n => n.toNat
  | .gtpPgwIp ip => (ntohl ip).toNat
  | .ovsId n | .ovsTotal n | .gtpPgwPort n | .ovsPhyPort n | .pgwSgiPort n => n.toNat

/-- What an encoder does to the bytes that its `put_` function has appended: it stores the address, if there is one. -/
def GtpAction.fill : GtpAction → List UInt8 → List UInt8
  | .gtpPgwEth mac, bs | .pgwSgiEth mac, bs => write bs 4 (ofNum 6 mac.toNat)
  | _, bs => bs

/-- `encode_HANDLE_GTP` to `encode_PGW_SGI_ETH`. -/
def encodeGtp (a : GtpAction) : Option (List UInt8) :=
  (ofpactPutRaw x (gtpRawFor v).putVersion (.gtp (gtpRawFor v) a.kind) a.arg).map a.fill

/-- `decode_OFPAT_RAW1x_HANDLE_GTP` to `decode_OFPAT_RAW1x_PGW_SGI_ETH`, which are the same in all three sets, from
the argument and from the action's bytes. -/
def decodeGtp (kind : GtpKind) (arg : Nat) (action : List UInt8) : GtpAction :=
  match kind with
  | .handleGtp => .handleGtp
  | .handlePgwSgi => .handlePgwSgi
  | .operateGtp => .operateGtp (UInt8.ofNat arg)
  | .gtpTeid => .gtpTeid (UInt32.ofNat arg)
  | .gtpPgwIp => .gtpPgwIp (htonl (UInt32.ofNat arg))
  | .ovsId => .ovsId (UInt16.ofNat arg)
  | .ovsTotal => .ovsTotal (UInt16.ofNat arg)
  | .gtpPgwPort => .gtpPgwPort (UInt16.ofNat arg)
  | .ovsPhyPort => .ovsPhyPort (UInt16.ofNat arg)
  | .pgwSgiPort => .pgwSgiPort (UInt16.ofNat arg)
  | .pgwFastpath => .pgwFastpath (UInt8.ofNat arg)
  | .gtpPgwEth => .gtpPgwEth (BitVec.ofNat 48 (num (read action 4 6)))
  | .pgwSgiEth => .pgwSgiEth (BitVec.ofNat 48 (num (read action 4 6)))

/-! ## Lists of actions -/

/-- In its order. -/
inductive OvsInstructionType
  | meter
  | applyActions
  | clearActions
  | writeActions
  | writeMetadata
  | gotoTable
deriving DecidableEq, Repr

/-- The actions outside the GTP extension, as far as the loops over a list of actions go. -/
structure OtherActions where
  ext : ExtInstances
  encode : Ofpact → OfpVersion → Option (List UInt8)
  decode : OfpRawActionType → OfpVersion → Nat → List UInt8 → Except ActionErr Ofpact
  /-- The instruction that an action with nothing known about it belongs to. -/
  instruction : List UInt8 → OvsInstructionType
  /-- Whether an action sets a field (`ofpact_get_mf_dst`), and then whether it is a field of connection tracking. -/
  setsCtField : Ofpact → Option Bool
  setsCtField_gtp : ∀ a, setsCtField (.gtp a) = none

variable (o : OtherActions)

def ofpactDecode (v : OfpVersion) (raw : OfpRawActionType) (arg : Nat) (action : List UInt8) :
    Except ActionErr Ofpact :=
  match raw with
  | .gtp _ kind => .ok (.gtp (decodeGtp kind arg action))
  | raw => o.decode raw v arg action

/-- One turn of the loop of `ofpacts_decode`. -/
def ofpactsDecodeOne (v : OfpVersion) (buf : List UInt8) : Except ActionErr (Ofpact × List UInt8) := do
  let (raw, arg, rest) ← ofpactPullRaw o.ext v buf
  let a ← ofpactDecode o v raw arg buf
  .ok (a, rest)

/-- The loop of `ofpacts_decode`, for as many turns as `buf` has bytes: each turn takes at least one off. -/
def ofpactsDecodeLoop (v : OfpVersion) : Nat → List UInt8 → Except ActionErr (List Ofpact)
  | _, [] => .ok []
  | 0, _ :: _ => .error .ofpbacBadLen
  | n + 1, b :: bs => do
    let (a, rest) ← ofpactsDecodeOne o v (b :: bs)
    let as ← ofpactsDecodeLoop v n rest
    .ok (a :: as)

def ofpactsDecode (v : OfpVersion) (actions : List UInt8) : Except ActionErr (List Ofpact) :=
  ofpactsDecodeLoop o v actions.length actions

/-- `ovs_instruction_type_from_ofpact_type`. -/
def instructionType : Ofpact → OvsInstructionType
  | .meter _ => .meter
  | .writeActions _ => .writeActions
  | .other data => o.instruction data
  | _ => .applyActions

/-- The actions that may hold others, as the `outer_action` of `ofpacts_verify`. -/
inductive OuterAction
  | ct
  | writeActions
deriving DecidableEq, Repr

def ofpactsVerifyNested (outer : Option OuterAction) (a : Ofpact) : Except ActionErr Unit :=
  if o.setsCtField a = some true ∧ outer ≠ some .ct then
    .error .ofpbacBadSetArgument
  else if outer = some .ct ∧ o.setsCtField a ≠ some true then
    .error .ofpbacBadArgument
  else
    .ok ()

def isConjunctionOrNote : Ofpact → Bool
  | .conjunction _ => true
  | .note => true
  | _ => false

/-- The checks of the order of instructions, and of the instructions allowed; `prev` is `none` at the first action. -/
def ofpactsVerifyInst (allowed : List OvsInstructionType) (prev : Option OvsInstructionType)
    (next : OvsInstructionType) : Except ActionErr Unit :=
  let misordered := match prev with
    | none => false
    | some .applyActions => next.ctorIdx < OvsInstructionType.applyActions.ctorIdx
    | some inst => next.ctorIdx ≤ inst.ctorIdx
  if misordered then
    .error .ofpbacUnsupportedOrder
  else if next ∉ allowed then
    .error .ofpbicUnsupInst
  else
    .ok ()

/-- The loop of `ofpacts_verify` from some action on, in the list `ofpacts`. -/
def ofpactsVerifyLoop (ofpacts : List Ofpact) (allowed : List OvsInstructionType) (outer : Option OuterAction) :
    Option OvsInstructionType → List Ofpact → Except ActionErr Unit
  | _, [] => .ok ()
  | _, .conjunction _ :: _ => if ofpacts.all isConjunctionOrNote then .ok () else .error .nxbacBadConjunction
  | prev, a :: as => do
    ofpactsVerifyNested o outer a
    ofpactsVerifyInst allowed prev (instructionType o a)
    ofpactsVerifyLoop ofpacts allowed outer (some (instructionType o a)) as

def ofpactsVerify (ofpacts : List Ofpact) (allowed : List OvsInstructionType) (outer : Option OuterAction) :
    Except ActionErr Unit :=
  ofpactsVerifyLoop o ofpacts allowed outer none ofpacts

/-- The actions, and what is left of `openflow`. -/
def ofpactsPullOpenflowActions (openflow : List UInt8) (actionsLen : Nat) (v : OfpVersion) :
    Except ActionErr (List Ofpact × List UInt8) :=
  if actionsLen % 8 ≠ 0 ∨ openflow.length < actionsLen then
    .error .ofpbrcBadLen
  else do
    let ofpacts ← ofpactsDecode o v (openflow.take actionsLen)
    ofpactsVerify o ofpacts [.applyActions] none
    .ok (ofpacts, openflow.drop actionsLen)

def encodeOfpact (v : OfpVersion) : Ofpact → Option (List UInt8)
  | .gtp a => encodeGtp o.ext v a
  | a => o.encode a v

/-- The bytes it appends. -/
def ofpactsPutOpenflowActions (v : OfpVersion) : List Ofpact → Option (List UInt8)
  | [] => some []
  | a :: as => do
    let bs ← encodeOfpact o v a
    let rest ← ofpactsPutOpenflowActions v as
    some (bs ++ rest)

end LinkerOvs.Ofp
