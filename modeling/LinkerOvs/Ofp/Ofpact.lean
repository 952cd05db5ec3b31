/-
OpenFlow actions in their internal form (`lib/ofp-actions.h`): the actions that the flow-table code and
the GTP extension look into, with the two that hold further actions.
-/
import LinkerOvs.Classifier.Version
import LinkerOvs.Gtp.Manager
import LinkerOvs.Packet.Protocols

namespace LinkerOvs.Ofp

open Cls (ClsConjunction)

inductive GtpAction
  | handleGtp
  | handlePgwSgi
  | operateGtp (operation : UInt8)
  | gtpTeid (gtpTeid : UInt32)
  | gtpPgwIp (gtpPgwIp : UInt32)
  | ovsId (ovsId : UInt16)
  | ovsTotal (ovsTotal : UInt16)
  | gtpPgwPort (gtpPgwPort : UInt16)
  | ovsPhyPort (ovsPhyPort : UInt16)
  | pgwSgiPort (pgwSgiPort : UInt16)
  | pgwFastpath (pgwFastpath : UInt8)
  | gtpPgwEth (mac : Gtp.EthAddr)
  | pgwSgiEth (mac : Gtp.EthAddr)
deriving DecidableEq, Repr

/-- With the actions that nothing here looks into as `other`. -/
inductive Ofpact
  | output (port : UInt16)
  | enqueue (port : UInt16)
  | controller
  | group (groupId : UInt32)
  | meter (meterId : UInt32)
  | learn (cookie : UInt64) (tableId : Nat) (deleteLearned : Bool)
  | conjunction (c : ClsConjunction)
  | note
  | ct (actions : List Ofpact)
  | writeActions (actions : List Ofpact)
  | gtp (a : GtpAction)
  | other (data : List UInt8)

mutual

/-- An action, followed by the actions it holds. -/
def Ofpact.withInner : Ofpact → List Ofpact
  | .ct as => .ct as :: flattened as
  | .writeActions as => .writeActions as :: flattened as
  | a => [a]

/-- The actions that `OFPACT_FOR_EACH_FLATTENED` visits. -/
def flattened : List Ofpact → List Ofpact
  | [] => []
  | a :: as => a.withInner ++ flattened as

end

def ofppAny : UInt16 := 0xffff
def ofpgAny : UInt32 := 0xffffffff

def ofpactOutputsToPort (port : UInt16) : Ofpact → Bool
  | .output p => p = port
  | .enqueue p => p = port
  | .controller => port = ofppController
  | _ => false

def ofpactsOutputToPort (ofpacts : List Ofpact) (port : UInt16) : Bool :=
  (flattened ofpacts).any (ofpactOutputsToPort port)

def ofpactsOutputToGroup (ofpacts : List Ofpact) (groupId : UInt32) : Bool :=
  (flattened ofpacts).any fun
    | .group g => g = groupId
    | _ => false

/-- Every other kind of instruction comes after the meter, so the loop looks at the first action only. -/
def ofpactsGetMeter : List Ofpact → UInt32
  | .meter id :: _ => id
  | _ => 0

end LinkerOvs.Ofp
