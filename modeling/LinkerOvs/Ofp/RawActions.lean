/-
The table of raw actions that `build-aux/extract-ofp-actions` generates from the annotations of
`enum ofp_raw_action_type` (`lib/ofp-actions.c`): for each action, vendor, type and version, the lengths of
its wire form and the place of its argument. The standard (vendor 0) part of the table is written out; the
vendor extensions are a parameter.
-/
import LinkerOvs.Ofp.Ofpact

namespace LinkerOvs.Ofp

/-! ## Versions and raw actions -/

inductive OfpVersion
  | ofp10
  | ofp11
  | ofp12
  | ofp13
  | ofp14
  | ofp15
deriving DecidableEq, Repr

/-- The thirteen actions of the GTP extension, without their arguments. -/
inductive GtpKind
  | handleGtp
  | operateGtp
  | gtpTeid
  | gtpPgwIp
  | ovsId
  | ovsTotal
  | gtpPgwPort
  | ovsPhyPort
  | handlePgwSgi
  | pgwSgiPort
  | pgwFastpath
  | gtpPgwEth
  | pgwSgiEth
deriving DecidableEq, Repr

/-- The three sets of raw GTP actions, as in `OFPAT_RAW10_`, `OFPAT_RAW11_` and `OFPAT_RAW12_`. -/
inductive GtpRaw
  | raw10
  | raw11
  | raw12
deriving DecidableEq, Repr

/-- With the vendor extensions by their place in the enumeration. -/
inductive OfpRawActionType
  | raw10Output
  | raw11Output
  | raw10SetVlanVid
  | raw10SetVlanPcp
  | raw11SetVlanVid
  | raw11SetVlanPcp
  | raw11PushVlan
  | raw10StripVlan
  | raw11PopVlan
  | rawSetDlSrc
  | rawSetDlDst
  | rawSetNwSrc
  | rawSetNwDst
  | rawSetNwTos
  | raw11SetNwEcn
  | rawSetTpSrc
  | rawSetTpDst
  | raw10Enqueue
  | rawSetMplsLabel
  | rawSetMplsTc
  | rawSetMplsTtl
  | rawDecMplsTtl
  | rawPushMpls
  | rawPopMpls
  | rawSetQueue
  | raw11Group
  | raw11SetNwTtl
  | rawDecNwTtl
  | raw12SetField
  | raw15SetField
  | gtp (set : GtpRaw) (kind : GtpKind)
  | raw15CopyField
  | ext (n : Nat)
deriving DecidableEq, Repr

/-! ## Annotations and instances -/

/-- The argument part of an annotation: nothing, a scalar of `size` bytes, or a structure of `size` bytes that may be
followed by more (`...`). -/
inductive ArgType
  | void
  | scalar (size : Nat)
  | struct (size : Nat) (more : Bool)

structure OfpactRawInstance where
  vendor : Nat
  type : Nat
  ofpVersion : OfpVersion
  raw : OfpRawActionType
  minLength : Nat
  maxLength : Nat
  argOfs : Nat
  argLen : Nat

def roundUp (n m : Nat) : Nat := (n + m - 1) / m * m

/-- One instance of a standard action, with the lengths that the generator computes: the argument follows the type
and the length, aligned to its size. -/
def standardInstance (raw : OfpRawActionType) (type : Nat) (arg : ArgType) (v : OfpVersion) : OfpactRawInstance :=
  match arg with
  | .void =>
    { vendor := 0, type, ofpVersion := v, raw, minLength := roundUp 4 8, maxLength := roundUp 4 8,
      argOfs := 0, argLen := 0 }
  | .scalar size =>
    let ofs := roundUp 4 size
    let min := roundUp (ofs + size) 8
    { vendor := 0, type, ofpVersion := v, raw, minLength := min, maxLength := min, argOfs := ofs, argLen := size }
  | .struct size more =>
    { vendor := 0, type, ofpVersion := v, raw, minLength := size,
      maxLength := if more then 65536 - 8 else size, argOfs := 0, argLen := 0 }

/-- A standard action in each of the versions an annotation names. -/
def annotation (vs : List OfpVersion) (type : Nat) (arg : ArgType) (raw : OfpRawActionType) : List OfpactRawInstance :=
  vs.map (standardInstance raw type arg)

/-- `OF1.0`, `OF1.1+`, `OF1.2-1.4` and the other ranges of versions that the annotations use. -/
def of10 : List OfpVersion := [.ofp10]
def of11 : List OfpVersion := [.ofp11]
def of11Up : List OfpVersion := [.ofp11, .ofp12, .ofp13, .ofp14, .ofp15]
def of12To14 : List OfpVersion := [.ofp12, .ofp13, .ofp14]
def of15Up : List OfpVersion := [.ofp15]

def uint8 : ArgType := .scalar 1
def uint16 : ArgType := .scalar 2
def uint32 : ArgType := .scalar 4

def ofpActionDlAddr : ArgType := .struct 16 false

namespace GtpKind

def all : List GtpKind :=
  [handleGtp, operateGtp, gtpTeid, gtpPgwIp, ovsId, ovsTotal, gtpPgwPort, ovsPhyPort, handlePgwSgi, pgwSgiPort,
    pgwFastpath, gtpPgwEth, pgwSgiEth]

/-- The type numbers of the GTP actions, the same in all three sets. -/
def type : GtpKind → Nat
  | handleGtp => 28
  | operateGtp => 29
  | gtpTeid => 30
  | gtpPgwIp => 31
  | ovsId => 32
  | ovsTotal => 33
  | gtpPgwPort => 34
  | ovsPhyPort => 35
  | handlePgwSgi => 36
  | pgwSgiPort => 37
  | pgwFastpath => 38
  | gtpPgwEth => 39
  | pgwSgiEth => 40

def arg : GtpKind → ArgType
  | handleGtp | handlePgwSgi => .void
  | operateGtp | pgwFastpath => uint8
  | ovsId | ovsTotal | gtpPgwPort | ovsPhyPort | pgwSgiPort => uint16
  | gtpTeid | gtpPgwIp => uint32
  | gtpPgwEth | pgwSgiEth => ofpActionDlAddr

end GtpKind

/-- The annotations of one set of GTP actions. -/
def gtpAnnotations (vs : List OfpVersion) (set : GtpRaw) : List OfpactRawInstance :=
  GtpKind.all.flatMap fun k => annotation vs k.type k.arg (.gtp set k)

open OfpRawActionType in
/-- The standard actions before the GTP actions. An action annotated as deprecated from 1.2 on is there with the
same type, so `OF1.1(n), OF1.2+(n)` is written `of11Up`. -/
def basicInstances : List OfpactRawInstance :=
  annotation of10 0 (.struct 8 false) raw10Output ++
  annotation of11Up 0 (.struct 16 false) raw11Output ++
  annotation of10 1 uint16 raw10SetVlanVid ++
  annotation of10 2 uint8 raw10SetVlanPcp ++
  annotation of11Up 1 uint16 raw11SetVlanVid ++
  annotation of11Up 2 uint8 raw11SetVlanPcp ++
  annotation of11Up 17 uint16 raw11PushVlan ++
  annotation of10 3 .void raw10StripVlan ++
  annotation of11Up 18 .void raw11PopVlan ++
  annotation of10 4 ofpActionDlAddr rawSetDlSrc ++
  annotation of11Up 3 ofpActionDlAddr rawSetDlSrc ++
  annotation of10 5 ofpActionDlAddr rawSetDlDst ++
  annotation of11Up 4 ofpActionDlAddr rawSetDlDst ++
  annotation of10 6 uint32 rawSetNwSrc ++
  annotation of11Up 5 uint32 rawSetNwSrc ++
  annotation of10 7 uint32 rawSetNwDst ++
  annotation of11Up 6 uint32 rawSetNwDst ++
  annotation of10 8 uint8 rawSetNwTos ++
  annotation of11Up 7 uint8 rawSetNwTos ++
  annotation of11Up 8 uint8 raw11SetNwEcn ++
  annotation of10 9 uint16 rawSetTpSrc ++
  annotation of11Up 9 uint16 rawSetTpSrc ++
  annotation of10 10 uint16 rawSetTpDst ++
  annotation of11Up 10 uint16 rawSetTpDst ++
  annotation of10 11 (.struct 16 false) raw10Enqueue ++
  annotation of11Up 13 uint32 rawSetMplsLabel ++
  annotation of11Up 14 uint8 rawSetMplsTc ++
  annotation of11Up 15 uint8 rawSetMplsTtl ++
  annotation of11Up 16 .void rawDecMplsTtl ++
  annotation of11Up 19 uint16 rawPushMpls ++
  annotation of11Up 20 uint16 rawPopMpls ++
  annotation of11Up 21 uint32 rawSetQueue ++
  annotation of11Up 22 uint32 raw11Group ++
  annotation of11Up 23 uint8 raw11SetNwTtl ++
  annotation of11Up 24 .void rawDecNwTtl ++
  annotation of12To14 25 (.struct 8 true) raw12SetField ++
  annotation of15Up 25 (.struct 8 true) raw15SetField

/-- The vendor 0 entries of `all_raw_instances`. -/
def standardInstances : List OfpactRawInstance :=
  basicInstances ++ gtpAnnotations of10 .raw10 ++ gtpAnnotations of11 .raw11 ++ gtpAnnotations of12To14 .raw12 ++
    annotation of15Up 28 (.struct 16 true) .raw15CopyField

/-- The vendor extensions of `all_raw_instances`. -/
structure ExtInstances where
  instances : List OfpactRawInstance
  vendor_ne_zero : ∀ i ∈ instances, i.vendor ≠ 0

/-- No two entries have the same vendor, type and version, or the same raw action and version, so that the order in
which a search meets them does not matter. -/
def allRawInstances (x : ExtInstances) : List OfpactRawInstance := standardInstances ++ x.instances

end LinkerOvs.Ofp
