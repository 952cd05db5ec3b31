/-
Decoding group messages (`ofputil_decode_group_mod` and `ofputil_decode_group_desc_reply` in `lib/ofp-util.c`): buckets
in the form of OpenFlow 1.1 and of 1.5, and the properties of buckets and groups of 1.5. A buffer is the list of the
bytes left in it.
-/
import LinkerOvs.Lib.Outcome
import LinkerOvs.Ofp.Codec

namespace LinkerOvs.Ofp.Group

open Bytes (num read)

/-! ## Buffers -/

/-- The errors that decoding a group message ends with. -/
inductive Ofperr
  | ofpgmfcBadBucket
  | ofpgmfcBadWatch
  | ofpgmfcInvalidGroup
  | ofpgmfcBadType
  | ofpgmfcBadCommand
  | ofpgmfcWatchUnsupported
  | ofpbpcBadLen
  | ofpbpcBadType
  | ofpbpcBadValue
  | ofpbpcBadExperimenter
  | ofpbrcBadLen
  | ofpbmcBadLen
  | ofpbmcBadField
  | ofpbmcDupField
  | ofpbmcBadMask
  | ofpbmcBadWildcards
  | action (e : ActionErr)
  /-- The end of a message with several descriptions. -/
  | eof
deriving DecidableEq, Repr

/-- Why decoding stops: an `OVS_NOT_REACHED`, a pull of more than a buffer holds, a read outside a buffer, a loop that
takes more turns than it was given, or an error for the sender. -/
inductive Stop
  | notReached
  | overPull
  | outside
  | turns
  | ofperr (e : Ofperr)
deriving DecidableEq, Repr

/-- The ones that are not for the sender. -/
def Stop.IsFault (s : Stop) : Prop := ∀ e, s ≠ .ofperr e

abbrev Decode := Except Stop

def err (e : Ofperr) : Decode α := .error (.ofperr e)

/-- A number in network byte order. -/
def field (b : List UInt8) (ofs n : Nat) : Decode Nat :=
  if ofs + n ≤ b.length then .ok (num (read b ofs n)) else .error .outside

/-- `ofpbuf_pull`: the bytes pulled and the rest. -/
def pull (b : List UInt8) (n : Nat) : Decode (List UInt8 × List UInt8) :=
  if n ≤ b.length then .ok (b.take n, b.drop n) else .error .overPull

/-- `ofpbuf_try_pull`, with an error for `NULL`. -/
def tryPull (e : Ofperr) (b : List UInt8) (n : Nat) : Decode (List UInt8 × List UInt8) :=
  if n ≤ b.length then .ok (b.take n, b.drop n) else err e

/-- `ofpbuf_use_const` on the first bytes of another buffer. -/
def useConst (b : List UInt8) (n : Nat) : Decode (List UInt8) :=
  if n ≤ b.length then .ok (b.take n) else .error .outside

/-- The type, the property and the rest. -/
def ofputilPullProperty (msg : List UInt8) : Decode (Nat × List UInt8 × List UInt8) :=
  if msg.length < 4 then err .ofpbpcBadLen
  else do
    let len ← field msg 2 2
    let paddedLen := roundUp len 8
    if len < 4 ∨ msg.length < paddedLen then err .ofpbpcBadLen
    else do
      let type ← field msg 0 2
      let property ← useConst msg len
      let (_, rest) ← pull msg paddedLen
      .ok (type, property, rest)

/-! ## Buckets -/

structure OfputilBucket where
  weight : Nat
  watchPort : Nat
  watchGroup : Nat
  bucketId : Nat
  ofpacts : List Ofpact

def ofppMax : Nat := 0xff00
def ofpp11Max : Nat := 0xffffff00
def ofpp11Offset : Nat := 0xffff0000
def ofpg15BucketMax : Nat := 0xffffff00
def ofpg15BucketFirst : Nat := 0xfffffffd
def ofpg15BucketLast : Nat := 0xfffffffe
def ofpg15BucketAll : Nat := 0xffffffff

/-- `enum ofp11_group_type`. -/
def ofpgt11All : Nat := 0
def ofpgt11Select : Nat := 1
def ofpgt11Indirect : Nat := 2
def ofpgt11Ff : Nat := 3

/-- `enum ofp15_group_mod_command`, which has no 4. -/
def ofpgc15Add : Nat := 0
def ofpgc15Modify : Nat := 1
def ofpgc15Delete : Nat := 2
def ofpgc15InsertBucket : Nat := 3
def ofpgc15RemoveBucket : Nat := 5

/-- Both callers make any error of it one about the watched port. -/
def ofputilPortFromOfp11 (port : Nat) : Decode Nat :=
  if port < ofppMax then .ok port
  else if ofpp11Max ≤ port then .ok (port - ofpp11Offset)
  else err .ofpgmfcBadWatch

section

variable (o : OtherActions) (v : OfpVersion)

/-- `ofpacts_pull_openflow_actions`. -/
def pullActions (msg : List UInt8) (actionsLen : Nat) : Decode (List Ofpact × List UInt8) :=
  match ofpactsPullOpenflowActions o msg actionsLen v with
  | .ok result => .ok result
  | .error e => err (.action e)

/-- One turn of the loop of `ofputil_pull_ofp11_buckets`: the bucket, its length and the rest. -/
def pullOfp11Bucket (msg : List UInt8) (bucketsLength bucketId : Nat) : Decode (OfputilBucket × Nat × List UInt8) :=
  if bucketsLength < 16 then err .ofpgmfcBadBucket
  else do
    let (ob, msg) ← tryPull .ofpgmfcBadBucket msg 16
    let obLen ← field ob 0 2
    if obLen < 16 ∨ bucketsLength < obLen then err .ofpgmfcBadBucket
    else do
      let (ofpacts, msg) ← pullActions o v msg (obLen - 16)
      let weight ← field ob 2 2
      let watchPort ← field ob 4 4
      let watchPort ← ofputilPortFromOfp11 watchPort
      let watchGroup ← field ob 8 4
      .ok (⟨weight, watchPort, watchGroup, bucketId, ofpacts⟩, obLen, msg)

/-- The loop of `ofputil_pull_ofp11_buckets`. -/
def ofputilPullOfp11Buckets : Nat → List UInt8 → Nat → Nat → Decode (List OfputilBucket × List UInt8)
  | 0, _, _, _ => .error .turns
  | turns + 1, msg, bucketsLength, bucketId =>
    if bucketsLength = 0 then .ok ([], msg)
    else do
      let (bucket, obLen, msg) ← pullOfp11Bucket o v msg bucketsLength bucketId
      let (buckets, msg) ← ofputilPullOfp11Buckets turns msg (bucketsLength - obLen) (bucketId + 1)
      .ok (bucket :: buckets, msg)

structure BucketProps where
  weight : Nat
  watchPort : Nat
  watchGroup : Nat

/-- `parse_ofp15_group_bucket_prop_weight` and `parse_ofp15_group_bucket_prop_watch`. -/
def parseOfp15GroupBucketProp (payload : List UInt8) (n : Nat) : Decode Nat :=
  if payload.length ≠ 8 then err .ofpbpcBadLen else field payload 4 n

/-- The loop of `ofputil_pull_ofp15_buckets` over the properties of a bucket. -/
def bucketPropsLoop : Nat → List UInt8 → BucketProps → Decode BucketProps
  | 0, _, _ => .error .turns
  | turns + 1, properties, props =>
    if properties.length = 0 then .ok props
    else do
      let (type, payload, properties) ← ofputilPullProperty properties
      if type = 0 then do
        let weight ← parseOfp15GroupBucketProp payload 2
        bucketPropsLoop turns properties { props with weight := weight }
      else if type = 1 then do
        let watch ← parseOfp15GroupBucketProp payload 4
        bucketPropsLoop turns properties { props with watchPort := watch }
      else if type = 2 then do
        let watch ← parseOfp15GroupBucketProp payload 4
        bucketPropsLoop turns properties { props with watchGroup := watch }
      else err .ofpbpcBadType

/-- One turn of the loop of `ofputil_pull_ofp15_buckets`: the bucket, its length and the rest. -/
def pullOfp15Bucket (groupType : Nat) (msg : List UInt8) (bucketsLength : Nat) :
    Decode (OfputilBucket × Nat × List UInt8) := do
  let (ob, msg) ← tryPull .ofpgmfcBadBucket msg 8
  let obLen ← field ob 0 2
  let actionsLen ← field ob 2 2
  if obLen < 8 ∨ bucketsLength < obLen ∨ obLen - 8 < actionsLen then err .ofpgmfcBadBucket
  else do
    let (ofpacts, msg) ← pullActions o v msg actionsLen
    let (properties, msg) ← pull msg (obLen - 8 - actionsLen)
    let init : BucketProps := ⟨if groupType = ofpgt11Select then 1 else 0, 0xffffffff, 0xffffffff⟩
    let props ← bucketPropsLoop (properties.length + 1) properties init
    let watchPort ← ofputilPortFromOfp11 props.watchPort
    let bucketId ← field ob 4 4
    if ofpg15BucketMax < bucketId then err .ofpgmfcBadBucket
    else .ok (⟨props.weight, watchPort, props.watchGroup, bucketId, ofpacts⟩, obLen, msg)

/-- The loop of `ofputil_pull_ofp15_buckets`. -/
def ofp15BucketsLoop (groupType : Nat) : Nat → List UInt8 → Nat → Decode (List OfputilBucket × List UInt8)
  | 0, _, _ => .error .turns
  | turns + 1, msg, bucketsLength =>
    if bucketsLength = 0 then .ok ([], msg)
    else do
      let (bucket, obLen, msg) ← pullOfp15Bucket o v groupType msg bucketsLength
      let (buckets, msg) ← ofp15BucketsLoop groupType turns msg (bucketsLength - obLen)
      .ok (bucket :: buckets, msg)

/-- With the check of `ofputil_bucket_check_duplicate_id`. -/
def ofputilPullOfp15Buckets (groupType : Nat) (msg : List UInt8) (bucketsLength : Nat) :
    Decode (List OfputilBucket × List UInt8) := do
  let (buckets, msg) ← ofp15BucketsLoop o v groupType (bucketsLength + 1) msg bucketsLength
  if (buckets.map (·.bucketId)).Nodup then .ok (buckets, msg) else err .ofpgmfcBadBucket

end

/-! ## Group properties -/

/-- What the parsers look at of a `struct mf_field`. -/
structure MfField where
  id : Nat
  nBytes : Nat
  variableLen : Bool
  maskable : Bool

structure OfputilGroupProps where
  selectionMethod : List UInt8
  selectionMethodParam : Nat
  fields : List (Nat × List UInt8)

def OfputilGroupProps.init : OfputilGroupProps := ⟨[], 0, []⟩

/-- Parts of a 64-bit NXM or OXM header. -/
def nxmClass (header : Nat) : Nat := header / 2 ^ 48
def nxmHasmask (header : Nat) : Bool := header / 2 ^ 40 % 2 = 1
def nxmLength (header : Nat) : Nat := header / 2 ^ 32 % 256
def nxmExperimenterLen (header : Nat) : Nat := if nxmClass header = 0xffff then 4 else 0

/-- The header that `nx_pull_header__` reads, of four or eight bytes. -/
def nxmHeader (b : List UInt8) : Decode Nat := do
  let high ← field b 0 4
  if nxmClass (high * 2 ^ 32) = 0xffff then if b.length < 8 then err .ofpbmcBadLen else field b 0 8
  else .ok (high * 2 ^ 32)

section

variable (fieldByHeader : Nat → Option MfField)

/-- The header, the field if it is known and the rest. -/
def nxPullHeader (b : List UInt8) : Decode (Nat × Option MfField × List UInt8) :=
  if b.length < 4 then err .ofpbmcBadLen
  else do
    let header ← nxmHeader b
    if nxmLength header < nxmExperimenterLen header then err .ofpbmcBadLen
    else do
      let (_, rest) ← pull b (4 + nxmExperimenterLen header)
      .ok (header, fieldByHeader header, rest)

def isMaskConsistent (value mask : List UInt8) : Bool := (value.zip mask).all fun (x, m) => x &&& ~~~ m = 0

def copyEntryValue (f : MfField) (payload : List UInt8) : List UInt8 :=
  let copyLen := min payload.length f.nBytes
  if f.variableLen then List.replicate (f.nBytes - copyLen) 0 ++ payload.take copyLen else payload.take copyLen

/-- `nx_pull_entry__` without room for a mask. -/
def nxPullEntry (b : List UInt8) : Decode (MfField × List UInt8 × List UInt8) := do
  let (header, f, b) ← nxPullHeader fieldByHeader b
  let (payload, b) ← tryPull .ofpbmcBadLen b (nxmLength header - nxmExperimenterLen header)
  let width := if nxmHasmask header then payload.length / 2 else payload.length
  if nxmHasmask header then
    if isMaskConsistent (payload.take width) (payload.drop width) then err .ofpbmcBadMask else err .ofpbmcBadWildcards
  else
    match f with
    | none => err .ofpbmcBadField
    | some f => .ok (f, copyEntryValue f payload, b)

def mfIsMaskValid (f : MfField) (mask : List UInt8) : Bool := f.maskable || mask.all (· = 0) || mask.all (· = 0xff)

def oxmPullFieldArray : Nat → List UInt8 → List (Nat × List UInt8) → Decode (List (Nat × List UInt8))
  | 0, _, _ => .error .turns
  | turns + 1, b, fa =>
    if b.length = 0 then .ok fa
    else do
      let (f, value, b) ← nxPullEntry fieldByHeader b
      if fa.any (·.1 = f.id) then err .ofpbmcDupField
      else if mfIsMaskValid f value then oxmPullFieldArray turns b (fa ++ [(f.id, value)])
      else err .ofpbmcBadMask

def selectionMethodHash : List UInt8 := [0x68, 0x61, 0x73, 0x68]

def parseGroupPropNtrSelectionMethod (payload : List UInt8) (groupType groupCmd : Nat) (gp : OfputilGroupProps) :
    Decode OfputilGroupProps :=
  if groupType = ofpgt11All ∨ groupType = ofpgt11Indirect ∨ groupType = ofpgt11Ff then err .ofpbpcBadValue
  else if groupType ≠ ofpgt11Select then .error .notReached
  else if groupCmd = ofpgc15Delete ∨ groupCmd = ofpgc15InsertBucket ∨ groupCmd = ofpgc15RemoveBucket then
    err .ofpbpcBadValue
  else if groupCmd ≠ ofpgc15Add ∧ groupCmd ≠ ofpgc15Modify then .error .notReached
  else if payload.length < 40 then err .ofpbpcBadLen
  else do
    let method := (read payload 16 16).takeWhile (· ≠ 0)
    if method.length = 16 then err .ofpbpcBadValue
    else if method ≠ selectionMethodHash then err .ofpbpcBadValue
    else do
      let param ← field payload 32 8
      if method.length = 0 ∧ param ≠ 0 then err .ofpbpcBadValue
      else do
        let (_, rest) ← pull payload 40
        let length ← field payload 2 2
        let fieldsLen := length - 40
        if method.length = 0 ∧ fieldsLen ≠ 0 then err .ofpbpcBadValue
        else do
          let b ← useConst rest fieldsLen
          let fields ← oxmPullFieldArray fieldByHeader (b.length + 1) b gp.fields
          .ok ⟨method, param, fields⟩

def ntrVendorId : Nat := 0x154d
def ntrCompatVendorId : Nat := 0x1540
def ntrtSelectionMethod : Nat := 1

/-- `parse_ofp15_group_prop_exp` and `parse_group_prop_ntr`; the experimenter is kept in 16 bits. -/
def parseOfp15GroupPropExp (payload : List UInt8) (groupType groupCmd : Nat) (gp : OfputilGroupProps) :
    Decode OfputilGroupProps :=
  if payload.length < 12 then err .ofpbpcBadLen
  else do
    let experimenter ← field payload 4 4
    let expType ← field payload 8 4
    if experimenter % 2 ^ 16 = ntrVendorId ∨ experimenter % 2 ^ 16 = ntrCompatVendorId then
      if expType = ntrtSelectionMethod then
        parseGroupPropNtrSelectionMethod fieldByHeader payload groupType groupCmd gp
      else err .ofpbpcBadType
    else err .ofpbpcBadExperimenter

def ofpgpt15Experimenter : Nat := 0xffff

/-- The loop of `parse_ofp15_group_properties`. -/
def groupPropsLoop (groupType groupCmd : Nat) : Nat → List UInt8 → OfputilGroupProps → Decode OfputilGroupProps
  | 0, _, _ => .error .turns
  | turns + 1, properties, gp =>
    if properties.length = 0 then .ok gp
    else do
      let (type, payload, properties) ← ofputilPullProperty properties
      if type = ofpgpt15Experimenter then do
        let gp ← parseOfp15GroupPropExp fieldByHeader payload groupType groupCmd gp
        groupPropsLoop groupType groupCmd turns properties gp
      else err .ofpbpcBadType

/-- The properties and the rest of the message. -/
def parseOfp15GroupProperties (msg : List UInt8) (groupType groupCmd propertiesLen : Nat) :
    Decode (OfputilGroupProps × List UInt8) := do
  let (properties, msg) ← pull msg propertiesLen
  let gp ← groupPropsLoop fieldByHeader groupType groupCmd (properties.length + 1) properties .init
  .ok (gp, msg)

end

/-! ## Messages -/

structure OfputilGroupMod where
  command : Nat
  type : Nat
  groupId : Nat
  commandBucketId : Nat
  buckets : List OfputilBucket
  props : OfputilGroupProps

structure OfputilGroupDesc where
  type : Nat
  groupId : Nat
  buckets : List OfputilBucket
  props : OfputilGroupProps

section

variable (o : OtherActions) (fieldByHeader : Nat → Option MfField)

variable (v : OfpVersion) (msg : List UInt8)

def ofputilPullOfp11GroupMod : Decode OfputilGroupMod := do
  let (ogm, msg) ← pull msg 8
  let command ← field ogm 0 2
  let type ← field ogm 2 1
  let groupId ← field ogm 4 4
  let (buckets, _) ← ofputilPullOfp11Buckets o v (msg.length + 1) msg msg.length 0
  if v ≠ .ofp11 ∧ v ≠ .ofp12 ∧ command = ofpgc15Delete ∧ ¬ buckets.isEmpty then err .ofpgmfcInvalidGroup
  else .ok ⟨command, type, groupId, ofpg15BucketAll, buckets, .init⟩

/-- The check of `command_bucket_id` in `ofputil_pull_ofp15_group_mod`. -/
def CommandBucketIdOk (command commandBucketId : Nat) : Prop :=
  if command = ofpgc15RemoveBucket ∨ command = ofpgc15InsertBucket then
    command = ofpgc15RemoveBucket ∧ commandBucketId = ofpg15BucketAll ∨ commandBucketId ≤ ofpg15BucketMax ∨
      commandBucketId = ofpg15BucketFirst ∨ commandBucketId = ofpg15BucketLast
  else commandBucketId = ofpg15BucketAll

instance (command commandBucketId : Nat) : Decidable (CommandBucketIdOk command commandBucketId) :=
  inferInstanceAs (Decidable (ite _ _ _))

def ofputilPullOfp15GroupMod : Decode OfputilGroupMod := do
  let (ogm, msg) ← pull msg 16
  let command ← field ogm 0 2
  let type ← field ogm 2 1
  let groupId ← field ogm 4 4
  let commandBucketId ← field ogm 12 4
  if CommandBucketIdOk command commandBucketId then do
    let bucketListLen ← field ogm 8 2
    let (buckets, msg) ← ofputilPullOfp15Buckets o v type msg bucketListLen
    let (props, _) ← parseOfp15GroupProperties fieldByHeader msg type command msg.length
    .ok ⟨command, type, groupId, commandBucketId, buckets, props⟩
  else err .ofpgmfcBadBucket

def ofputilBucketHasLiveness (bucket : OfputilBucket) : Bool :=
  bucket.watchPort ≠ 0xffff || bucket.watchGroup ≠ 0xffffffff

/-- One turn of the loop of `ofputil_decode_group_mod` over the buckets. -/
def checkBucket (type : Nat) (bucket : OfputilBucket) : Decode Unit :=
  if bucket.weight ≠ 0 ∧ type ≠ ofpgt11Select then err .ofpgmfcInvalidGroup
  else if type = ofpgt11All ∨ type = ofpgt11Indirect then
    if ofputilBucketHasLiveness bucket then err .ofpgmfcWatchUnsupported else .ok ()
  else if type = ofpgt11Select then .ok ()
  else if type = ofpgt11Ff then
    if ofputilBucketHasLiveness bucket then .ok () else err .ofpgmfcInvalidGroup
  else .error .notReached

/-- What `ofputil_decode_group_mod` checks after the version's own function. -/
def checkGroupMod (gm : OfputilGroupMod) : Decode OfputilGroupMod := do
  if gm.type = ofpgt11Indirect ∧ gm.buckets.length ≠ 1 then err .ofpgmfcInvalidGroup
  else if gm.type ∉ [ofpgt11Indirect, ofpgt11All, ofpgt11Select, ofpgt11Ff] then err .ofpgmfcBadType
  else if gm.command = ofpgc15RemoveBucket ∧ ¬ gm.buckets.isEmpty then err .ofpgmfcBadBucket
  else if gm.command ∉ [ofpgc15Add, ofpgc15Modify, ofpgc15Delete, ofpgc15InsertBucket, ofpgc15RemoveBucket] then
    err .ofpgmfcBadCommand
  else do
    gm.buckets.forM (checkBucket gm.type)
    .ok gm

/-- On the message without its header. -/
def ofputilDecodeGroupMod : Decode OfputilGroupMod :=
  match v with
  | .ofp10 => .error .notReached
  | .ofp15 => ofputilPullOfp15GroupMod o fieldByHeader .ofp15 msg >>= checkGroupMod
  | v => ofputilPullOfp11GroupMod o v msg >>= checkGroupMod

/-- On what is left of the message: a description and the rest. -/
def ofputilDecodeOfp11GroupDescReply : Decode (OfputilGroupDesc × List UInt8) :=
  if msg.length = 0 then err .eof
  else do
    let (ogds, msg) ← tryPull .ofpbrcBadLen msg 8
    let type ← field ogds 2 1
    let groupId ← field ogds 4 4
    let length ← field ogds 0 2
    if length < 8 ∨ msg.length < length - 8 then err .ofpbrcBadLen
    else do
      let (buckets, msg) ← ofputilPullOfp11Buckets o v (length - 8 + 1) msg (length - 8) 0
      .ok (⟨type, groupId, buckets, .init⟩, msg)

/-- On what is left of the message. -/
def ofputilDecodeOfp15GroupDescReply : Decode (OfputilGroupDesc × List UInt8) :=
  if msg.length = 0 then err .eof
  else do
    let (ogds, msg) ← tryPull .ofpbrcBadLen msg 16
    let type ← field ogds 2 1
    let groupId ← field ogds 4 4
    let length ← field ogds 0 2
    if length < 16 ∨ msg.length < length - 16 then err .ofpbrcBadLen
    else do
      let bucketListLen ← field ogds 8 2
      if length < bucketListLen + 16 then err .ofpbrcBadLen
      else do
        let (buckets, msg) ← ofputilPullOfp15Buckets o v type msg bucketListLen
        -- as if the command had been an add, which the properties are checked against
        let (props, msg) ← parseOfp15GroupProperties fieldByHeader msg type ofpgc15Add (length - 16 - bucketListLen)
        .ok (⟨type, groupId, buckets, props⟩, msg)

def ofputilDecodeGroupDescReply : Decode (OfputilGroupDesc × List UInt8) :=
  match v with
  | .ofp10 => .error .notReached
  | .ofp15 => ofputilDecodeOfp15GroupDescReply o fieldByHeader .ofp15 msg
  | v => ofputilDecodeOfp11GroupDescReply o v msg

end

end LinkerOvs.Ofp.Group
