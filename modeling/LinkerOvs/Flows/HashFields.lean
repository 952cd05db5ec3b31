/-
The hash of a flow for bundle and multipath actions and the wildcards for it (`flow_hash_fields` and
`flow_mask_hash_fields` in `lib/flow.c`): two flows of one megaflow hash alike, but for IPv6 flows hashed by L3 and
L4, where the hash reads past the addresses.
-/
import LinkerOvs.Flows.Fields
import LinkerOvs.Packet.Protocols
import LinkerOvs.Util.Hash

namespace LinkerOvs.Flows

open Cls

inductive NxHashFields
  | ethSrc
  | symmetricL4
  | symmetricL3l4
  | symmetricL3l4Udp
deriving DecidableEq, Repr

/-- `hash_add`, `hash_add64`, `hash_finish`, which depend on the build, and `jhash_bytes`. -/
structure HashFns extends FlowHash where
  add : UInt32 → UInt32 → UInt32
  jhashBytes : List UInt8 → UInt32 → UInt32

/-! ## The hash -/

def isIpAny (f : Flow) : Bool := dlTypeIsIpAny (load16 f .dlType)

/-- The bytes of `fields` in `flow_hash_symmetric_l4`, which has three bytes of padding at its end. -/
def symmetricL4Fields (f : Flow) : List UInt8 :=
  let ethType := load16 f .dlType
  let ipProto := byte f Field.nwProto.ofs
  let addr :=
    if ethType = htons ethTypeIp then
      List.zipWith (· ^^^ ·) (bytes f .nwSrc) (bytes f .nwDst) ++ List.replicate 12 0
    else if ethType = htons ethTypeIpv6 then List.zipWith (· ^^^ ·) (bytes f .ipv6Src) (bytes f .ipv6Dst)
    else List.replicate 16 0
  let tpPort :=
    if isIpAny f && (ipProto = ipprotoTcp || ipProto = ipprotoSctp) then load16 f .tpSrc ^^^ load16 f .tpDst else 0
  addr ++ store16 ethType ++ store16 (load16 f .vlanTci &&& htons vlanVidMask) ++ store16 tpPort ++
    List.zipWith (· ^^^ ·) (bytes f .dlSrc) (bytes f .dlDst) ++ [if isIpAny f then ipProto else 0] ++
    List.replicate 3 0

variable (H : HashFns)

def flowHashSymmetricL4 (f : Flow) (basis : UInt32) : UInt32 := H.jhashBytes (symmetricL4Fields f) basis

/-- The loop of `flow_hash_symmetric_l3l4` over four words from each of the two addresses. -/
def hashIpv6Addrs (f : Flow) (basis : UInt32) : UInt32 :=
  (List.range 4).foldl (fun hash i => H.add64 hash
    (flowU64Value f (Field.ipv6Src.u64Offset + i) ^^^ flowU64Value f (Field.ipv6Dst.u64Offset + i))) basis

/-- What follows the addresses. -/
def hashProtoAndPorts (f : Flow) (hash basis : UInt32) (incUdpPorts : Bool) : UInt32 :=
  let nwProto := byte f Field.nwProto.ofs
  let hash := H.add hash nwProto.toUInt32
  let hash :=
    if nwProto = ipprotoTcp || nwProto = ipprotoSctp || (incUdpPorts && nwProto = ipprotoUdp) then
      H.add hash (load16 f .tpSrc ^^^ load16 f .tpDst).toUInt32
    else hash
  H.finish hash basis.toNat

def flowHashSymmetricL3l4 (f : Flow) (basis : UInt32) (incUdpPorts : Bool) : UInt32 :=
  if load16 f .dlType = htons ethTypeIp then
    hashProtoAndPorts H f (H.add basis (load32 f .nwSrc ^^^ load32 f .nwDst)) basis incUdpPorts
  else if load16 f .dlType = htons ethTypeIpv6 then
    hashProtoAndPorts H f (hashIpv6Addrs H f basis) basis incUdpPorts
  else 0

def flowHashFields (f : Flow) (fields : NxHashFields) (basis : UInt16) : UInt32 :=
  match fields with
  | .ethSrc => H.jhashBytes (bytes f .dlSrc) basis.toUInt32
  | .symmetricL4 => flowHashSymmetricL4 H f basis.toUInt32
  | .symmetricL3l4 => flowHashSymmetricL3l4 H f basis.toUInt32 false
  | .symmetricL3l4Udp => flowHashSymmetricL3l4 H f basis.toUInt32 true

/-! ## The wildcards -/

/-- The assignment to a member of two bytes of the masks. -/
def wcAssign16 (wc : Flow) (x : Field) (v : UInt16) : Flow :=
  wcMaskFieldMask (fun i => wc i &&& ~~~ bytesMask i.val x.ofs 2) x v

def flowUnwildcardTpPorts (f wc : Flow) : Flow :=
  if byte f Field.nwProto.ofs ≠ ipprotoIcmp then wcMaskField (wcMaskField wc .tpSrc) .tpDst
  else wcAssign16 (wcAssign16 wc .tpSrc (htons 0xff)) .tpDst (htons 0xff)

/-- The masks for the addresses of an IP flow. -/
def maskIpAddrs (f wc : Flow) : Flow :=
  if load16 f .dlType = htons ethTypeIp then wcMaskField (wcMaskField wc .nwSrc) .nwDst
  else if load16 f .dlType = htons ethTypeIpv6 then wcMaskField (wcMaskField wc .ipv6Src) .ipv6Dst
  else wc

/-- The case for `NX_HASH_FIELDS_SYMMETRIC_L3L4`, into which the one with UDP falls through. -/
def maskSymmetricL3l4 (f wc : Flow) : Flow :=
  if isIpAny f then
    let wc := wcMaskField (maskIpAddrs f wc) .nwProto
    if byte f Field.nwProto.ofs = ipprotoTcp || byte f Field.nwProto.ofs = ipprotoSctp then
      wcMaskField (wcMaskField wc .tpSrc) .tpDst
    else wc
  else wc

def flowMaskHashFields (f wc : Flow) (fields : NxHashFields) : Flow :=
  match fields with
  | .ethSrc => wcMaskField wc .dlSrc
  | .symmetricL4 =>
    let wc := maskIpAddrs f (wcMaskField (wcMaskField wc .dlSrc) .dlDst)
    let wc := if isIpAny f then flowUnwildcardTpPorts f (wcMaskField wc .nwProto) else wc
    wcMaskFieldMask wc .vlanTci (htons (vlanVidMask ||| vlanCfi))
  | .symmetricL3l4Udp =>
    maskSymmetricL3l4 f
      (if isIpAny f && byte f Field.nwProto.ofs = ipprotoUdp then wcMaskField (wcMaskField wc .tpSrc) .tpDst else wc)
  | .symmetricL3l4 => maskSymmetricL3l4 f wc

/-! ## What the wildcards cover -/

variable {w wc : Flow} {x : Field}

theorem Masks.assign {y : Field} (h : Masks w x) (hapart : x.ofs + x.size ≤ y.ofs ∨ y.ofs + 2 ≤ x.ofs) (v : UInt16) :
    Masks (wcAssign16 w y v) x := by
  have hcleared : Masks (fun i => w i &&& ~~~ bytesMask i.val y.ofs 2) x := by
    intro k hk hk'
    have hff := h k hk hk'
    by_cases hlt : k / 8 < flowU64s
    · rw [← hff]
      apply UInt8.toBitVec_inj.1
      apply BitVec.eq_of_getLsbD_eq
      intro j hj
      have houtside : (bytesMask (k / 8) y.ofs 2).getLsbD (8 * (k % 8) + j) = false := by
        rw [getLsbD_bytesMask _ _ _ (by omega)]
        grind
      rw [getLsbD_byte _ hlt hj, getLsbD_byte _ hlt hj, BitVec.getLsbD_and, BitVec.getLsbD_not, houtside]
      simp
      omega
    · rw [byte, dif_neg hlt] at hff
      exact absurd hff (by decide)
  refine hcleared.sub fun i j hj => ?_
  simp only [wcAssign16, wcMaskFieldMask, BitVec.getLsbD_or, hj, Bool.true_or]

variable {f f' : Flow}

/-- The wildcards have the members that the addresses are in. -/
def MasksAddrs (f w : Flow) : Prop :=
  (load16 f .dlType = htons ethTypeIp → Masks w .nwSrc ∧ Masks w .nwDst) ∧
  (load16 f .dlType = htons ethTypeIpv6 → Masks w .ipv6Src ∧ Masks w .ipv6Dst)

theorem MasksAddrs.sub {w' : Flow} (h : MasksAddrs f w) (hsub : w.Sub w') : MasksAddrs f w' :=
  ⟨fun hip => ⟨(h.1 hip).1.sub hsub, (h.1 hip).2.sub hsub⟩, fun hip => ⟨(h.2 hip).1.sub hsub, (h.2 hip).2.sub hsub⟩⟩

theorem masksAddrs_maskIpAddrs (f wc : Flow) : MasksAddrs f (maskIpAddrs f wc) := by
  have hne : htons ethTypeIp ≠ htons ethTypeIpv6 := by decide
  unfold maskIpAddrs
  constructor
  · intro hip
    rw [if_pos hip]
    exact ⟨(masks_wcMaskField _ _ (by decide)).sub (sub_wcMaskField _ _), masks_wcMaskField _ _ (by decide)⟩
  · intro hip
    rw [if_neg (fun heq => hne (heq.symm.trans hip)), if_pos hip]
    exact ⟨(masks_wcMaskField _ _ (by decide)).sub (sub_wcMaskField _ _), masks_wcMaskField _ _ (by decide)⟩

theorem sub_maskIpAddrs (f wc : Flow) : wc.Sub (maskIpAddrs f wc) := by
  unfold maskIpAddrs
  split
  · exact (sub_wcMaskField _ _).trans (sub_wcMaskField _ _)
  · split
    · exact (sub_wcMaskField _ _).trans (sub_wcMaskField _ _)
    · exact .refl _

/-- The flows are of one kind and agree on the bits that are masked for the hash of the first one. -/
structure HashedAlike (fields : NxHashFields) (f f' : Flow) : Prop where
  dlType : load16 f .dlType = load16 f' .dlType
  nwProto : byte f Field.nwProto.ofs = byte f' Field.nwProto.ofs
  nwFrag : byte f Field.nwFrag.ofs = byte f' Field.nwFrag.ofs
  agrees : (flowMaskHashFields f (fun _ => 0) fields).Agrees f f'

/-- The hash goes over four words from each IPv6 address, which has two. -/
def ReadsPastAddrs (fields : NxHashFields) (f : Flow) : Prop :=
  (fields = .symmetricL3l4 ∨ fields = .symmetricL3l4Udp) ∧ load16 f .dlType = htons ethTypeIpv6

theorem Masks.bytes_eq (h : Masks w x) (hagree : w.Agrees f f') : bytes f x = bytes f' x :=
  Flows.bytes_eq fun _ hk hk' => h.byte_eq hagree hk hk'

theorem Masks.load16_eq (h : Masks w x) (hx : x.size = 2) (hagree : w.Agrees f f') : load16 f x = load16 f' x :=
  Flows.load16_eq fun _ hk hk' => h.byte_eq hagree hk (hx ▸ hk')

theorem Masks.load32_eq (h : Masks w x) (hx : x.size = 4) (hagree : w.Agrees f f') : load32 f x = load32 f' x :=
  Flows.load32_eq fun _ hk hk' => h.byte_eq hagree hk (hx ▸ hk')

theorem isIpAny_congr (h : load16 f .dlType = load16 f' .dlType) : isIpAny f = isIpAny f' := by
  rw [isIpAny, h, isIpAny]

/-! ### Symmetric hashes over L2 to L4 -/

theorem sub_wcMaskFieldMask (wc : Flow) (x : Field) (m : UInt16) : wc.Sub (wcMaskFieldMask wc x m) := by
  intro i j hj
  simp only [wcMaskFieldMask, BitVec.getLsbD_or, hj, Bool.true_or]

theorem Masks.unwildcardTpPorts (h : Masks w x) (hx : x.ofs + x.size ≤ Field.tpSrc.ofs) :
    Masks (flowUnwildcardTpPorts f w) x := by
  unfold flowUnwildcardTpPorts
  split
  · exact h.sub ((sub_wcMaskField _ _).trans (sub_wcMaskField _ _))
  · refine (h.assign (.inl hx) _).assign (.inl (hx.trans ?_)) _
    decide

theorem Masks.symmetricL4 (h : Masks (maskIpAddrs f (wcMaskField (wcMaskField (fun _ => 0) .dlSrc) .dlDst)) x)
    (hx : x.ofs + x.size ≤ Field.tpSrc.ofs) : Masks (flowMaskHashFields f (fun _ => 0) .symmetricL4) x := by
  refine Masks.sub ?_ (sub_wcMaskFieldMask _ _ _)
  split
  · exact (h.sub (sub_wcMaskField _ _)).unwildcardTpPorts hx
  · exact h

theorem masks_symmetricL4_ports (hip : isIpAny f = true) (hproto : byte f Field.nwProto.ofs ≠ ipprotoIcmp) :
    Masks (flowMaskHashFields f (fun _ => 0) .symmetricL4) .tpSrc ∧
      Masks (flowMaskHashFields f (fun _ => 0) .symmetricL4) .tpDst := by
  have hw : flowMaskHashFields f (fun _ => 0) .symmetricL4 =
      wcMaskFieldMask (wcMaskField (wcMaskField (wcMaskField
        (maskIpAddrs f (wcMaskField (wcMaskField (fun _ => 0) .dlSrc) .dlDst)) .nwProto) .tpSrc) .tpDst) .vlanTci
        (htons (vlanVidMask ||| vlanCfi)) := by
    rw [flowMaskHashFields, if_pos hip, flowUnwildcardTpPorts, if_pos hproto]
  rw [hw]
  exact ⟨((masks_wcMaskField _ _ (by decide)).sub (sub_wcMaskField _ _)).sub (sub_wcMaskFieldMask _ _ _),
    (masks_wcMaskField _ _ (by decide)).sub (sub_wcMaskFieldMask _ _ _)⟩

theorem symmetricL4Fields_eq (h : HashedAlike .symmetricL4 f f') : symmetricL4Fields f = symmetricL4Fields f' := by
  have hbase : ∀ {x : Field}, Masks (maskIpAddrs f (wcMaskField (wcMaskField (fun _ => 0) .dlSrc) .dlDst)) x →
      x.ofs + x.size ≤ Field.tpSrc.ofs → bytes f x = bytes f' x := fun hx hle => (hx.symmetricL4 hle).bytes_eq h.agrees
  have hsrc : bytes f .dlSrc = bytes f' .dlSrc :=
    hbase (((masks_wcMaskField _ _ (by decide)).sub (sub_wcMaskField _ _)).sub (sub_maskIpAddrs _ _)) (by decide)
  have hdst : bytes f .dlDst = bytes f' .dlDst :=
    hbase ((masks_wcMaskField _ _ (by decide)).sub (sub_maskIpAddrs _ _)) (by decide)
  have hvid : load16 f .vlanTci &&& htons vlanVidMask = load16 f' .vlanTci &&& htons vlanVidMask :=
    load16_and_of_agrees (by decide) (by decide) h.agrees
  have haddrs := masksAddrs_maskIpAddrs f (wcMaskField (wcMaskField (fun _ => 0) .dlSrc) .dlDst)
  have hports : isIpAny f = true → (byte f Field.nwProto.ofs = ipprotoTcp ∨ byte f Field.nwProto.ofs = ipprotoSctp) →
      load16 f .tpSrc ^^^ load16 f .tpDst = load16 f' .tpSrc ^^^ load16 f' .tpDst := by
    intro hip hproto
    obtain ⟨hsrc, hdst⟩ := masks_symmetricL4_ports hip (by rcases hproto with hp | hp <;> rw [hp] <;> decide)
    rw [hsrc.load16_eq rfl h.agrees, hdst.load16_eq rfl h.agrees]
  unfold symmetricL4Fields
  rw [← isIpAny_congr h.dlType, ← h.dlType, ← h.nwProto, ← hvid]
  dsimp only
  congr 5
  · split
    · next hip => rw [hbase (haddrs.1 hip).1 (by decide), hbase (haddrs.1 hip).2 (by decide)]
    · split
      · next hip => rw [hbase (haddrs.2 hip).1 (by decide), hbase (haddrs.2 hip).2 (by decide)]
      · rfl
  · grind

/-! ### Symmetric hashes over L3 and L4 -/

theorem sub_maskSymmetricL3l4 (f wc : Flow) : wc.Sub (maskSymmetricL3l4 f wc) := by
  unfold maskSymmetricL3l4
  split
  · split
    · exact (((sub_maskIpAddrs _ _).trans (sub_wcMaskField _ _)).trans (sub_wcMaskField _ _)).trans (sub_wcMaskField _ _)
    · exact (sub_maskIpAddrs _ _).trans (sub_wcMaskField _ _)
  · exact .refl _

theorem masksAddrs_maskSymmetricL3l4 (f wc : Flow) : MasksAddrs f (maskSymmetricL3l4 f wc) := by
  unfold maskSymmetricL3l4
  split
  · have haddrs := (masksAddrs_maskIpAddrs f wc).sub (sub_wcMaskField _ .nwProto)
    split
    · exact haddrs.sub ((sub_wcMaskField _ _).trans (sub_wcMaskField _ _))
    · exact haddrs
  · next hip =>
    -- neither of the two types
    rw [isIpAny, dlTypeIsIpAny, Bool.or_eq_true, decide_eq_true_eq, decide_eq_true_eq, not_or] at hip
    exact ⟨fun h => absurd h hip.1, fun h => absurd h hip.2⟩

theorem masks_maskSymmetricL3l4_ports (wc : Flow) (hip : isIpAny f = true)
    (hproto : byte f Field.nwProto.ofs = ipprotoTcp ∨ byte f Field.nwProto.ofs = ipprotoSctp) :
    Masks (maskSymmetricL3l4 f wc) .tpSrc ∧ Masks (maskSymmetricL3l4 f wc) .tpDst := by
  have hcond : (byte f Field.nwProto.ofs = ipprotoTcp || byte f Field.nwProto.ofs = ipprotoSctp) = true := by
    simp [*]
  rw [maskSymmetricL3l4, if_pos hip, if_pos hcond]
  exact ⟨(masks_wcMaskField _ _ (by decide)).sub (sub_wcMaskField _ _), masks_wcMaskField _ _ (by decide)⟩

/-- Flows that agree on what is masked hash alike, where the hash stays in the masked members. -/
theorem hashProtoAndPorts_eq {incUdpPorts : Bool} (hagree : w.Agrees f f')
    (hnwProto : byte f Field.nwProto.ofs = byte f' Field.nwProto.ofs)
    (hports : (byte f Field.nwProto.ofs = ipprotoTcp ∨ byte f Field.nwProto.ofs = ipprotoSctp) ∨
        incUdpPorts = true ∧ byte f Field.nwProto.ofs = ipprotoUdp → Masks w .tpSrc ∧ Masks w .tpDst)
    (hash basis : UInt32) :
    hashProtoAndPorts H f hash basis incUdpPorts = hashProtoAndPorts H f' hash basis incUdpPorts := by
  unfold hashProtoAndPorts
  rw [← hnwProto]
  dsimp only
  split
  · next hcond =>
    rw [Bool.or_eq_true, Bool.or_eq_true, Bool.and_eq_true, decide_eq_true_eq, decide_eq_true_eq, decide_eq_true_eq]
      at hcond
    obtain ⟨hsrc, hdst⟩ := hports hcond
    rw [hsrc.load16_eq rfl hagree, hdst.load16_eq rfl hagree]
  · rfl

theorem flowHashSymmetricL3l4_eq {incUdpPorts : Bool} (hagree : w.Agrees f f')
    (hdlType : load16 f .dlType = load16 f' .dlType) (hnwProto : byte f Field.nwProto.ofs = byte f' Field.nwProto.ofs)
    (haddrs : MasksAddrs f w) (hnot : load16 f .dlType ≠ htons ethTypeIpv6)
    (hports : isIpAny f = true → (byte f Field.nwProto.ofs = ipprotoTcp ∨ byte f Field.nwProto.ofs = ipprotoSctp) ∨
        incUdpPorts = true ∧ byte f Field.nwProto.ofs = ipprotoUdp → Masks w .tpSrc ∧ Masks w .tpDst)
    (basis : UInt32) : flowHashSymmetricL3l4 H f basis incUdpPorts = flowHashSymmetricL3l4 H f' basis incUdpPorts := by
  unfold flowHashSymmetricL3l4
  rw [← hdlType]
  split
  · next hip =>
    have hany : isIpAny f = true := by
      rw [isIpAny, dlTypeIsIpAny, decide_eq_true hip, Bool.true_or]
    rw [(haddrs.1 hip).1.load32_eq rfl hagree, (haddrs.1 hip).2.load32_eq rfl hagree,
      hashProtoAndPorts_eq H hagree hnwProto (hports hany)]
  · rfl

/-! ### IPv6 -/

/-- The portable build. -/
def portableHash (jhashBytes : List UInt8 → UInt32 → UInt32) : HashFns where
  add64 hash x := hashAdd64 hash ⟨x⟩
  finish hash n := hashFinish hash n.toUInt32
  add := hashAdd
  jhashBytes := jhashBytes

def labelU64 : Fin flowU64s := ⟨63, by decide⟩

/-- The flow with a bit of its IPv6 label changed. -/
def relabeled (f : Flow) : Flow := Function.update f labelU64 (f labelU64 ^^^ 1#64)

theorem byte_relabeled (f : Flow) {k : Nat} (hk : k ≠ Field.ipv6Label.ofs) : byte (relabeled f) k = byte f k := by
  unfold byte relabeled
  split
  · next hlt =>
    by_cases hword : k / 8 = 63
    · have hi : (⟨k / 8, hlt⟩ : Fin flowU64s) = labelU64 := Fin.ext hword
      have hone : (1#64 >>> (8 * (k % 8))).setWidth 8 = 0#8 := by
        have hne : k ≠ 504 := hk
        grind
      rw [hi, Function.update_self, BitVec.ushiftRight_xor_distrib, BitVec.setWidth_xor, hone, BitVec.xor_zero]
    · rw [Function.update_of_ne (fun heq => hword (congrArg Fin.val heq))]
  · rfl

theorem load16_relabeled (f : Flow) (hx : x.ofs + 2 ≤ Field.ipv6Label.ofs ∨ Field.ipv6Label.ofs < x.ofs) :
    load16 (relabeled f) x = load16 f x :=
  load16_eq fun _ hk hk' => byte_relabeled f (by omega)

theorem getLsbD_wcMaskField_label
    (hx : x.ofs + x.size ≤ Field.ipv6Label.ofs ∨ Field.ipv6Label.ofs < x.ofs) (h : (wc labelU64).getLsbD 0 = false) :
    (wcMaskField wc x labelU64).getLsbD 0 = false := by
  rw [wcMaskField, wcMask, BitVec.getLsbD_or, h, getLsbD_bytesMask _ _ _ (by decide)]
  refine decide_eq_false fun hin => ?_
  have hlabel : 8 * labelU64.val + 0 / 8 = Field.ipv6Label.ofs := rfl
  omega

theorem getLsbD_maskSymmetricL3l4_label (h : (wc labelU64).getLsbD 0 = false) :
    (maskSymmetricL3l4 f wc labelU64).getLsbD 0 = false := by
  have haddrs : (maskIpAddrs f wc labelU64).getLsbD 0 = false := by
    unfold maskIpAddrs
    split
    · exact getLsbD_wcMaskField_label (by decide) (getLsbD_wcMaskField_label (by decide) h)
    · split
      · exact getLsbD_wcMaskField_label (by decide) (getLsbD_wcMaskField_label (by decide) h)
      · exact h
  unfold maskSymmetricL3l4
  split
  · have hproto := getLsbD_wcMaskField_label (x := .nwProto) (by decide) haddrs
    split
    · exact getLsbD_wcMaskField_label (by decide) (getLsbD_wcMaskField_label (by decide) hproto)
    · exact hproto
  · exact h

theorem agrees_relabeled (h : (w labelU64).getLsbD 0 = false) : w.Agrees f (relabeled f) := by
  refine Flow.agrees_iff.2 fun i j hj => ?_
  by_cases hi : i = labelU64
  · subst hi
    have hne : j ≠ 0 := fun heq => by rw [heq, h] at hj; cases hj
    simp [relabeled, hne]
  · rw [relabeled, Function.update_of_ne hi]

theorem hashedAlike_relabeled {fields : NxHashFields} (h : ReadsPastAddrs fields f) :
    HashedAlike fields f (relabeled f) := by
  refine ⟨(load16_relabeled f (by decide)).symm, (byte_relabeled f (by decide)).symm, (byte_relabeled f (by decide)).symm,
    agrees_relabeled ?_⟩
  have hzero : ((fun _ => 0 : Flow) labelU64).getLsbD 0 = false := rfl
  rcases h.1 with rfl | rfl
  · exact getLsbD_maskSymmetricL3l4_label hzero
  · refine getLsbD_maskSymmetricL3l4_label ?_
    split
    · exact getLsbD_wcMaskField_label (by decide) (getLsbD_wcMaskField_label (by decide) hzero)
    · exact hzero

theorem hashAdd64_ne (hash : UInt32) {x y : UInt64} (hlow : x.toUInt32 ≠ y.toUInt32)
    (hhigh : (x >>> 32).toUInt32 = (y >>> 32).toUInt32) : hashAdd64 hash x ≠ hashAdd64 hash y := by
  intro h
  unfold hashAdd64 at h
  rw [hhigh] at h
  exact hlow (hashAdd_data_injective _ (hashAdd_hash_injective _ h))

variable (jhashBytes : List UInt8 → UInt32 → UInt32)

theorem hashIpv6Addrs_relabeled (f : Flow) (basis : UInt32) :
    hashIpv6Addrs (portableHash jhashBytes) f basis ≠ hashIpv6Addrs (portableHash jhashBytes) (relabeled f) basis := by
  have hword : ∀ i : Nat, i ≠ 63 → flowU64Value (relabeled f) i = flowU64Value f i := by
    intro i hi
    unfold flowU64Value
    split
    · rw [relabeled, Function.update_of_ne fun heq => hi (congrArg Fin.val heq)]
    · rfl
  have hlabel : flowU64Value (relabeled f) 63 = flowU64Value f 63 ^^^ 1#64 := by
    have hread : ∀ f : Flow, flowU64Value f 63 = f labelU64 := fun _ => rfl
    rw [hread, hread, relabeled, Function.update_self]
  have hloop : ∀ f : Flow, hashIpv6Addrs (portableHash jhashBytes) f basis =
      hashAdd64 (hashAdd64 (hashAdd64 (hashAdd64 basis ⟨flowU64Value f 59 ^^^ flowU64Value f 61⟩)
        ⟨flowU64Value f 60 ^^^ flowU64Value f 62⟩) ⟨flowU64Value f 61 ^^^ flowU64Value f 63⟩)
        ⟨flowU64Value f 62 ^^^ flowU64Value f 64⟩ := fun _ => rfl
  rw [hloop, hloop, hword 59 (by decide), hword 60 (by decide), hword 61 (by decide), hword 62 (by decide),
    hword 64 (by decide), hlabel]
  refine fun h => hashAdd64_ne _ ?_ ?_ (hashAdd_hash_injective _ (hashAdd_hash_injective _ h))
  · intro heq
    have hbit := congrArg (fun x : UInt32 => x.toBitVec.getLsbD 0) heq
    simp at hbit
  · apply UInt32.toBitVec_inj.1
    apply BitVec.eq_of_getLsbD_eq
    simp

theorem hashProtoAndPorts_injective (incUdpPorts : Bool) (basis : UInt32) :
    Function.Injective (hashProtoAndPorts (portableHash jhashBytes) f · basis incUdpPorts) := by
  intro x y h
  have h := hashFinish_injective _ h
  split at h
  · exact hashAdd_hash_injective _ (hashAdd_hash_injective _ h)
  · exact hashAdd_hash_injective _ h

theorem hashProtoAndPorts_relabeled (hash basis : UInt32) (incUdpPorts : Bool) :
    hashProtoAndPorts H (relabeled f) hash basis incUdpPorts = hashProtoAndPorts H f hash basis incUdpPorts := by
  unfold hashProtoAndPorts
  rw [byte_relabeled f (by decide), load16_relabeled f (by decide), load16_relabeled f (by decide)]

theorem flowHashSymmetricL3l4_relabeled (h : load16 f .dlType = htons ethTypeIpv6) (basis : UInt32) (incUdpPorts : Bool) :
    flowHashSymmetricL3l4 (portableHash jhashBytes) f basis incUdpPorts ≠
      flowHashSymmetricL3l4 (portableHash jhashBytes) (relabeled f) basis incUdpPorts := by
  have hne : htons ethTypeIpv6 ≠ htons ethTypeIp := by decide
  unfold flowHashSymmetricL3l4
  rw [load16_relabeled f (by decide), h, if_neg hne, if_neg hne, hashProtoAndPorts_relabeled]
  exact fun heq => hashIpv6Addrs_relabeled jhashBytes f basis (hashProtoAndPorts_injective jhashBytes incUdpPorts basis heq)

/-! ## The law -/

/-- Flows that agree on what is masked hash alike in every build, except IPv6 flows hashed by L3 and L4: of those each
has another one that agrees with it and hashes differently. -/
theorem flowHashFields_megaflow (fields : NxHashFields) (f : Flow) :
    (¬ ReadsPastAddrs fields f → ∀ (H : HashFns) (f' : Flow), HashedAlike fields f f' → ∀ basis,
      flowHashFields H f fields basis = flowHashFields H f' fields basis) ∧
    (ReadsPastAddrs fields f → ∀ jhashBytes, ∃ f', HashedAlike fields f f' ∧ ∀ basis,
      flowHashFields (portableHash jhashBytes) f fields basis ≠ flowHashFields (portableHash jhashBytes) f' fields basis) := by
  constructor
  · intro hinside H f' h basis
    cases fields with
    | ethSrc =>
      have hsrc : Masks (flowMaskHashFields f (fun _ => 0) .ethSrc) .dlSrc := masks_wcMaskField _ _ (by decide)
      rw [flowHashFields, hsrc.bytes_eq h.agrees, flowHashFields]
    | symmetricL4 => rw [flowHashFields, flowHashSymmetricL4, symmetricL4Fields_eq h, flowHashFields, flowHashSymmetricL4]
    | symmetricL3l4 =>
      refine flowHashSymmetricL3l4_eq H h.agrees h.dlType h.nwProto (masksAddrs_maskSymmetricL3l4 f _)
        (fun hip => hinside ⟨.inl rfl, hip⟩) ?_ _
      rintro hip (hproto | ⟨hinc, -⟩)
      · exact masks_maskSymmetricL3l4_ports _ hip hproto
      · cases hinc
    | symmetricL3l4Udp =>
      refine flowHashSymmetricL3l4_eq H h.agrees h.dlType h.nwProto (masksAddrs_maskSymmetricL3l4 f _)
        (fun hip => hinside ⟨.inr rfl, hip⟩) ?_ _
      rintro hip (hproto | ⟨-, hproto⟩)
      · exact masks_maskSymmetricL3l4_ports _ hip hproto
      · have hudp : (isIpAny f && byte f Field.nwProto.ofs = ipprotoUdp) = true := by
          rw [hip, hproto]
          rfl
        have hsub := sub_maskSymmetricL3l4 f (wcMaskField (wcMaskField (fun _ => 0) .tpSrc) .tpDst)
        rw [flowMaskHashFields, if_pos hudp]
        exact ⟨((masks_wcMaskField _ _ (by decide)).sub (sub_wcMaskField _ _)).sub hsub,
          (masks_wcMaskField _ _ (by decide)).sub hsub⟩
  · intro hpast jhashBytes
    refine ⟨relabeled f, hashedAlike_relabeled hpast, fun basis => ?_⟩
    obtain ⟨rfl | rfl, hip⟩ := hpast
    · exact flowHashSymmetricL3l4_relabeled jhashBytes hip _ _
    · exact flowHashSymmetricL3l4_relabeled jhashBytes hip _ _

/-- A flow with this type and protocol and nothing else. -/
def plainFlow (dlType : UInt16) (nwProto : UInt8) : Flow :=
  fun i => if i.val = 55 then (htons dlType).toBitVec.setWidth 64 <<< 32
    else if i.val = 63 then nwProto.toBitVec.setWidth 64 <<< 56 else 0

/-- Two TCP flows over IPv6 that differ in a bit of their flow labels. -/
theorem flowHashFields_reads_label :
    HashedAlike .symmetricL3l4 (plainFlow ethTypeIpv6 ipprotoTcp) (relabeled (plainFlow ethTypeIpv6 ipprotoTcp)) ∧
    (flowHashFields (portableHash fun _ _ => 0) (plainFlow ethTypeIpv6 ipprotoTcp) .symmetricL3l4 0,
      flowHashFields (portableHash fun _ _ => 0) (relabeled (plainFlow ethTypeIpv6 ipprotoTcp)) .symmetricL3l4 0) =
      (3602757291, 1535269028) := by
  refine ⟨hashedAlike_relabeled ⟨.inl rfl, ?_⟩, ?_⟩
  · decide +kernel
  · decide +kernel

end LinkerOvs.Flows
