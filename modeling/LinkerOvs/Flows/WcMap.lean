/-
The fields of a packet of a flow's type, twice (`lib/flow.c`): as wildcards (`flow_wildcards_init_for_packet`) and as
the map of the words they may be in (`flow_wc_map`). The map is meant to have every word in which the wildcards have a
bit, and has them all but for a tunnel ID without a tunnel and for ICMPv6.
-/
import LinkerOvs.Flows.Extract

namespace LinkerOvs.Flows

open Cls List

/-! ## Fields and the words they are in -/

/-- The word has a byte of the member. -/
def Field.touches (x : Field) (i : Nat) : Bool := x.ofs < 8 * i + 8 && 8 * i < x.ofs + x.size && 0 < x.size

variable {x : Field} {i : Fin flowU64s}

theorem Field.touches_iff {i : Nat} :
    x.touches i = true ↔ x.ofs < 8 * i + 8 ∧ 8 * i < x.ofs + x.size ∧ 0 < x.size := by
  simp only [Field.touches, Bool.and_eq_true, decide_eq_true_eq, and_assoc]

/-- Every word with a byte of one of the members `xs` has a byte of one of `ys`. -/
def Field.Within (xs ys : List Field) : Prop :=
  ∀ i : Fin flowU64s, xs.any (·.touches i.val) = true → ys.any (·.touches i.val) = true

instance (xs ys : List Field) : Decidable (Field.Within xs ys) := inferInstanceAs (Decidable (∀ _, _))

theorem Field.Within.any {xs ys : List Field} (h : Field.Within xs ys) (hi : xs.any (·.touches i.val) = true) :
    ys.any (·.touches i.val) = true := h i hi

theorem bytesMask_ne_zero_iff {i ofs n : Nat} : bytesMask i ofs n ≠ 0 ↔ (⟨ofs, n⟩ : Field).touches i = true := by
  rw [Field.touches_iff]
  dsimp only
  constructor
  · intro hne
    by_contra hnot
    refine hne (BitVec.eq_of_getLsbD_eq fun j hj => ?_)
    rw [getLsbD_bytesMask _ _ _ hj, decide_eq_false (by omega), BitVec.ofNat_eq_ofNat, BitVec.getLsbD_zero]
  · rintro ⟨hofs, hend, hpos⟩ hzero
    -- the first byte of the member that is in the word
    have hbit := getLsbD_bytesMask i ofs n (show 8 * (max ofs (8 * i) - 8 * i) < 64 by omega)
    simp_all

theorem or_ne_zero_iff {a b : BitVec 64} : a ||| b ≠ 0 ↔ a ≠ 0 ∨ b ≠ 0 := by
  rw [BitVec.ofNat_eq_ofNat, Ne, BitVec.or_eq_zero_iff, not_and_or]

theorem wcMaskField_ne_zero_iff {wc : Flow} : wcMaskField wc x i ≠ 0 ↔ wc i ≠ 0 ∨ x.touches i.val = true := by
  rw [wcMaskField, wcMask, or_ne_zero_iff, bytesMask_ne_zero_iff]

theorem foldl_wcMaskField_ne_zero_iff : ∀ {xs : List Field} {wc : Flow},
    xs.foldl wcMaskField wc i ≠ 0 ↔ wc i ≠ 0 ∨ xs.any (·.touches i.val) = true
  | [], wc => by simp
  | x :: xs, wc => by
    rw [foldl_cons, foldl_wcMaskField_ne_zero_iff, wcMaskField_ne_zero_iff, any_cons, Bool.or_eq_true, or_assoc]

/-- `FLOWMAP_SET`. -/
def flowmapSetField (map : Flowmap) (x : Field) : Flowmap := flowmapSet map x.u64Offset x.u64Size

theorem mem_flowmapSet {map : Flowmap} {idx n : Nat} :
    i ∈ flowmapSet map idx n ↔ i ∈ map ∨ idx ≤ i.val ∧ i.val < idx + n := by
  simp [flowmapSet]

theorem mem_flowmapSetField {map : Flowmap} (hx : 0 < x.size) :
    i ∈ flowmapSetField map x ↔ i ∈ map ∨ x.touches i.val = true := by
  rw [flowmapSetField, mem_flowmapSet]
  refine or_congr_right ?_
  rw [Field.touches_iff, Field.u64Offset, Field.u64Size]
  omega

theorem mem_foldl_flowmapSetField : ∀ {xs : List Field} {map : Flowmap}, (∀ x ∈ xs, 0 < x.size) →
    (i ∈ xs.foldl flowmapSetField map ↔ i ∈ map ∨ xs.any (·.touches i.val) = true)
  | [], map, _ => by simp
  | x :: xs, map, hsize => by
    rw [foldl_cons, mem_foldl_flowmapSetField fun y hy => hsize y (mem_cons_of_mem x hy),
      mem_flowmapSetField (hsize x mem_cons_self), any_cons, Bool.or_eq_true, or_assoc]

/-! ## The wildcards -/

def flowTnlFKey : UInt16 := 8

def mplsBosMask : UInt32 := 0x100

section

variable (f : Flow)

def flowTnlDstIsSet : Bool := (bytes f .tunIpDst ++ bytes f .tunIpv6Dst).any (· ≠ 0)

/-- `tunnel.tun_id`. -/
def tunId : BitVec 64 := flowU64Value f Field.tunId.u64Offset

/-- `tunnel.metadata.present.map`. -/
def presentMap : BitVec 64 := flowU64Value f Field.tunPresentMap.u64Offset

/-- `tunnel.metadata.present.len`. -/
def presentLen : Nat := (byte f Field.tunPresentLen.ofs).toNat

def wildcardsForTunnel : Flow :=
  if flowTnlDstIsSet f then
    let fields := (if load16 f .tunFlags &&& flowTnlFKey ≠ 0 then [Field.tunId] else []) ++
      [.tunIpSrc, .tunIpDst, .tunIpv6Src, .tunIpv6Dst, .tunFlags, .tunIpTos, .tunIpTtl, .tunTpSrc, .tunTpDst,
        .tunGbpId, .tunGbpFlags]
    let wc := fields.foldl wcMaskField fun _ => 0
    if load16 f .tunFlags &&& flowTnlFUdpif = 0 then
      if presentMap f ≠ 0 then
        wcMaskField (fun i => if i.val = Field.tunPresentMap.u64Offset then presentMap f else wc i) .tunOpts
      else wc
    else wcMask (wcMaskField wc .tunPresentLen) Field.tunOpts.ofs (presentLen f)
  else if tunId f ≠ 0 then wcMaskField (fun _ => 0) .tunId
  else fun _ => 0

/-- The members of an MPLS label stack up to the bottom, from the `i`-th on, among the next `n`. -/
def mplsFields : Nat → Nat → List Field
  | 0, _ => []
  | n + 1, i =>
    .mplsLseAt i :: if load32 f (.mplsLseAt i) &&& htonl mplsBosMask ≠ 0 then [] else mplsFields n (i + 1)

/-- The members for the transport layer. -/
def transportFields : List Field :=
  if byte f Field.nwFrag.ofs &&& flowNwFragLater = 0 ∧
      byte f Field.nwProto.ofs ∈ [ipprotoIcmp, ipprotoIcmpv6, ipprotoTcp, ipprotoUdp, ipprotoSctp, ipprotoIgmp] then
    [.tpSrc, .tpDst] ++
      if byte f Field.nwProto.ofs = ipprotoTcp then [.tcpFlags]
      else if byte f Field.nwProto.ofs = ipprotoIcmpv6 then [.arpSha, .arpTha, .ndTarget]
      else if byte f Field.nwProto.ofs = ipprotoIgmp then [.igmpGroupIp4]
      else []
  else []

/-- The members after the Ethernet header. -/
def networkFields : List Field :=
  if load16 f .dlType = htons ethTypeIp then
    [.nwSrc, .nwDst] ++ [.nwFrag, .nwTos, .nwTtl, .nwProto] ++ transportFields f
  else if load16 f .dlType = htons ethTypeIpv6 then
    [.ipv6Src, .ipv6Dst, .ipv6Label] ++ [.nwFrag, .nwTos, .nwTtl, .nwProto] ++ transportFields f
  else if load16 f .dlType = htons ethTypeArp ∨ load16 f .dlType = htons ethTypeRarp then
    [.nwSrc, .nwDst, .nwProto, .arpSha, .arpTha]
  else if ethTypeIsMpls (load16 f .dlType) then mplsFields f 3 0
  else []

/-- The members that every packet has. -/
def commonFields : List Field :=
  [.skbPriority, .pktMark, .ctState, .ctZone, .ctMark, .ctLabel, .recircId, .dpHash, .inPort, .dlDst, .dlSrc, .dlType,
    .vlanTci]

def flowWildcardsInitForPacket : Flow :=
  (networkFields f).foldl wcMaskField (commonFields.foldl wcMaskField (wildcardsForTunnel f))

/-! ## The map -/

def wcMapTunnel : Flowmap :=
  if flowTnlDstIsSet f then
    let map := flowmapSet [] 0 ((Field.tunMetadata.ofs + 7) / 8)
    if load16 f .tunFlags &&& flowTnlFUdpif = 0 then
      if presentMap f ≠ 0 then flowmapSetField map .tunMetadata else map
    else flowmapSet (flowmapSetField map .tunPresentLen) Field.tunOpts.u64Offset ((presentLen f + 7) / 8)
  else []

/-- The members that depend on the Ethernet type. -/
def wcMapFields : List Field :=
  if load16 f .dlType = htons ethTypeIp then
    [.nwSrc, .nwDst, .nwProto, .nwFrag, .nwTos, .nwTtl] ++
      if byte f Field.nwProto.ofs = ipprotoIgmp then [.igmpGroupIp4] else [.tcpFlags, .tpSrc, .tpDst]
  else if load16 f .dlType = htons ethTypeIpv6 then
    [.ipv6Src, .ipv6Dst, .ipv6Label, .nwProto, .nwFrag, .nwTos, .nwTtl] ++
      if byte f Field.nwProto.ofs = ipprotoIcmpv6 then [.ndTarget, .arpSha, .arpTha] else [.tcpFlags, .tpSrc, .tpDst]
  else if ethTypeIsMpls (load16 f .dlType) then [.mplsLse]
  else if load16 f .dlType = htons ethTypeArp ∨ load16 f .dlType = htons ethTypeRarp then
    [.nwSrc, .nwDst, .nwProto, .arpSha, .arpTha]
  else []

/-- The members that can appear on input of any packet. -/
def wcMapCommonFields : List Field :=
  [.skbPriority, .pktMark, .recircId, .dpHash, .inPort, .dlDst, .dlSrc, .dlType, .vlanTci, .ctState, .ctZone, .ctMark,
    .ctLabel]

def flowWcMap : Flowmap :=
  (wcMapFields f).foldl flowmapSetField (wcMapCommonFields.foldl flowmapSetField (wcMapTunnel f))

end

/-! ## Words of the wildcards, words of the map -/

variable {f : Flow}

theorem flowWildcardsInitForPacket_ne_zero_iff : flowWildcardsInitForPacket f i ≠ 0 ↔
    (wildcardsForTunnel f i ≠ 0 ∨ commonFields.any (·.touches i.val) = true) ∨
      (networkFields f).any (·.touches i.val) = true := by
  rw [flowWildcardsInitForPacket, foldl_wcMaskField_ne_zero_iff, foldl_wcMaskField_ne_zero_iff]

theorem wcMapFields_size (f : Flow) : ∀ x ∈ wcMapFields f, 0 < x.size := by
  unfold wcMapFields
  split
  · split <;> decide
  split
  · split <;> decide
  · split
    · decide
    · split <;> decide

theorem mem_flowWcMap : i ∈ flowWcMap f ↔
    (i ∈ wcMapTunnel f ∨ wcMapCommonFields.any (·.touches i.val) = true) ∨
      (wcMapFields f).any (·.touches i.val) = true := by
  rw [flowWcMap, mem_foldl_flowmapSetField (wcMapFields_size f), mem_foldl_flowmapSetField (by decide)]

theorem any_commonFields (i : Fin flowU64s) :
    wcMapCommonFields.any (·.touches i.val) = commonFields.any (·.touches i.val) := by
  revert i
  decide +kernel

theorem touches_of_mplsFields {i : Nat} : ∀ {n k : Nat}, (mplsFields f n k).any (·.touches i) = true →
    (⟨448 + 4 * k, 4 * n⟩ : Field).touches i = true
  | 0, k, h => by simp [mplsFields] at h
  | n + 1, k, h => by
    rw [mplsFields, any_cons, Bool.or_eq_true] at h
    rw [Field.touches_iff]
    dsimp only
    rcases h with h | h
    · rw [Field.touches_iff, Field.mplsLseAt] at h
      dsimp only at h
      omega
    · split at h
      · cases h
      · have hrest := Field.touches_iff.1 (touches_of_mplsFields h)
        dsimp only at hrest
        omega

/-! ## Where the map has all the words -/

/-- The map of the flow has all the words: there is no tunnel ID without a tunnel, and the packet is not ICMPv6 (over
IPv6 or IPv4) with a transport header. -/
structure WcCovered (f : Flow) : Prop where
  tunnel : flowTnlDstIsSet f = false → tunId f = 0
  icmpv6 : dlTypeIsIpAny (load16 f .dlType) = true → byte f Field.nwProto.ofs = ipprotoIcmpv6 →
    byte f Field.nwFrag.ofs &&& flowNwFragLater ≠ 0

/-- Fields of the transport layer in the words of an IPv4 or IPv6 packet that is not ICMPv6. -/
theorem transportFields_covered (h : byte f Field.nwProto.ofs = ipprotoIcmpv6 →
    byte f Field.nwFrag.ofs &&& flowNwFragLater ≠ 0) (i : Fin flowU64s)
    (hi : (transportFields f).any (·.touches i.val) = true) :
    (if byte f Field.nwProto.ofs = ipprotoIgmp then [Field.igmpGroupIp4] else [.tcpFlags, .tpSrc, .tpDst]).any
      (·.touches i.val) = true := by
  unfold transportFields at hi
  split at hi
  · next hfirst =>
    obtain ⟨hfrag, hproto⟩ := hfirst
    have hne : byte f Field.nwProto.ofs ≠ ipprotoIcmpv6 := fun heq => h heq hfrag
    generalize byte f Field.nwProto.ofs = proto at hproto hi hne ⊢
    simp only [mem_cons, not_mem_nil, or_false] at hproto
    revert i
    rcases hproto with rfl | rfl | rfl | rfl | rfl | rfl
    · decide +kernel
    · exact absurd rfl hne
    · decide +kernel
    · decide +kernel
    · decide +kernel
    · decide +kernel
  · cases hi

theorem networkFields_covered (h : WcCovered f) (i : Fin flowU64s) (hi : (networkFields f).any (·.touches i.val) = true) :
    (wcMapFields f).any (·.touches i.val) = true := by
  unfold networkFields at hi
  unfold wcMapFields
  by_cases hip : load16 f .dlType = htons ethTypeIp
  · have htransport := transportFields_covered (h.icmpv6 (by rw [hip]; decide)) i
    rw [if_pos hip, any_append, Bool.or_eq_true] at hi
    rw [if_pos hip, any_append, Bool.or_eq_true]
    exact hi.imp (Field.Within.any (by decide +kernel)) htransport
  rw [if_neg hip] at hi ⊢
  by_cases hipv6 : load16 f .dlType = htons ethTypeIpv6
  · have hcond := h.icmpv6 (by rw [hipv6]; decide)
    have htransport := transportFields_covered hcond i
    rw [if_pos hipv6, any_append, Bool.or_eq_true] at hi
    rw [if_pos hipv6, any_append, Bool.or_eq_true]
    refine hi.imp (Field.Within.any (by decide +kernel)) fun hupper => ?_
    by_cases hproto : byte f Field.nwProto.ofs = ipprotoIcmpv6
    · rw [transportFields, if_neg fun hfirst => hcond hproto hfirst.1] at hupper
      cases hupper
    rw [if_neg hproto]
    have hports := htransport hupper
    -- the ports and the IGMP group are in one word
    split at hports
    · exact Field.Within.any (by decide +kernel) hports
    · exact hports
  · rw [if_neg hipv6] at hi ⊢
    by_cases harp : load16 f .dlType = htons ethTypeArp ∨ load16 f .dlType = htons ethTypeRarp
    · have hmpls : ¬ ethTypeIsMpls (load16 f .dlType) = true := by
        rcases harp with harp | harp <;> rw [harp] <;> decide
      simp_all
    rw [if_neg harp] at hi
    split at hi
    · next hmpls =>
      rw [if_pos hmpls]
      have hstack : [(⟨448, 12⟩ : Field)].any (·.touches i.val) = true := by
        rw [any_cons, Bool.or_eq_true]
        exact .inl (touches_of_mplsFields hi)
      exact Field.Within.any (by decide +kernel) hstack
    · cases hi

theorem wildcardsForTunnel_covered (h : WcCovered f) (i : Fin flowU64s) (hi : wildcardsForTunnel f i ≠ 0) :
    i ∈ wcMapTunnel f := by
  unfold wildcardsForTunnel at hi
  unfold wcMapTunnel
  by_cases hdst : flowTnlDstIsSet f = true
  · rw [if_pos hdst] at hi ⊢
    have hhead : ∀ {xs : List Field}, (∀ x ∈ xs, x.ofs + x.size ≤ 64) →
        xs.foldl wcMaskField (fun _ => 0) i ≠ 0 → i ∈ flowmapSet [] 0 ((Field.tunMetadata.ofs + 7) / 8) := by
      intro xs hxs hne
      rw [foldl_wcMaskField_ne_zero_iff] at hne
      obtain ⟨x, hx, htouch⟩ := any_eq_true.1 (hne.resolve_left fun hzero => hzero rfl)
      have hend := hxs x hx
      have hin := Field.touches_iff.1 htouch
      rw [mem_flowmapSet]
      show _ ∨ 0 ≤ i.val ∧ i.val < 0 + 8
      omega
    have hfields : ∀ x ∈ (if load16 f .tunFlags &&& flowTnlFKey ≠ 0 then [Field.tunId] else []) ++
        [.tunIpSrc, .tunIpDst, .tunIpv6Src, .tunIpv6Dst, .tunFlags, .tunIpTos, .tunIpTtl, .tunTpSrc, .tunTpDst,
          .tunGbpId, .tunGbpFlags], x.ofs + x.size ≤ 64 := by
      split <;> decide
    have hwc := hhead hfields
    by_cases hudpif : load16 f .tunFlags &&& flowTnlFUdpif = 0
    · rw [if_pos hudpif] at hi ⊢
      by_cases hpresent : presentMap f ≠ 0
      · rw [if_pos hpresent, wcMaskField_ne_zero_iff] at hi
        rw [if_pos hpresent, mem_flowmapSetField (by decide)]
        rcases hi with hi | hi
        · split at hi
          · next hword =>
            right
            rw [hword]
            decide
          · exact .inl (hwc hi)
        · have hopts := Field.touches_iff.1 hi
          rw [Field.touches_iff]
          simp only [Field.tunOpts, Field.tunMetadata] at hopts ⊢
          omega
      · grind
    · rw [if_neg hudpif] at hi ⊢
      rw [wcMask, or_ne_zero_iff, bytesMask_ne_zero_iff, wcMaskField_ne_zero_iff] at hi
      rw [mem_flowmapSet, mem_flowmapSetField (by decide)]
      rcases hi with (hi | hi) | hi
      · exact .inl (.inl (hwc hi))
      · exact .inl (.inr hi)
      · have hopts := Field.touches_iff.1 hi
        simp only [Field.tunOpts, Field.u64Offset] at hopts ⊢
        omega
  · rw [if_neg hdst, if_neg (not_not.2 (h.tunnel (Bool.eq_false_iff.2 hdst)))] at hi
    exact absurd rfl hi

theorem WcCovered.mem_flowWcMap (h : WcCovered f) (hi : flowWildcardsInitForPacket f i ≠ 0) : i ∈ flowWcMap f := by
  rw [Flows.mem_flowWcMap, any_commonFields]
  rw [flowWildcardsInitForPacket_ne_zero_iff] at hi
  exact hi.imp (Or.imp_left (wildcardsForTunnel_covered h i)) (networkFields_covered h i)

/-! ## Where it does not -/

theorem wcMapTunnel_lt (h : i ∈ wcMapTunnel f) : i.val < 42 := by
  have hlen : presentLen f < 256 := UInt8.toNat_lt _
  unfold wcMapTunnel at h
  split at h
  · have hhead : i ∈ flowmapSet [] 0 ((Field.tunMetadata.ofs + 7) / 8) → i.val < 8 := fun hi =>
      ((mem_flowmapSet.1 hi).resolve_left not_mem_nil).2.trans_le (by decide)
    split at h
    · split at h
      · rw [mem_flowmapSetField (by decide), Field.touches_iff] at h
        rcases h with h | h
        · exact (hhead h).trans (by decide)
        · simp only [Field.tunMetadata] at h
          omega
      · exact (hhead h).trans (by decide)
    · rw [mem_flowmapSet, mem_flowmapSetField (by decide), Field.touches_iff] at h
      rcases h with (h | h) | h
      · exact (hhead h).trans (by decide)
      · simp only [Field.tunPresentLen] at h
        omega
      · simp only [Field.tunOpts, Field.u64Offset] at h
        omega
  · cases h

theorem sub_foldl_wcMaskField : ∀ (xs : List Field) (wc : Flow), wc.Sub (xs.foldl wcMaskField wc)
  | [], wc => .refl wc
  | x :: xs, wc => (sub_wcMaskField wc x).trans (sub_foldl_wcMaskField xs _)

def fieldInWord (x : Field) (i : Fin flowU64s) : Flow := fun j => if j = i then bytesMask j.val x.ofs x.size else 0

theorem fieldInWord_sub_wcMaskField (x : Field) (i : Fin flowU64s) (wc : Flow) :
    (fieldInWord x i).Sub (wcMaskField wc x) := by
  intro k j hj
  unfold fieldInWord at hj
  split at hj
  · rw [wcMaskField, wcMask, BitVec.getLsbD_or, hj, Bool.or_true]
  · simp at hj

theorem fieldInWord_sub_foldl (i : Fin flowU64s) : ∀ {xs : List Field} (wc : Flow), x ∈ xs →
    (fieldInWord x i).Sub (xs.foldl wcMaskField wc)
  | y :: xs, wc, hx => by
    rcases mem_cons.1 hx with rfl | hx
    · exact (fieldInWord_sub_wcMaskField x i wc).trans (sub_foldl_wcMaskField xs _)
    · exact fieldInWord_sub_foldl i (wcMaskField wc y) hx

def tunIdWord : Fin flowU64s := ⟨5, by decide⟩

def ndTargetWord : Fin flowU64s := ⟨64, by decide⟩

def tpSrcWord : Fin flowU64s := ⟨68, by decide⟩

/-- A tunnel ID without a tunnel is in the wildcards, and its word is not in the map. -/
theorem tunId_dropped (hdst : flowTnlDstIsSet f = false) (hid : tunId f ≠ 0) :
    (fieldInWord .tunId tunIdWord).Sub (flowWildcardsInitForPacket f) ∧ tunIdWord ∉ flowWcMap f := by
  constructor
  · have htunnel : wildcardsForTunnel f = wcMaskField (fun _ => 0) .tunId := by
      rw [wildcardsForTunnel, hdst, if_neg (by decide), if_pos hid]
    rw [flowWildcardsInitForPacket, htunnel]
    exact (fieldInWord_sub_wcMaskField _ _ _).trans ((sub_foldl_wcMaskField _ _).trans (sub_foldl_wcMaskField _ _))
  · rw [mem_flowWcMap]
    rintro ((htunnel | hcommon) | hfields)
    · rw [wcMapTunnel, hdst] at htunnel
      cases htunnel
    · exact absurd hcommon (by decide)
    · revert hfields
      unfold wcMapFields
      split
      · split <;> decide
      split
      · split <;> decide
      · split
        · decide
        · split <;> decide

section

variable (hfrag : byte f Field.nwFrag.ofs &&& flowNwFragLater = 0) (hproto : byte f Field.nwProto.ofs = ipprotoIcmpv6)

include hfrag hproto

theorem transportFields_icmpv6 : transportFields f = [.tpSrc, .tpDst, .arpSha, .arpTha, .ndTarget] := by
  have hin : byte f Field.nwProto.ofs ∈
      [ipprotoIcmp, ipprotoIcmpv6, ipprotoTcp, ipprotoUdp, ipprotoSctp, ipprotoIgmp] := by
    rw [hproto]
    decide
  rw [transportFields, if_pos ⟨hfrag, hin⟩, hproto]
  decide

theorem ndTarget_dropped (hip : load16 f .dlType = htons ethTypeIp) :
    (fieldInWord .ndTarget ndTargetWord).Sub (flowWildcardsInitForPacket f) ∧ ndTargetWord ∉ flowWcMap f := by
  constructor
  · refine fieldInWord_sub_foldl _ _ ?_
    rw [networkFields, if_pos hip, transportFields_icmpv6 hfrag hproto]
    decide
  · rw [mem_flowWcMap]
    rintro ((htunnel | hcommon) | hfields)
    · exact absurd (wcMapTunnel_lt htunnel) (by decide)
    · exact absurd hcommon (by decide)
    · rw [wcMapFields, if_pos hip, hproto] at hfields
      exact absurd hfields (by decide)

theorem tpSrc_dropped (hipv6 : load16 f .dlType = htons ethTypeIpv6) :
    (fieldInWord .tpSrc tpSrcWord).Sub (flowWildcardsInitForPacket f) ∧ tpSrcWord ∉ flowWcMap f := by
  have hip : load16 f .dlType ≠ htons ethTypeIp := by
    rw [hipv6]
    decide
  constructor
  · refine fieldInWord_sub_foldl _ _ ?_
    rw [networkFields, if_neg hip, if_pos hipv6, transportFields_icmpv6 hfrag hproto]
    decide
  · rw [mem_flowWcMap]
    rintro ((htunnel | hcommon) | hfields)
    · exact absurd (wcMapTunnel_lt htunnel) (by decide)
    · exact absurd hcommon (by decide)
    · rw [wcMapFields, if_neg hip, if_pos hipv6, hproto] at hfields
      exact absurd hfields (by decide)

end

end LinkerOvs.Flows
