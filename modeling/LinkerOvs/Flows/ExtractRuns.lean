/-
`miniflow_extract` as a whole. Two kinds of packets escape its length checks. An IPv4 packet whose total length is
less than its header length makes the counter of the bytes that are left go below zero, and the layers above read on.
An IPv6 packet whose extension headers are cut off makes the parser leave with half of a unit written.
-/
import LinkerOvs.Flows.ExtractSpec
import LinkerOvs.Lib.Outcome

namespace LinkerOvs.Flows

open Cls Jump List

variable {pkt : List UInt8} {α : Type} {E : Fault → Prop} {R : Parser → Prop} {s : Parser}

/-! ## A packet from end to end -/

/-- The parser at the end: inside the packet, and with a unit half written exactly when extension headers are cut
off. -/
def Ended (pkt : List UInt8) (s : Parser) : Prop := ∃ pend, Good pkt 69 60 pend s ∧ (pend = 0 ↔ ExtHdrsFit pkt)

theorem Good.ended {next c : Nat} (h : Good pkt next c 0 s) (hnext : next ≤ 69) (hc : c ≤ 60) (hfit : ExtHdrsFit pkt) :
    Ended pkt s := ⟨0, h.mono hnext hc, fun _ => hfit, fun _ => rfl⟩

theorem extHdrsFit_of_type (h : frameType pkt ≠ htons ethTypeIpv6) : ExtHdrsFit pkt := fun hfits => absurd hfits.type h

theorem ends_extractUpper {c : Nat} (h : Good pkt 64 c 4 s) (hc : c ≤ 55) (nw : NwInfo) :
    Ends E (fun _ => Good pkt 69 60 0) R (extractUpper pkt nw) s := by
  have h' : Good pkt 64 c 4 { s with l4Ofs := some (s.data % 2 ^ 16) } := ⟨h.wrapped, h.inside, h.filled⟩
  rw [extractUpper, ends_bind, ends_modify, ends_bind]
  have hfrag := h'.upper32 Field.nwFrag.ofs (bytesToBe32 nw.nwFrag nw.nwTos nw.nwTtl nw.nwProto) (by decide)
  split
  · exact (ends_extractTransport hfrag nw.nwProto).mono (fun _ _ hs' => hs'.mono le_rfl (by omega)) fun _ hR => hR
  · exact hfrag.mono (by decide) (by omega)

theorem ends_extractPacket (hcovered : Ipv4Covered pkt) (md : PktMetadata) :
    Ends (fun _ => False) (fun _ => Ended pkt) (Ended pkt) (extractPacket pkt) (Parser.init pkt md) := by
  rw [extractPacket, ends_bind]
  refine (ends_parseEthernet (good_init pkt md) rfl rfl).mono ?_ ?_
  · rintro _ s ⟨hlength, rfl, hdata, hsize, hs⟩
    rw [ends_bind]
    refine (ends_extractMpls hs (frameType pkt)).mono (fun _ s' hs' => ?_) fun _ hR => hR
    rw [ends_bind, ends_modify]
    have hmpls : Good pkt 58 52 0 { s' with l3Ofs := some (s'.data % 2 ^ 16) } := by
      split at hs'
      · exact ⟨hs'.wrapped, hs'.inside, hs'.filled⟩
      · subst hs'
        exact ⟨hs.wrapped, hs.inside, (hs.mono (by decide) (by decide)).filled⟩
    have hnet : ethTypeIsMpls (frameType pkt) = false → Good pkt 58 50 0 { s' with l3Ofs := some (s'.data % 2 ^ 16) } ∧
        s'.data = netOfs pkt ∧ s'.size = pkt.length - netOfs pkt := by
      intro hnot
      rw [hnot] at hs'
      subst hs'
      exact ⟨⟨hs.wrapped, hs.inside, (hs.mono (by decide) le_rfl).filled⟩, hdata, hsize⟩
    by_cases hip : frameType pkt = htons ethTypeIp
    · obtain ⟨h₁, hdata₁, hsize₁⟩ := hnet (by rw [hip]; decide)
      have hfit : ExtHdrsFit pkt := extHdrsFit_of_type (by rw [hip]; decide)
      rw [if_pos hip, ends_bind]
      refine ends_parseIpv4 h₁ hlength hip hdata₁ hsize₁ ?_ fun _ => h₁.ended (by decide) (by decide) hfit
      intro hipv4 nw s₂ hs₂ hsize₂
      have hle : ipv4HdrLen pkt ≤ s₂.size := hsize₂ ▸ hcovered hipv4
      rw [ends_bind, ends_dataPull hle]
      refine (ends_extractUpper (hs₂.pulled hle) (by decide) nw).mono (fun _ _ hs₃ => ?_) fun _ hR => hR
      exact hs₃.ended le_rfl le_rfl hfit
    · rw [if_neg hip]
      by_cases hipv6 : frameType pkt = htons ethTypeIpv6
      · obtain ⟨h₁, hdata₁, hsize₁⟩ := hnet (by rw [hipv6]; decide)
        rw [if_pos hipv6, ends_bind]
        refine (ends_parseIpv6 h₁ hlength hipv6 hdata₁ hsize₁).mono ?_ ?_
        · rintro nw s₂ ⟨hs₂, hfit⟩
          refine (ends_extractUpper hs₂ le_rfl nw).mono (fun _ _ hs₃ => ?_) fun _ hR => hR
          exact hs₃.ended le_rfl le_rfl hfit
        · rintro s₂ (⟨hs₂, hcut⟩ | ⟨hs₂, hfit⟩)
          · exact ⟨4, hs₂.mono (by decide) (by decide), fun hzero => absurd hzero (by decide), fun hfit => absurd hfit hcut⟩
          · exact hs₂.ended (by decide) (by decide) hfit
      · have hfit := extHdrsFit_of_type hipv6
        rw [if_neg hipv6]
        split
        · rw [ends_bind]
          refine (ends_extractArp hmpls).mono (fun _ s₂ hs₂ => ?_) fun _ hR => hR
          exact hs₂.ended (by decide) (by decide) hfit
        · exact hmpls.ended (by decide) (by decide) hfit
  · rintro s ⟨hshort, hs⟩
    exact hs.ended (by decide) (by decide) fun hfits => absurd hfits.ethernet (Nat.not_le.2 hshort)

/-! ## A counter that has gone below zero -/

/-- Once the counter has gone below zero, this is not forgotten. -/
def Sticky (x : Parse α) : Prop :=
  ∀ s, s.wrapped = true → Ends (fun _ => True) (fun _ s' => s'.wrapped = true) (fun s' => s'.wrapped = true) x s

namespace Sticky

variable {β : Type}

theorem pure (a : α) : Sticky (Pure.pure a : Parse α) := fun _ hs => hs

theorem fault (e : Fault) : Sticky (Jump.fault e : Parse α) := fun _ _ => trivial

theorem gets (f : Parser → α) : Sticky (Jump.gets f) := fun _ hs => hs

theorem push (p : Push) : Sticky (Flows.push p) := fun _ hs => hs

theorem bind {x : Parse α} {f : α → Parse β} (hx : Sticky x) (hf : ∀ a, Sticky (f a)) : Sticky (x >>= f) := by
  intro s hs
  rw [ends_bind]
  exact (hx s hs).mono (fun a s' hs' => hf a s' hs') fun _ hR => hR

theorem ite {c : Prop} [Decidable c] {x y : Parse α} (hx : Sticky x) (hy : Sticky y) : Sticky (if c then x else y) := by
  split
  · exact hx
  · exact hy

theorem readAt (p n : Nat) : Sticky (readAt pkt p n) := .ite (.pure _) (.fault _)

theorem u8At (p : Nat) : Sticky (u8At pkt p) := (readAt _ _).bind fun _ => .pure _

theorem be16At (p : Nat) : Sticky (be16At pkt p) := (readAt _ _).bind fun _ => .pure _

theorem be32At (p : Nat) : Sticky (be32At pkt p) := (readAt _ _).bind fun _ => .pure _

theorem dataPull (n : Nat) : Sticky (dataPull n) := by
  refine (gets _).bind fun data => bind (fun s hs => ?_) fun _ => .pure _
  rw [ends_modify, hs]
  rfl

theorem dataTryPull (n : Nat) : Sticky (dataTryPull n) :=
  (gets _).bind fun _ => .ite ((dataPull n).bind fun _ => .pure _) (.pure _)

theorem pushPorts (src dst : UInt16) : Sticky (pushPorts src dst) :=
  (push _).bind fun _ => (push _).bind fun _ => push _

theorem parseNdOptions : ∀ (fuel : Nat) (nd : NdInfo), Sticky (parseNdOptions pkt fuel nd)
  | 0, _ => .fault _
  | fuel + 1, nd => by
    have htake : ∀ optLen nd, Sticky (do let _ ← Flows.dataTryPull optLen; Flows.parseNdOptions pkt fuel nd) :=
      fun optLen nd => (dataTryPull optLen).bind fun _ => parseNdOptions fuel nd
    refine (gets _).bind fun size => .ite (.pure _) ((gets _).bind fun opt => (u8At _).bind fun len => ?_)
    refine .ite (.pure _) ((u8At _).bind fun type => .ite ?_ (.ite ?_ (htake _ _)))
    · exact .ite ((readAt _ _).bind fun mac => htake _ _) (.pure _)
    · exact .ite ((readAt _ _).bind fun mac => htake _ _) (.pure _)

theorem parseIcmpv6 (icmp : Nat) : Sticky (parseIcmpv6 pkt icmp) := by
  refine (u8At _).bind fun code => (u8At _).bind fun type => .ite ((dataTryPull _).bind fun target => ?_) (.pure _)
  cases target with
  | none => exact .pure _
  | some target => exact (gets _).bind fun size => parseNdOptions _ _

theorem extractIcmpv6 : Sticky (extractIcmpv6 pkt) := by
  refine (dataPull _).bind fun icmp => (parseIcmpv6 _).bind fun nd => ?_
  have hrest : Sticky (do
      Flows.push (.macs Field.arpSha.ofs (nd.arpSha ++ nd.arpTha))
      Flows.push (.padTo64 Field.tcpFlags.ofs)
      let type ← Flows.u8At pkt icmp
      let code ← Flows.u8At pkt (icmp + 1)
      Flows.pushPorts (htonsOf type) (htonsOf code)) :=
    (push _).bind fun _ => (push _).bind fun _ => (u8At _).bind fun _ => (u8At _).bind fun _ => pushPorts _ _
  rcases nd with ⟨_ | target, sha, tha⟩
  · exact hrest
  · exact (readAt _ _).bind fun addr => (push _).bind fun _ => hrest

theorem extractTransport (nwProto : UInt8) : Sticky (extractTransport pkt nwProto) := by
  refine (gets _).bind fun size => (gets _).bind fun hdr => ?_
  have hports : ∀ p q, Sticky (do
      let src ← Flows.be16At pkt p
      let dst ← Flows.be16At pkt q
      Flows.pushPorts src dst) := fun p q => (be16At p).bind fun _ => (be16At q).bind fun _ => pushPorts _ _
  have hicmp : ∀ p q, Sticky (do
      let type ← Flows.u8At pkt p
      let code ← Flows.u8At pkt q
      Flows.pushPorts (htonsOf type) (htonsOf code)) := fun p q =>
    (u8At p).bind fun _ => (u8At q).bind fun _ => pushPorts _ _
  refine .ite (.ite ?_ (.pure _)) (.ite (.ite (hports _ _) (.pure _)) (.ite (.ite (hports _ _) (.pure _))
    (.ite (.ite (hicmp _ _) (.pure _)) (.ite (.ite ?_ (.pure _)) (.ite (.ite extractIcmpv6 (.pure _)) (.pure _))))))
  · exact (push _).bind fun _ => (be16At _).bind fun _ => (push _).bind fun _ => hports _ _
  · exact (u8At _).bind fun _ => (push _).bind fun _ => (u8At _).bind fun _ => (push _).bind fun _ =>
      (be32At _).bind fun _ => push _

theorem extractUpper (nw : NwInfo) : Sticky (extractUpper pkt nw) :=
  bind (fun _ hs => hs) fun _ => (push _).bind fun _ => .ite (extractTransport _) (.pure _)

end Sticky

theorem ends_dataPull_below {n : Nat} (h : s.size < n) : Ends E (fun _ s' => s'.wrapped = true) R (dataPull n) s := by
  rw [dataPull, ends_bind, ends_gets, ends_bind]
  simp [h]

/-- An IPv4 packet whose total length does not cover its header. -/
theorem ends_extractPacket_uncovered (huncovered : ¬ Ipv4Covered pkt) (md : PktMetadata) :
    Ends (fun _ => True) (fun _ s => s.wrapped = true) (fun s => s.wrapped = true) (extractPacket pkt)
      (Parser.init pkt md) := by
  obtain ⟨hipv4, hlt⟩ := Classical.not_imp.1 huncovered
  have htype := hipv4.type
  rw [extractPacket, ends_bind]
  refine (ends_parseEthernet (good_init pkt md) rfl rfl).mono ?_ ?_
  · rintro _ s ⟨hlength, rfl, hdata, hsize, hs⟩
    rw [ends_bind]
    refine (ends_extractMpls hs (frameType pkt)).mono (fun _ s' hs' => ?_) fun _ hR => hR
    rw [htype] at hs'
    subst hs'
    rw [ends_bind, ends_modify]
    rw [if_pos htype, ends_bind]
    have h₁ : Good pkt 58 50 0 { s' with l3Ofs := some (s'.data % 2 ^ 16) } :=
      ⟨hs.wrapped, hs.inside, (hs.mono (by decide) le_rfl).filled⟩
    refine ends_parseIpv4 h₁ hlength htype hdata hsize ?_ fun hnot => absurd hipv4 hnot
    intro _ nw s₂ hs₂ hsize₂
    rw [ends_bind]
    refine (ends_dataPull_below (hsize₂ ▸ Nat.not_le.1 hlt)).mono (fun _ s₃ hs₃ => ?_) fun _ hR => hR
    exact Sticky.extractUpper nw s₃ hs₃
  · rintro s ⟨hshort, -⟩
    exact absurd hipv4.ethernet (Nat.not_le.2 hshort)

/-! ## Inside the packet and the destination -/

theorem meets_parsePacket {md : PktMetadata} {P : Parser → Prop}
    (h : Ends E (fun _ => P) P (extractPacket pkt) (Parser.init pkt md)) : (parsePacket pkt md).Meets E P := by
  unfold Ends at h
  unfold parsePacket
  rcases hx : extractPacket pkt (Parser.init pkt md) with e | ⟨_ | a, s⟩ <;> rw [hx] at h <;> exact h

theorem parsePacket_ended (hcovered : Ipv4Covered pkt) (md : PktMetadata) :
    ∃ s, parsePacket pkt md = .ok s ∧ Ended pkt s :=
  (meets_parsePacket (ends_extractPacket hcovered md)).exists_ok

theorem parsePacket_uncovered (huncovered : ¬ Ipv4Covered pkt) {md : PktMetadata} (h : parsePacket pkt md = .ok s) :
    s.wrapped = true := by
  have hends := meets_parsePacket (ends_extractPacket_uncovered huncovered md)
  rw [h] at hends
  exact hends

theorem miniflowExtract_eq {md : PktMetadata} (h : parsePacket pkt md = .ok s) (dst : List UInt8) :
    miniflowExtract pkt md dst = .ok (s, s.pushes.foldl Push.run ⟨[], 0, dst⟩) := by
  rw [miniflowExtract, h]

theorem parsePacket_of_miniflowExtract {md : PktMetadata} {dst : List UInt8} {mf : MfCtx}
    (h : miniflowExtract pkt md dst = .ok (s, mf)) : parsePacket pkt md = .ok s := by
  unfold miniflowExtract at h
  grind

theorem Ended.filled (h : Ended pkt s) : ∃ F pend, F.At 69 60 pend ∧ (pend = 0 ↔ ExtHdrsFit pkt) ∧
    (mapOf F.units).length = F.units.length ∧ ∀ dst, Holds dst F (s.pushes.foldl Push.run ⟨[], 0, dst⟩) := by
  obtain ⟨pend, hgood, hpend⟩ := h
  obtain ⟨F, hF, hat⟩ := hgood.filled
  refine ⟨F, pend, hat, hpend, ?_, hF.holds⟩
  rw [← length_map, map_val_mapOf hat.ordered hat.below]

/-- `miniflow_extract` reads bytes of the packet only, its counter does not go below zero, and it writes no more than
`FLOW_MAX_PACKET_U64S` units, all of them in the destination, exactly for the packets that are not IPv4 packets with a
total length below their header length. -/
theorem miniflowExtract_inside_iff (pkt : List UInt8) (md : PktMetadata) :
    (∀ dst : List UInt8, dst.length = 8 * flowMaxPacketU64s → ∃ s mf, miniflowExtract pkt md dst = .ok (s, mf) ∧
      s.wrapped = false ∧ mf.data ≤ flowMaxPacketU64s ∧ mf.map.length ≤ flowMaxPacketU64s ∧
      mf.buf.length = dst.length) ↔ Ipv4Covered pkt := by
  constructor
  · intro hinside
    by_contra huncovered
    obtain ⟨s, mf, hextract, hwrapped, -⟩ := hinside (List.replicate (8 * flowMaxPacketU64s) 0) length_replicate
    have hwrapped' := parsePacket_uncovered huncovered (parsePacket_of_miniflowExtract hextract)
    rw [hwrapped] at hwrapped'
    cases hwrapped'
  · intro hcovered dst hdst
    obtain ⟨s, hparse, hended⟩ := parsePacket_ended hcovered md
    have hgood : s.wrapped = false := by
      obtain ⟨pend, hgood, -⟩ := hended
      exact hgood.wrapped
    obtain ⟨F, pend, hat, -, hlength, hholds⟩ := hended.filled
    have hmf := hholds dst
    have hcount := hat.count
    have hbytes := hat.bytes
    have hmax : flowMaxPacketU64s = 60 := rfl
    refine ⟨s, _, miniflowExtract_eq hparse dst, hgood, ?_, ?_, ?_⟩
    · rw [hmf.data]
      omega
    · rw [hmf.map]
      omega
    · rw [hmf.buf, length_append, length_drop]
      omega

/-- Metadata of a packet that came in on port 0. -/
def PktMetadata.zero : PktMetadata where
  recircId := 0
  dpHash := 0
  skbPriority := 0
  pktMark := 0
  ctState := 0
  ctZone := 0
  ctMark := 0
  ctLabel := List.replicate 16 0
  ctLabel_length := rfl
  inPort := 0
  tunnel := List.replicate 336 0
  tunnel_length := length_replicate

/-- An Ethernet frame with an IPv4 header for TCP whose total length is zero. -/
def tcpWithoutTotal : List UInt8 :=
  [2, 0, 0, 0, 0, 1, 2, 0, 0, 0, 0, 2, 8, 0,
    0x45, 0, 0, 0, 0, 0, 0, 0, 64, 6, 0, 0, 10, 0, 0, 1, 10, 0, 0, 2]

/-- The TCP header of such a packet is read behind its end. -/
theorem tcpWithoutTotal_read_outside :
    miniflowExtract tcpWithoutTotal PktMetadata.zero (List.replicate (8 * flowMaxPacketU64s) 0) = .error .outside := rfl

/-! ## A function of the packet -/

/-- The map and the values do not depend on what the destination held, and as many units are pushed as the map has,
exactly for the packets whose extension headers are not cut off. -/
theorem miniflowExtract_fixed_iff (pkt : List UInt8) (md : PktMetadata) (hcovered : Ipv4Covered pkt) :
    ((∀ dst dst' : List UInt8, dst.length = 8 * flowMaxPacketU64s → dst'.length = 8 * flowMaxPacketU64s →
      ∃ s mf mf', miniflowExtract pkt md dst = .ok (s, mf) ∧ miniflowExtract pkt md dst' = .ok (s, mf') ∧
        mf.map = mf'.map ∧ mf.buf.take (8 * mf.map.length) = mf'.buf.take (8 * mf'.map.length)) ↔ ExtHdrsFit pkt) ∧
    ((∀ dst : List UInt8, dst.length = 8 * flowMaxPacketU64s →
      ∃ s mf, miniflowExtract pkt md dst = .ok (s, mf) ∧ mf.data = mf.map.length) ↔ ExtHdrsFit pkt) := by
  obtain ⟨s, hparse, hended⟩ := parsePacket_ended hcovered md
  obtain ⟨F, pend, hat, hpend, hlength, hholds⟩ := hended.filled
  have hbytes := hat.bytes
  have hcount := hat.count
  have hlt := hat.pend_lt
  have hmap : ∀ dst, (s.pushes.foldl Push.run ⟨[], 0, dst⟩).map.length = F.units.length := fun dst => by
    rw [(hholds dst).map, hlength]
  refine ⟨⟨fun hsame => ?_, fun hfit dst dst' _ _ => ?_⟩, ⟨fun hcounted => ?_, fun hfit dst _ => ?_⟩⟩
  · -- two destinations that differ in every byte
    obtain ⟨s', mf, mf', hmf, hmf', -, hvalues⟩ := hsame (List.replicate 480 0) (List.replicate 480 1)
      length_replicate length_replicate
    rw [miniflowExtract_eq hparse] at hmf hmf'
    cases hmf
    cases hmf'
    rw [← hpend]
    by_contra hhalf
    have hbyte := congrArg (fun bs : List UInt8 => bs[F.bytes.length]?) hvalues
    have hless : F.bytes.length < 8 * F.units.length := by omega
    rw [hmap, hmap, (hholds _).buf, (hholds _).buf] at hbyte
    simp only [getElem?_take, getElem?_append_right le_rfl, Nat.sub_self, getElem?_drop, Nat.add_zero,
      getElem?_replicate, if_pos hless] at hbyte
    rw [if_pos (by omega), if_pos (by omega)] at hbyte
    cases hbyte
  · refine ⟨s, _, _, miniflowExtract_eq hparse dst, miniflowExtract_eq hparse dst', ?_, ?_⟩
    · rw [(hholds dst).map, (hholds dst').map]
    · have hfull : 8 * F.units.length = F.bytes.length := by
        have := hpend.2 hfit
        omega
      rw [hmap, hmap, (hholds dst).buf, (hholds dst').buf, hfull, take_left, take_left]
  · obtain ⟨s', mf, hmf, hdata⟩ := hcounted (List.replicate 480 0) length_replicate
    rw [miniflowExtract_eq hparse] at hmf
    cases hmf
    rw [hmap, (hholds _).data] at hdata
    rw [← hpend]
    omega
  · refine ⟨s, _, miniflowExtract_eq hparse dst, ?_⟩
    rw [hmap, (hholds _).data]
    have := hpend.2 hfit
    omega

/-- An Ethernet frame with an IPv6 header that announces hop-by-hop options and no payload. -/
def ipv6CutOff : List UInt8 :=
  [2, 0, 0, 0, 0, 1, 2, 0, 0, 0, 0, 2, 0x86, 0xdd,
    0x60, 0, 0, 0, 0, 0, 0, 64] ++ List.replicate 32 1

/-- Half of the last unit is what the destination held. -/
theorem ipv6CutOff_depends : ∃ s mf mf',
    miniflowExtract ipv6CutOff PktMetadata.zero (List.replicate (8 * flowMaxPacketU64s) 0) = .ok (s, mf) ∧
    miniflowExtract ipv6CutOff PktMetadata.zero (List.replicate (8 * flowMaxPacketU64s) 1) = .ok (s, mf') ∧
    mf.map = mf'.map ∧ mf.map.length = 8 ∧ mf.data = 7 ∧
      mf.buf.take (8 * mf.map.length) ≠ mf'.buf.take (8 * mf'.map.length) := by
  refine ⟨_, _, _, rfl, rfl, ?_⟩
  decide +kernel

theorem ipv6CutOff_uncounted : Ipv4Covered ipv6CutOff ∧
    ¬ ∀ dst : List UInt8, dst.length = 8 * flowMaxPacketU64s →
      ∃ s mf, miniflowExtract ipv6CutOff PktMetadata.zero dst = .ok (s, mf) ∧ mf.data = mf.map.length := by
  have hcovered : Ipv4Covered ipv6CutOff := fun hfits => absurd hfits.type (by decide +kernel)
  have hipv6 : Ipv6Fits ipv6CutOff := by
    constructor <;> decide +kernel
  refine ⟨hcovered, fun hcounted => ?_⟩
  have hfit := (miniflowExtract_fixed_iff ipv6CutOff PktMetadata.zero hcovered).2.1 hcounted hipv6
  exact absurd hfit (by decide +kernel)

end LinkerOvs.Flows
