/-
What `miniflow_extract` does with any packet: the parser stays inside the packet and its pushes follow each other
without gaps, except where the lengths in the packet contradict each other.
-/
import LinkerOvs.Flows.MiniflowFill

namespace LinkerOvs.Flows

open Cls Jump List

/-! ## Headers by their place in the packet -/

/-- The two bytes at an offset, as the machine word they are. -/
def word16 (pkt : List UInt8) (p : Nat) : UInt16 := loadBe16 (pkt.getD p 0) (pkt.getD (p + 1) 0)

/-- The four bytes at an offset, likewise. -/
def word32 (pkt : List UInt8) (p : Nat) : UInt32 :=
  loadBe32 (pkt.getD p 0) (pkt.getD (p + 1) 0) (pkt.getD (p + 2) 0) (pkt.getD (p + 3) 0)

section

variable (pkt : List UInt8)

/-- The place of the Ethernet type, after the VLAN tag if there is one. -/
def typeOfs : Nat := if word16 pkt 12 = htons ethTypeVlan ∧ 18 ≤ pkt.length then 16 else 12

/-- There is an LLC and SNAP header after the length field of an 802.3 frame. -/
def HasSnap : Prop := typeOfs pkt + 10 ≤ pkt.length ∧ Bytes.read pkt (typeOfs pkt + 2) 6 = [0xaa, 0xaa, 3, 0, 0, 0]

instance : Decidable (HasSnap pkt) := inferInstanceAs (Decidable (_ ∧ _))

def frameType : UInt16 :=
  if ethTypeMin ≤ ntohs (word16 pkt (typeOfs pkt)) then word16 pkt (typeOfs pkt)
  else if HasSnap pkt ∧ ethTypeMin ≤ ntohs (word16 pkt (typeOfs pkt + 8)) then word16 pkt (typeOfs pkt + 8)
  else htons flowDlTypeNone

def netOfs : Nat :=
  if ¬ ethTypeMin ≤ ntohs (word16 pkt (typeOfs pkt)) ∧ HasSnap pkt then typeOfs pkt + 10 else typeOfs pkt + 2

/-- The length of the IPv4 header, by its own length field. -/
def ipv4HdrLen : Nat := ((pkt.getD (netOfs pkt) 0) &&& 15).toNat * 4

/-- The length of the IPv4 packet, by its total length field. -/
def ipv4TotLen : Nat := (ntohs (word16 pkt (netOfs pkt + 2))).toNat

/-- The frame has an IPv4 header whose lengths fit in it, with up to 255 bytes of padding. -/
structure Ipv4Fits : Prop where
  ethernet : 14 ≤ pkt.length
  type : frameType pkt = htons ethTypeIp
  header : netOfs pkt + 20 ≤ pkt.length
  hdrLen : 20 ≤ ipv4HdrLen pkt
  options : netOfs pkt + ipv4HdrLen pkt ≤ pkt.length
  total : netOfs pkt + ipv4TotLen pkt ≤ pkt.length
  padding : pkt.length - netOfs pkt - ipv4TotLen pkt ≤ 255

/-- The total length of an IPv4 packet covers its header. -/
def Ipv4Covered : Prop := Ipv4Fits pkt → ipv4HdrLen pkt ≤ ipv4TotLen pkt

def isExtHdr (nwProto : UInt8) : Bool :=
  nwProto = ipprotoHopopts || nwProto = ipprotoRouting || nwProto = ipprotoDstopts || nwProto = ipprotoAh ||
    nwProto = ipprotoFragment

/-- The length of an extension header, from its second byte. -/
def extHdrLen (nwProto len : UInt8) : Nat :=
  if nwProto = ipprotoAh then (len.toNat + 2) * 4
  else if nwProto = ipprotoFragment then 8
  else (len.toNat + 1) * 8

/-- The extension headers from a place on are all within the bytes that are left, up to a later fragment. -/
def extFits : Nat → UInt8 → Nat → Nat → Bool
  | 0, _, _, _ => true
  | fuel + 1, nwProto, ofs, size =>
    if isExtHdr nwProto then
      8 ≤ size && extHdrLen nwProto (pkt.getD (ofs + 1) 0) ≤ size &&
        (nwProto = ipprotoFragment && word16 pkt (ofs + 2) &&& htons 0xfff8 ≠ 0 ||
          extFits fuel (pkt.getD ofs 0) (ofs + extHdrLen nwProto (pkt.getD (ofs + 1) 0))
            (size - extHdrLen nwProto (pkt.getD (ofs + 1) 0)))
    else true

/-- The length of the IPv6 payload, by its length field. -/
def ipv6PayloadLen : Nat := (ntohs (word16 pkt (netOfs pkt + 4))).toNat

/-- The frame has an IPv6 header whose payload length fits in it, with up to 255 bytes of padding. -/
structure Ipv6Fits : Prop where
  ethernet : 14 ≤ pkt.length
  type : frameType pkt = htons ethTypeIpv6
  header : netOfs pkt + 40 ≤ pkt.length
  payload : netOfs pkt + 40 + ipv6PayloadLen pkt ≤ pkt.length
  padding : pkt.length - netOfs pkt - 40 - ipv6PayloadLen pkt ≤ 255

/-- The extension headers of an IPv6 packet are not cut off. -/
def ExtHdrsFit : Prop :=
  Ipv6Fits pkt → extFits pkt (ipv6PayloadLen pkt + 1) (pkt.getD (netOfs pkt + 6) 0) (netOfs pkt + 40) (ipv6PayloadLen pkt) =
    true

end

/-! ## Reading and pulling -/

variable {pkt : List UInt8} {α : Type} {E : Fault → Prop} {R : Parser → Prop} {s : Parser}

variable {p n c : Nat}

theorem ends_readAt {Q : List UInt8 → Parser → Prop} (h : p + n ≤ pkt.length) :
    Ends E Q R (readAt pkt p n) s ↔ Q (Bytes.read pkt p n) s := by
  rw [readAt, if_pos h, ends_pure]

theorem getD_read {i : Nat} (hi : i < n) : (Bytes.read pkt p n).getD i 0 = pkt.getD (p + i) 0 := by
  simp [Bytes.read, hi]

theorem length_read (h : p + n ≤ pkt.length) : (Bytes.read pkt p n).length = n := by
  rw [Bytes.read, length_take, length_drop]
  omega

theorem ends_u8At {Q : UInt8 → Parser → Prop} (h : p + 1 ≤ pkt.length) :
    Ends E Q R (u8At pkt p) s ↔ Q (pkt.getD p 0) s := by
  rw [u8At, ends_bind, ends_readAt h, ends_pure, getD_read (by decide), Nat.add_zero]

theorem ends_be16At {Q : UInt16 → Parser → Prop} (h : p + 2 ≤ pkt.length) :
    Ends E Q R (be16At pkt p) s ↔ Q (word16 pkt p) s := by
  rw [be16At, ends_bind, ends_readAt h, getD_read (by decide), getD_read (by decide)]
  rfl

theorem ends_be32At {Q : UInt32 → Parser → Prop} (h : p + 4 ≤ pkt.length) :
    Ends E Q R (be32At pkt p) s ↔ Q (word32 pkt p) s := by
  rw [be32At, ends_bind, ends_readAt h, ends_pure, getD_read (by decide), getD_read (by decide), getD_read (by decide),
    getD_read (by decide)]
  rfl

theorem ends_push {p : Push} {Q : Unit → Parser → Prop} :
    Ends E Q R (push p) s ↔ Q () { s with pushes := s.pushes ++ [p] } := Iff.rfl

/-- The parser after `n` bytes that were there. -/
def Parser.pulled (s : Parser) (n : Nat) : Parser := { s with data := s.data + n, size := s.size - n }

theorem Parser.pulled_data (s : Parser) (n : Nat) : (s.pulled n).data = s.data + n := rfl

theorem Parser.pulled_size (s : Parser) (n : Nat) : (s.pulled n).size = s.size - n := rfl

theorem ends_dataPull {Q : Nat → Parser → Prop} (h : n ≤ s.size) :
    Ends E Q R (dataPull n) s ↔ Q s.data (s.pulled n) := by
  rw [dataPull, ends_bind, ends_gets, ends_bind, ends_modify]
  have hwrapped : decide (s.size < n) = false := decide_eq_false (Nat.not_lt.2 h)
  rw [sizeMinus, if_pos h, hwrapped, Bool.or_false]
  rfl

theorem ends_dataTryPull {Q : Option Nat → Parser → Prop} (hsome : n ≤ s.size → Q (some s.data) (s.pulled n))
    (hnone : s.size < n → Q none s) : Ends E Q R (dataTryPull n) s := by
  rw [dataTryPull, ends_bind, ends_gets]
  by_cases h : n ≤ s.size
  · rw [if_pos h, ends_bind, ends_dataPull h]
    exact hsome h
  · rw [if_neg h]
    exact hnone (Nat.not_le.1 h)

/-! ## Inside the packet, without gaps -/

/-- The counter counts bytes of the packet, and the pushes have filled `count` units below `next` at most and `pend`
bytes of a last one. -/
structure Good (pkt : List UInt8) (next count pend : Nat) (s : Parser) : Prop where
  wrapped : s.wrapped = false
  inside : s.data + s.size ≤ pkt.length
  filled : ∃ F, Filled s.pushes F ∧ F.At next count pend

theorem Fill.At.mod {F : Fill} {next count pend : Nat} (h : F.At next count pend) : F.bytes.length % 8 = pend := by
  have hbytes := h.bytes
  have hlt := h.pend_lt
  omega

namespace Good

variable {next count pend : Nat}

variable {n : Nat} {value : List UInt8}

theorem pulled (h : Good pkt next count pend s) (hn : n ≤ s.size) : Good pkt next count pend (s.pulled n) := by
  have hinside := h.inside
  refine ⟨h.wrapped, ?_, h.filled⟩
  rw [Parser.pulled_data, Parser.pulled_size]
  omega

theorem mono {next' count' : Nat} (h : Good pkt next count pend s) (hnext : next ≤ next') (hcount : count ≤ count') :
    Good pkt next' count' pend s := by
  obtain ⟨F, hF, hat⟩ := h.filled
  exact ⟨h.wrapped, h.inside, F, hF, hat.ordered, fun u hu => (hat.below u hu).trans_le hnext, hat.count.trans hcount,
    hat.pend_lt, hat.bytes⟩

/-- A push that goes on where the last one ended. -/
theorem push {next' count' pend' : Nat} {p : Push} (h : Good pkt next count pend s)
    (hp : ∀ F : Fill, F.At next count pend → ∃ F', p.Fills F F' ∧ F'.At next' count' pend') :
    Good pkt next' count' pend' { s with pushes := s.pushes ++ [p] } := by
  obtain ⟨F, hF, hat⟩ := h.filled
  obtain ⟨F', hfills, hat'⟩ := hp F hat
  exact ⟨h.wrapped, h.inside, F', hF.snoc hfills, hat'⟩

section

variable (h : Good pkt next count 0 s)
include h

theorem words (ofs : Nat) (hofs : next ≤ ofs / 8) (hvalue : value.length = 8 * n) :
    Good pkt (ofs / 8 + n) (count + n) 0 { s with pushes := s.pushes ++ [.words ofs value n] } := by
  refine h.push fun F hF => ⟨_, .words hF.mod hvalue, hF.extend hofs (by decide) ?_⟩
  have := hF.bytes
  omega

theorem words32 (ofs : Nat) (hofs : next ≤ ofs / 8) (hvalue : value.length = 4 * n) :
    Good pkt (ofs / 8 + (n + 1) / 2) (count + (n + 1) / 2) 0
      { s with pushes := s.pushes ++ [.words32 ofs value n] } := by
  refine h.push fun F hF => ⟨_, .words32 hF.mod hvalue, hF.extend hofs (by decide) ?_⟩
  have := hF.bytes
  rw [length_append, length_replicate]
  omega

theorem macs (ofs : Nat) (hofs : next ≤ ofs / 8) (hvalue : value.length = 12) :
    Good pkt (ofs / 8 + 2) (count + 2) 4 { s with pushes := s.pushes ++ [.macs ofs value] } := by
  refine h.push fun F hF => ⟨_, .macs hF.mod hvalue, hF.extend hofs (by decide) ?_⟩
  have := hF.bytes
  omega

theorem lower32 (ofs : Nat) (value : UInt32) (hofs : next ≤ ofs / 8 ∧ ofs % 8 = 0) :
    Good pkt (ofs / 8 + 1) (count + 1) 4 { s with pushes := s.pushes ++ [.uint32 ofs value] } := by
  refine h.push fun F hF => ⟨_, .lower32 hF.mod hofs.2, hF.extend hofs.1 (by decide) ?_⟩
  have := hF.bytes
  rw [length_store32]
  omega

end

theorem upper32 (h : Good pkt next count 4 s) (ofs : Nat) (value : UInt32) (hofs : ofs % 8 = 4) :
    Good pkt next count 0 { s with pushes := s.pushes ++ [.uint32 ofs value] } := by
  refine h.push fun F hF => ⟨_, .upper32 hF.mod hofs, hF.continue (by decide) ?_⟩
  have := hF.bytes
  rw [length_store32]
  omega

theorem first16 (h : Good pkt next count 0 s) (ofs : Nat) (value : UInt16) (hofs : next ≤ ofs / 8 ∧ ofs % 8 = 0) :
    Good pkt (ofs / 8 + 1) (count + 1) 2 { s with pushes := s.pushes ++ [.uint16 ofs value] } := by
  refine h.push fun F hF => ⟨_, .first16 hF.mod hofs.2, hF.extend hofs.1 (by decide) ?_⟩
  have := hF.bytes
  rw [length_store16]
  omega

theorem next16 (h : Good pkt next count pend s) (ofs : Nat) (value : UInt16) (hofs : ofs % 8 = pend)
    (hpend : pend = 2 ∨ pend = 4 ∨ pend = 6) :
    Good pkt next count ((pend + 2) % 8) { s with pushes := s.pushes ++ [.uint16 ofs value] } := by
  refine h.push fun F hF => ⟨_, .next16 (hF.mod.trans hofs.symm) (by omega), hF.continue (by omega) ?_⟩
  have := hF.bytes
  rw [length_store16]
  omega

theorem padTo64 (h : Good pkt next count pend s) (ofs : Nat) (hofs : ofs % 8 = pend) (hpend : pend ≠ 0) :
    Good pkt next count 0 { s with pushes := s.pushes ++ [.padTo64 ofs] } := by
  refine h.push fun F hF => ⟨_, .padTo64 (hF.mod.trans hofs.symm) (by omega), hF.continue (by decide) ?_⟩
  have := hF.bytes
  rw [length_replicate]
  omega

end Good

/-! ## The transport layer -/

theorem ends_pushPorts {next c' : Nat} (h : Good pkt next c' 0 s) (hnext : next ≤ 68) (hc : c' + 1 ≤ c)
    (src dst : UInt16) : Ends E (fun _ => Good pkt 69 c 0) R (pushPorts src dst) s := by
  exact (((h.first16 Field.tpSrc.ofs src ⟨hnext, by decide⟩).next16 Field.tpDst.ofs dst (by decide) (.inl rfl)).padTo64
    Field.igmpGroupIp4.ofs (by decide) (by decide)).mono le_rfl hc

/-- What the options may leave: link-layer addresses, and a target that is in the packet. -/
structure NdInfo.Good (pkt : List UInt8) (nd : NdInfo) : Prop where
  sha : nd.arpSha.length = 6
  tha : nd.arpTha.length = 6
  target : ∀ t ∈ nd.ndTarget, t + 16 ≤ pkt.length

theorem NdInfo.good_none : NdInfo.Good pkt ⟨none, ethAddrZero, ethAddrZero⟩ := ⟨rfl, rfl, fun _ ht => by cases ht⟩

/-- The loop over the options takes bytes that are there, and some at each turn. -/
theorem ends_parseNdOptions : ∀ {fuel : Nat} {nd : NdInfo} {s : Parser}, s.size < fuel → Good pkt 64 c 0 s → nd.Good pkt →
    Ends E (fun nd s => Good pkt 64 c 0 s ∧ nd.Good pkt) R (parseNdOptions pkt fuel nd) s
  | 0, nd, s, hfuel, h, hnd => absurd hfuel (Nat.not_lt_zero _)
  | fuel + 1, nd, s, hfuel, h, hnd => by
    have hinside := h.inside
    rw [parseNdOptions, ends_bind, ends_gets]
    split
    · exact ⟨h, hnd⟩
    simp (disch := omega) only [ends_bind, ends_gets, ends_u8At]
    split
    · exact ⟨h, hnd⟩
    have hpull : ∀ nd : NdInfo, nd.Good pkt →
        Ends E (fun _ => Ends E (fun nd s => Good pkt 64 c 0 s ∧ nd.Good pkt) R (parseNdOptions pkt fuel nd)) R
          (dataTryPull ((pkt.getD (s.data + 1) 0).toNat * 8)) s := by
      refine fun nd hnd => ends_dataTryPull (fun hle => ?_) (fun hlt => by omega)
      refine ends_parseNdOptions ?_ (h.pulled hle) hnd
      rw [Parser.pulled_size]
      omega
    have hmac : s.data + 2 + 6 ≤ pkt.length := by omega
    simp (disch := omega) only [ends_bind, ends_u8At]
    split
    · split
      · rw [ends_bind, ends_readAt hmac, ends_bind]
        exact hpull _ ⟨length_read hmac, hnd.tha, hnd.target⟩
      · exact ⟨h, NdInfo.good_none⟩
    split
    · split
      · rw [ends_bind, ends_readAt hmac, ends_bind]
        exact hpull _ ⟨hnd.sha, length_read hmac, hnd.target⟩
      · exact ⟨h, NdInfo.good_none⟩
    · rw [ends_bind]
      exact hpull _ hnd

theorem ends_parseIcmpv6 {icmp : Nat} (h : Good pkt 64 c 0 s) (hicmp : icmp + 2 ≤ pkt.length) :
    Ends E (fun nd s => Good pkt 64 c 0 s ∧ nd.Good pkt) R (parseIcmpv6 pkt icmp) s := by
  have hinside := h.inside
  rw [parseIcmpv6]
  simp (disch := omega) only [ends_bind, ends_u8At]
  split
  · rw [ends_bind]
    refine ends_dataTryPull (fun hle => ?_) fun _ => ⟨h, NdInfo.good_none⟩
    rw [ends_bind]
    refine ends_parseNdOptions (Nat.lt_succ_self _) (h.pulled hle) ⟨rfl, rfl, ?_⟩
    rintro t ⟨⟩
    omega
  · exact ⟨h, NdInfo.good_none⟩

theorem ends_extractIcmpv6 (h : Good pkt 64 c 0 s) (hsize : 8 ≤ s.size) :
    Ends E (fun _ => Good pkt 69 (c + 5) 0) R (extractIcmpv6 pkt) s := by
  have hinside := h.inside
  -- the addresses, the padding and the ports, after the target if there is one
  have hrest : ∀ {nd : NdInfo} {next c' : Nat} {s' : Parser}, nd.Good pkt → Good pkt next c' 0 s' → next ≤ 66 →
      c' ≤ c + 2 → Ends E (fun _ => Good pkt 69 (c + 5) 0) R (do
        push (.macs Field.arpSha.ofs (nd.arpSha ++ nd.arpTha))
        push (.padTo64 Field.tcpFlags.ofs)
        let type ← u8At pkt s.data
        let code ← u8At pkt (s.data + 1)
        pushPorts (htonsOf type) (htonsOf code)) s' := by
    intro nd next c' s' hnd h' hnext hc
    simp (disch := omega) only [ends_bind, ends_push, ends_u8At]
    have hlength : (nd.arpSha ++ nd.arpTha).length = 12 := by rw [length_append, hnd.sha, hnd.tha]
    have hmacs := (h'.macs Field.arpSha.ofs hnext hlength).padTo64 Field.tcpFlags.ofs (by decide) (by decide)
    exact ends_pushPorts hmacs (by decide) (by omega) _ _
  rw [extractIcmpv6, ends_bind, ends_dataPull hsize, ends_bind]
  refine (ends_parseIcmpv6 (h.pulled hsize) (by omega)).mono ?_ fun _ hR => hR
  rintro ⟨target, sha, tha⟩ s' ⟨h', hnd⟩
  cases target with
  | none => exact hrest hnd h' (by decide) (by omega)
  | some t =>
    have ht := hnd.target t rfl
    rw [ends_bind, ends_readAt ht, ends_bind]
    exact hrest hnd (h'.words Field.ndTarget.ofs (by decide) (length_read ht)) (by decide) le_rfl

theorem ends_extractTransport (h : Good pkt 64 c 0 s) (nwProto : UInt8) :
    Ends E (fun _ => Good pkt 69 (c + 5) 0) R (extractTransport pkt nwProto) s := by
  have hinside := h.inside
  have hskip : Ends E (fun _ => Good pkt 69 (c + 5) 0) R (pure ()) s := h.mono (by decide) (by omega)
  have hports : ∀ src dst, Ends E (fun _ => Good pkt 69 (c + 5) 0) R (pushPorts src dst) s :=
    ends_pushPorts h (by decide) (by omega)
  rw [extractTransport, ends_bind, ends_gets, ends_bind, ends_gets]
  split
  · split
    · simp (disch := omega) only [ends_bind, ends_push, ends_be16At]
      have hflags := (h.lower32 (Field.arpTha.ofs + 2) 0 (by decide)).upper32 Field.tcpFlags.ofs
        (word16 pkt (s.data + 12) &&& htons 0x0fff).toUInt32 (by decide)
      exact ends_pushPorts hflags (by decide) (by omega) _ _
    · exact hskip
  split
  · split
    · simp (disch := omega) only [ends_bind, ends_be16At]
      exact hports _ _
    · exact hskip
  split
  · split
    · simp (disch := omega) only [ends_bind, ends_be16At]
      exact hports _ _
    · exact hskip
  split
  · split
    · simp (disch := omega) only [ends_bind, ends_u8At]
      exact hports _ _
    · exact hskip
  split
  · split
    · simp (disch := omega) only [ends_bind, ends_push, ends_u8At, ends_be32At]
      have hcodes := (h.first16 Field.tpSrc.ofs (htonsOf (pkt.getD s.data 0)) (by decide)).next16 Field.tpDst.ofs
        (htonsOf (pkt.getD (s.data + 1) 0)) (by decide) (.inl rfl)
      exact (hcodes.upper32 Field.igmpGroupIp4.ofs _ (by decide)).mono le_rfl (by omega)
    · exact hskip
  split
  · split
    · next hsize => exact ends_extractIcmpv6 h hsize
    · exact hskip
  · exact hskip

/-! ## The link layer -/

theorem Parser.pulled_pulled (s : Parser) (m n : Nat) : (s.pulled m).pulled n = s.pulled (m + n) := by
  unfold Parser.pulled
  rw [Nat.add_assoc, Nat.sub_sub]

theorem typeOfs_le (h : 14 ≤ pkt.length) : typeOfs pkt + 2 ≤ pkt.length := by
  unfold typeOfs
  split
  · next hvlan => exact hvlan.2
  · exact h

theorem netOfs_le (h : 14 ≤ pkt.length) : netOfs pkt ≤ pkt.length := by
  unfold netOfs
  split
  · next hsnap => exact hsnap.2.1
  · exact typeOfs_le h

theorem ends_parseVlan (hdata : s.data = 0) (hsize : s.size = pkt.length) (h : 14 ≤ pkt.length) :
    Ends E (fun _ s' => s' = s.pulled (typeOfs pkt)) R (parseVlan pkt) s := by
  rw [parseVlan]
  simp (disch := omega) only [ends_bind, ends_dataPull, ends_be16At, ends_gets]
  rw [Parser.pulled_size, hsize, hdata]
  unfold typeOfs
  by_cases hvlan : word16 pkt 12 = htons ethTypeVlan ∧ 18 ≤ pkt.length
  · have hfits : word16 pkt 12 = htons ethTypeVlan ∧ 6 ≤ pkt.length - 12 := ⟨hvlan.1, by omega⟩
    have hqp : 4 ≤ (s.pulled 12).size := by rw [Parser.pulled_size]; omega
    have htci : (s.pulled 12).data + 2 + 2 ≤ pkt.length := by rw [Parser.pulled_data]; omega
    rw [if_pos hvlan, if_pos hfits, ends_bind, ends_dataPull hqp, ends_bind, ends_be16At htci]
    exact Parser.pulled_pulled s 12 4
  · have hfits : ¬ (word16 pkt 12 = htons ethTypeVlan ∧ 6 ≤ pkt.length - 12) := fun hcond => hvlan ⟨hcond.1, by omega⟩
    simp [*]

theorem ends_parseEthertype (hdata : s.data = 0) (hsize : s.size = pkt.length) (h : 14 ≤ pkt.length) :
    Ends E (fun dlType s' => dlType = frameType pkt ∧ s' = s.pulled (netOfs pkt)) R (parseEthertype pkt)
      (s.pulled (typeOfs pkt)) := by
  have hle := typeOfs_le h
  have hdata' : ∀ n, (s.pulled n).data = n := fun n => by rw [Parser.pulled_data, hdata, Nat.zero_add]
  have hsize' : ∀ n, (s.pulled n).size = pkt.length - n := fun n => by rw [Parser.pulled_size, hsize]
  have htype : 2 ≤ (s.pulled (typeOfs pkt)).size := by rw [hsize']; omega
  rw [parseEthertype, ends_bind, ends_dataPull htype, hdata', ends_bind, Parser.pulled_pulled, ends_be16At hle]
  by_cases hmin : ethTypeMin ≤ ntohs (word16 pkt (typeOfs pkt))
  · rw [if_pos hmin, frameType, if_pos hmin, netOfs, if_neg fun hcond => hcond.1 hmin]
    exact ⟨rfl, rfl⟩
  have hnone : ¬ HasSnap pkt → htons flowDlTypeNone = frameType pkt ∧
      s.pulled (typeOfs pkt + 2) = s.pulled (netOfs pkt) := by
    intro hsnap
    rw [frameType, if_neg hmin, if_neg fun hcond => hsnap hcond.1, netOfs, if_neg fun hcond => hsnap hcond.2]
    exact ⟨rfl, rfl⟩
  rw [if_neg hmin, ends_bind, ends_gets, hsize']
  split
  · exact hnone fun hsnap => by have := hsnap.1; omega
  simp (disch := omega) only [ends_bind, ends_gets, hdata', ends_readAt]
  split
  · next hhdr => exact hnone fun hsnap => hhdr hsnap.2
  next hhdr =>
  have hsnap : HasSnap pkt := ⟨by omega, by simpa using hhdr⟩
  have hpull : 8 ≤ (s.pulled (typeOfs pkt + 2)).size := by rw [hsize']; omega
  have hsnapType : typeOfs pkt + 8 + 2 ≤ pkt.length := hsnap.1
  rw [ends_bind, ends_dataPull hpull, ends_bind, Parser.pulled_pulled,
    show typeOfs pkt + 2 + 8 = netOfs pkt by rw [netOfs, if_pos ⟨hmin, hsnap⟩], ends_be16At hsnapType, frameType,
    if_neg hmin]
  by_cases htype : ethTypeMin ≤ ntohs (word16 pkt (typeOfs pkt + 8))
  · simp [*]
  · simp [*]

/-- The Ethernet header: the pointer is at the network header, or the frame is too short. -/
theorem ends_parseEthernet (h : Good pkt 53 c 0 s) (hdata : s.data = 0) (hsize : s.size = pkt.length) :
    Ends E (fun dlType s' => 14 ≤ pkt.length ∧ dlType = frameType pkt ∧ s'.data = netOfs pkt ∧
        s'.size = pkt.length - netOfs pkt ∧ Good pkt 56 (c + 2) 0 s')
      (fun s' => pkt.length < 14 ∧ Good pkt 53 c 0 s') (parseEthernet pkt) s := by
  rw [parseEthernet, ends_bind, ends_gets, hsize]
  split
  · next hshort => exact ⟨hshort, h⟩
  next hlong =>
  have hlength : 14 ≤ pkt.length := Nat.not_lt.1 hlong
  have hmacs : 0 + 12 ≤ pkt.length := by omega
  rw [ends_bind, ends_gets, ends_bind, hdata, ends_readAt hmacs, ends_bind, ends_push, ends_bind]
  set s₁ : Parser := { s with pushes := s.pushes ++ [.macs Field.dlDst.ofs (Bytes.read pkt 0 12)] }
  have hdata₁ : s₁.data = 0 := hdata
  have hsize₁ : s₁.size = pkt.length := hsize
  have h₁ : Good pkt 56 (c + 2) 4 s₁ := h.macs Field.dlDst.ofs (by decide) (length_read hmacs)
  refine (ends_parseVlan hdata₁ hsize₁ hlength).mono ?_ fun _ hR => hR
  rintro tci _ rfl
  rw [ends_bind]
  refine (ends_parseEthertype hdata₁ hsize₁ hlength).mono ?_ fun _ hR => hR
  rintro _ _ ⟨rfl, rfl⟩
  have hpulled := h₁.pulled (hsize₁.symm ▸ netOfs_le hlength)
  have htype := (hpulled.next16 Field.dlType.ofs (frameType pkt) (by decide) (by decide)).next16 Field.vlanTci.ofs tci
    (by decide) (by decide)
  refine ⟨hlength, rfl, ?_, ?_, htype⟩
  · rw [Parser.pulled_data, hdata₁, Nat.zero_add]
  · rw [Parser.pulled_size, hsize₁]

/-! ## MPLS -/

/-- The loop takes the entries that it counts. -/
theorem ends_parseMplsLoop {next start : Nat} : ∀ {fuel count : Nat} {s : Parser}, s.size < fuel → Good pkt next c 0 s →
    start + 4 * count ≤ s.data →
    Ends E (fun count' s' => Good pkt next c 0 s' ∧ start + 4 * count' ≤ s'.data) R (parseMplsLoop pkt fuel count) s
  | 0, count, s, hfuel, h, hcount => absurd hfuel (Nat.not_lt_zero _)
  | fuel + 1, count, s, hfuel, h, hcount => by
    have hinside := h.inside
    rw [parseMplsLoop, ends_bind]
    refine ends_dataTryPull (fun hle => ?_) fun _ => ⟨h, hcount⟩
    have hcount' : start + 4 * (count + 1) ≤ (s.pulled 4).data := by rw [Parser.pulled_data]; omega
    simp (disch := omega) only [ends_bind, ends_be16At]
    split
    · exact ⟨h.pulled hle, hcount'⟩
    · refine ends_parseMplsLoop ?_ (h.pulled hle) hcount'
      rw [Parser.pulled_size]
      omega

theorem ends_extractMpls (h : Good pkt 56 c 0 s) (dlType : UInt16) :
    Ends E (fun _ s' => if ethTypeIsMpls dlType then Good pkt 58 (c + 2) 0 s' else s' = s) R (extractMpls pkt dlType) s := by
  by_cases hmpls : ethTypeIsMpls dlType
  · simp only [extractMpls, if_pos hmpls]
    rw [ends_bind, ends_gets, ends_bind, ends_modify, ends_bind, parseMpls, ends_bind, ends_gets, ends_bind]
    have h' : Good pkt 56 c 0 { s with l25Ofs := some (s.data % 2 ^ 16) } := ⟨h.wrapped, h.inside, h.filled⟩
    refine (ends_parseMplsLoop (Nat.lt_succ_self _) h' (show s.data + 4 * 0 ≤ s.data by omega)).mono ?_ fun _ hR => hR
    rintro count s' ⟨hs', hcount⟩
    have hinside := hs'.inside
    have hread : s.data + 4 * min count 3 ≤ pkt.length := by omega
    rw [ends_pure, ends_bind, ends_readAt hread]
    have hlses := hs'.words32 Field.mplsLse.ofs (by decide) (length_read hread)
    exact hlses.mono (show 448 / 8 + (min count 3 + 1) / 2 ≤ 58 by omega) (by omega)
  · simp only [extractMpls, if_neg hmpls]
    exact rfl

/-! ## ARP -/

theorem ends_extractArp (h : Good pkt 58 c 0 s) : Ends E (fun _ => Good pkt 68 (c + 4) 0) R (extractArp pkt) s := by
  have hinside := h.inside
  rw [extractArp, ends_bind]
  refine ends_dataTryPull (fun hle => ?_) fun _ => h.mono (by decide) (by omega)
  have h' := h.pulled hle
  simp (disch := omega) only [ends_bind, ends_be16At, ends_u8At]
  split
  · simp (disch := omega) only [ends_bind, ends_be32At, ends_push, ends_be16At]
    have haddrs := (h'.lower32 Field.nwSrc.ofs (word32 pkt (s.data + 14)) (by decide)).upper32 Field.nwDst.ofs
      (word32 pkt (s.data + 24)) (by decide)
    -- the link-layer addresses, after the operation if it is pushed
    have hrest : ∀ {next c' : Nat} {s' : Parser}, Good pkt next c' 0 s' → next ≤ 66 → c' ≤ c + 2 →
        Ends E (fun _ => Good pkt 68 (c + 4) 0) R (do
          let sha ← readAt pkt (s.data + 8) 6
          let tha ← readAt pkt (s.data + 18) 6
          push (.macs Field.arpSha.ofs (sha ++ tha))
          push (.padTo64 Field.tcpFlags.ofs)) s' := by
      intro next c' s' hs' hnext hc
      simp (disch := omega) only [ends_bind, ends_readAt, ends_push]
      have hlength : (Bytes.read pkt (s.data + 8) 6 ++ Bytes.read pkt (s.data + 18) 6).length = 12 := by
        rw [length_append, length_read (by omega), length_read (by omega)]
      have hmacs := (hs'.macs Field.arpSha.ofs hnext hlength).padTo64 Field.tcpFlags.ofs (by decide) (by decide)
      exact hmacs.mono le_rfl (by omega)
    split
    · refine hrest ((haddrs.lower32 Field.ipv6Label.ofs 0 (by decide)).upper32 Field.nwFrag.ofs _ (by decide))
        (by decide) (by omega)
    · exact hrest haddrs (by decide) (by omega)
  · exact h'.mono (by decide) (by omega)

/-! ## The network layer -/

/-- IPv4 up to the end of the header. What follows from pulling the header is left to the two cases: the counter is at
the total length then, which may be less. -/
theorem ends_parseIpv4 {Q : NwInfo → Parser → Prop} (h : Good pkt 58 c 0 s) (hlength : 14 ≤ pkt.length)
    (htype : frameType pkt = htons ethTypeIp) (hdata : s.data = netOfs pkt) (hsize : s.size = pkt.length - netOfs pkt)
    (hfits : Ipv4Fits pkt → ∀ nw s', Good pkt 64 (c + 2) 4 s' → s'.size = ipv4TotLen pkt →
      Ends E Q R (do let _ ← dataPull (ipv4HdrLen pkt); pure nw) s')
    (hout : ¬ Ipv4Fits pkt → R s) : Ends E Q R (parseIpv4 pkt) s := by
  have hhdrLen : (pkt.getD (netOfs pkt) 0 &&& 15).toNat * 4 = ipv4HdrLen pkt := rfl
  have htotLen : (ntohs (word16 pkt (netOfs pkt + 2))).toNat = ipv4TotLen pkt := rfl
  rw [parseIpv4, ends_bind, ends_gets, ends_bind, ends_gets, hsize, hdata]
  split
  · next hshort => exact hout fun hfits => by have := hfits.header; omega
  simp (disch := omega) only [ends_bind, ends_u8At, hhdrLen]
  split
  · next hihl => exact hout fun hfits => Nat.not_lt.2 hfits.hdrLen hihl
  next hihl =>
  split
  · next hoptions => exact hout fun hfits => by have := hfits.options; omega
  simp (disch := omega) only [ends_bind, ends_be16At, htotLen]
  split
  · next htotal => exact hout fun hfits => by have := hfits.total; omega
  split
  · next hpad => exact hout fun hfits => Nat.not_lt.2 hfits.padding hpad
  next hpad =>
  have hipv4 : Ipv4Fits pkt :=
    ⟨hlength, htype, by omega, Nat.not_lt.1 hihl, by omega, by omega, Nat.not_lt.1 hpad⟩
  have haddrs : netOfs pkt + 12 + 8 ≤ pkt.length := by omega
  simp (disch := omega) only [ends_bind, ends_modify, ends_readAt, ends_push, ends_u8At, ends_be16At]
  refine hfits hipv4 _ _ ?_ rfl
  have h' : Good pkt 58 c 0 { s with l2PadSize := pkt.length - netOfs pkt - ipv4TotLen pkt, size := ipv4TotLen pkt } :=
    ⟨h.wrapped, hdata.symm ▸ hipv4.total, h.filled⟩
  exact (h'.words Field.nwSrc.ofs (by decide) (length_read haddrs)).lower32 Field.ipv6Label.ofs 0 (by decide)

theorem extHdrLen_ge (nwProto len : UInt8) : 8 ≤ extHdrLen nwProto len := by
  unfold extHdrLen
  split
  · omega
  · split
    · exact le_rfl
    · omega

/-- A header that ends the loop: a later fragment. -/
def isLater (pkt : List UInt8) (nwProto : UInt8) (ofs : Nat) : Prop :=
  nwProto = ipprotoFragment ∧ word16 pkt (ofs + 2) &&& htons 0xfff8 ≠ 0

/-- One more extension header: it is there as a whole, and it is a later fragment or the headers after it fit. -/
theorem extFits_succ {fuel ofs size : Nat} {nwProto : UInt8} (hext : isExtHdr nwProto = true) :
    extFits pkt (fuel + 1) nwProto ofs size = true ↔ extHdrLen nwProto (pkt.getD (ofs + 1) 0) ≤ size ∧
      (isLater pkt nwProto ofs ∨
        extFits pkt fuel (pkt.getD ofs 0) (ofs + extHdrLen nwProto (pkt.getD (ofs + 1) 0))
          (size - extHdrLen nwProto (pkt.getD (ofs + 1) 0)) = true) := by
  have hge := extHdrLen_ge nwProto (pkt.getD (ofs + 1) 0)
  rw [extFits, if_pos hext]
  simp only [Bool.and_eq_true, Bool.or_eq_true, decide_eq_true_eq]
  constructor
  · rintro ⟨⟨-, hle⟩, hrest⟩
    exact ⟨hle, hrest⟩
  · rintro ⟨hle, hrest⟩
    exact ⟨⟨hge.trans hle, hle⟩, hrest⟩

/-- The loop over the extension headers ends exactly when they fit, and jumps otherwise. -/
theorem ends_parseExtHdrs {next pend : Nat} : ∀ {fuel : Nat} {nwFrag nwProto : UInt8} {s : Parser}, s.size < fuel →
    Good pkt next c pend s →
    Ends E (fun _ s' => Good pkt next c pend s' ∧ extFits pkt fuel nwProto s.data s.size = true)
      (fun s' => Good pkt next c pend s' ∧ extFits pkt fuel nwProto s.data s.size = false)
      (parseExtHdrs pkt fuel nwFrag nwProto) s
  | 0, nwFrag, nwProto, s, hfuel, h => absurd hfuel (Nat.not_lt_zero _)
  | fuel + 1, nwFrag, nwProto, s, hfuel, h => by
    have hinside := h.inside
    rw [parseExtHdrs]
    split
    next hproto =>
      have hext : ¬ isExtHdr nwProto = true := by simp [isExtHdr, hproto]
      rw [ends_pure, extFits, if_neg hext]
      exact ⟨h, rfl⟩
    next hproto =>
    have hext : isExtHdr nwProto = true := by
      by_contra hnot
      exact hproto (by simpa [isExtHdr, not_or, and_assoc] using hnot)
    have hge := extHdrLen_ge nwProto (pkt.getD (s.data + 1) 0)
    have hfits : extFits pkt (fuel + 1) nwProto s.data s.size = true ↔ _ := extFits_succ hext
    generalize extFits pkt (fuel + 1) nwProto s.data s.size = fits at hfits ⊢
    generalize hlen : extHdrLen nwProto (pkt.getD (s.data + 1) 0) = len at hge hfits
    -- the rest of the loop, after a header that is not a later fragment
    have hrest : len ≤ s.size → ¬ isLater pkt nwProto s.data → ∀ nwFrag,
        Ends E (fun _ s' => Good pkt next c pend s' ∧ fits = true) (fun s' => Good pkt next c pend s' ∧ fits = false)
          (parseExtHdrs pkt fuel nwFrag (pkt.getD s.data 0)) (s.pulled len) := by
      intro hle hlater nwFrag
      rw [and_iff_right hle, or_iff_right hlater, ← Bool.eq_iff_iff] at hfits
      rw [hfits]
      refine ends_parseExtHdrs ?_ (h.pulled hle)
      rw [Parser.pulled_size]
      omega
    have hout : s.size < len → Good pkt next c pend s ∧ fits = false :=
      fun hlt => ⟨h, Bool.eq_false_iff.2 fun hfit => Nat.not_le.2 hlt (hfits.1 hfit).1⟩
    rw [ends_bind, ends_gets]
    split
    · next hshort => exact hout (hshort.trans_le hge)
    simp (disch := omega) only [ends_bind, ends_gets, ends_u8At]
    split
    · next hopts =>
      obtain rfl : ((pkt.getD (s.data + 1) 0).toNat + 1) * 8 = len := by
        rw [← hlen]
        rcases hopts with rfl | rfl | rfl <;> rfl
      simp (disch := omega) only [ends_bind, ends_u8At]
      exact ends_dataTryPull (fun hle => hrest hle (fun hlater => absurd (hlater.1 ▸ hopts) (by decide)) _) hout
    next hopts =>
    split
    · next hah =>
      obtain rfl : ((pkt.getD (s.data + 1) 0).toNat + 2) * 4 = len := by rw [← hlen, extHdrLen, if_pos hah]
      simp (disch := omega) only [ends_bind, ends_u8At]
      exact ends_dataTryPull (fun hle => hrest hle (fun hlater => absurd (hlater.1 ▸ hah) (by decide)) _) hout
    next hah =>
    have hfragment : nwProto = ipprotoFragment := by
      grind
    obtain rfl : 8 = len := by rw [← hlen, extHdrLen, if_neg hah, if_pos hfragment]
    rw [ends_bind]
    refine ends_dataTryPull (fun hle => ?_) hout
    simp (disch := omega) only [ends_bind, ends_be16At]
    split
    · split
      · next hlater => exact ⟨h.pulled hle, hfits.2 ⟨hle, .inl ⟨hfragment, hlater⟩⟩⟩
      · next hlater => exact hrest hle (fun hfrag => hlater hfrag.2) _
    · next hzero =>
      refine hrest hle (fun hfrag => hfrag.2 ?_) _
      rw [not_not.1 hzero]
      rfl

/-- IPv6: the parser goes on exactly when the lengths and the extension headers fit. Where they do not, it jumps with the
label pushed, unless the header was not there at all. -/
theorem ends_parseIpv6 (h : Good pkt 58 c 0 s) (hlength : 14 ≤ pkt.length)
    (htype : frameType pkt = htons ethTypeIpv6) (hdata : s.data = netOfs pkt) (hsize : s.size = pkt.length - netOfs pkt) :
    Ends E (fun _ s' => Good pkt 64 (c + 5) 4 s' ∧ ExtHdrsFit pkt)
      (fun s' => Good pkt 64 (c + 5) 4 s' ∧ ¬ ExtHdrsFit pkt ∨ Good pkt 58 c 0 s' ∧ ExtHdrsFit pkt) (parseIpv6 pkt) s := by
  have hnet := netOfs_le hlength
  have hlen : (ntohs (word16 pkt (netOfs pkt + 4))).toNat = ipv6PayloadLen pkt := rfl
  rw [parseIpv6, ends_bind, ends_gets]
  split
  · next hshort => exact .inr ⟨h, fun hfits => absurd hfits.header (by omega)⟩
  next hheader =>
  have hle : 40 ≤ s.size := Nat.not_lt.1 hheader
  have h₁ := h.pulled hle
  have hplen : netOfs pkt + 4 + 2 ≤ pkt.length := by omega
  rw [ends_bind, ends_dataPull hle, hdata, ends_bind, ends_be16At hplen, ends_bind, ends_gets, Parser.pulled_size, hsize,
    hlen]
  split
  · next hpayload => exact .inr ⟨h₁, fun hfits => by have := hfits.payload; omega⟩
  next hpayload =>
  split
  · next hpad => exact .inr ⟨h₁, fun hfits => absurd hpad (Nat.not_lt.2 hfits.padding)⟩
  next hpad =>
  have hipv6 : Ipv6Fits pkt := ⟨hlength, htype, by omega, by omega, Nat.not_lt.1 hpad⟩
  have hsrc : netOfs pkt + 8 + 16 ≤ pkt.length := by omega
  have hdst : netOfs pkt + 24 + 16 ≤ pkt.length := by omega
  simp (disch := omega) only [ends_bind, ends_modify, ends_readAt, ends_push, ends_be32At, ends_u8At, ends_gets]
  have h₂ : Good pkt 58 c 0 { s.pulled 40 with
      l2PadSize := pkt.length - netOfs pkt - 40 - ipv6PayloadLen pkt, size := ipv6PayloadLen pkt } := by
    refine ⟨h.wrapped, ?_, h.filled⟩
    show s.data + 40 + ipv6PayloadLen pkt ≤ pkt.length
    omega
  have hsrcs := h₂.words (n := 2) Field.ipv6Src.ofs (by decide) (length_read hsrc)
  have hdsts := hsrcs.words (n := 2) Field.ipv6Dst.ofs (by decide) (length_read hdst)
  have h₃ := hdsts.lower32 Field.ipv6Label.ofs (word32 pkt (netOfs pkt) &&& htonl 0x000fffff) (by decide)
  have hfits : ExtHdrsFit pkt ↔ extFits pkt (ipv6PayloadLen pkt + 1) (pkt.getD (netOfs pkt + 6) 0) (s.data + 40)
      (ipv6PayloadLen pkt) = true := by
    rw [hdata]
    exact ⟨fun hall => hall hipv6, fun hext _ => hext⟩
  refine (ends_parseExtHdrs (Nat.lt_succ_self _) h₃).mono ?_ ?_
  · rintro ⟨frag, proto⟩ s' ⟨hs', hext⟩
    exact ⟨hs', hfits.2 hext⟩
  · rintro s' ⟨hs', hext⟩
    exact .inl ⟨hs', fun hall => Bool.eq_false_iff.1 hext (hfits.1 hall)⟩

/-! ## The metadata -/

theorem Good.pushTunnel (h : Good pkt 0 0 0 s) (md : PktMetadata) :
    Good pkt 42 42 0 { s with pushes := s.pushes ++ pushTunnel md } := by
  have hread : ∀ p n, p + n ≤ 336 → (Bytes.read md.tunnel p n).length = n := fun p n hle =>
    length_read (md.tunnel_length.symm ▸ hle)
  have hlen : md.presentLen < 256 := UInt8.toNat_lt _
  unfold Flows.pushTunnel
  split
  · have hhead := h.words (n := 8) 0 le_rfl (hread 0 64 (by decide))
    split
    · split
      · rw [append_cons]
        exact hhead.words (n := 34) 64 le_rfl (hread 64 272 (by decide))
      · exact hhead.mono (by decide) (by decide)
    split
    · rw [append_cons, append_cons]
      have hpresent := hhead.words (n := 1) 64 le_rfl (hread 64 8 (by decide))
      have hopts := hpresent.words 80 (by decide) (hread 80 (8 * ((md.presentLen + 7) / 8)) (by omega))
      exact hopts.mono (show 10 + (md.presentLen + 7) / 8 ≤ 42 by omega) (by omega)
    · exact hhead.mono (by decide) (by decide)
  · rw [append_nil]
    exact h.mono (by decide) (by decide)

theorem Good.pushMetadata (h : Good pkt 42 42 0 s) (md : PktMetadata) :
    Good pkt 53 48 0 { s with pushes := s.pushes ++ pushMetadata md } := by
  unfold Flows.pushMetadata
  rw [← append_assoc, ← append_assoc, ← append_assoc]
  have hmark : Good pkt 48 43 0 { s with pushes := s.pushes ++ if md.skbPriority ≠ 0 ∨ md.pktMark ≠ 0 then
      [.uint32 Field.skbPriority.ofs md.skbPriority, .uint32 Field.pktMark.ofs md.pktMark] else [] } := by
    split
    · rw [append_cons]
      exact (h.lower32 Field.skbPriority.ofs _ (by decide)).upper32 Field.pktMark.ofs _ (by decide)
    · rw [append_nil]
      exact h.mono (by decide) (by decide)
  have hport := (hmark.lower32 Field.dpHash.ofs md.dpHash (by decide)).upper32 Field.inPort.ofs md.inPort (by decide)
  dsimp only at hport
  rw [← append_cons] at hport
  generalize s.pushes ++ _ ++ [Push.uint32 Field.dpHash.ofs md.dpHash, .uint32 Field.inPort.ofs md.inPort] = pushes at hport ⊢
  have hct : Good pkt 50 45 0 { s with pushes := pushes ++ if md.recircId ≠ 0 ∨ md.ctState ≠ 0 then
      [.uint32 Field.recircId.ofs md.recircId, .uint16 Field.ctState.ofs md.ctState, .uint16 Field.ctZone.ofs md.ctZone]
      else [] } := by
    split
    · rw [append_cons, append_cons]
      have hrecirc := hport.lower32 Field.recircId.ofs md.recircId (by decide)
      exact (hrecirc.next16 Field.ctState.ofs _ (by decide) (by decide)).next16 Field.ctZone.ofs _ (by decide) (by decide)
    · rw [append_nil]
      exact hport.mono (by decide) (by decide)
  generalize (pushes ++ if md.recircId ≠ 0 ∨ md.ctState ≠ 0 then _ else []) = pushes' at hct ⊢
  split
  · have hpad := (hct.lower32 Field.ctMark.ofs md.ctMark (by decide)).padTo64 Field.pad1.ofs (by decide) (by decide)
    dsimp only at hpad
    rw [← append_cons] at hpad
    rw [← append_assoc]
    split
    · exact hpad.words (n := 2) Field.ctLabel.ofs (by decide) md.ctLabel_length
    · rw [append_nil]
      exact hpad.mono (by decide) (by decide)
  · rw [append_nil]
    exact hct.mono (by decide) (by decide)

theorem good_init (pkt : List UInt8) (md : PktMetadata) : Good pkt 53 48 0 (Parser.init pkt md) := by
  have hempty : Good pkt 0 0 0 ⟨0, pkt.length, false, [], 0, none, none, none⟩ :=
    ⟨rfl, (Nat.zero_add _).le, ⟨[], []⟩, .nil, .nil, forall_mem_nil _, le_rfl, by decide, rfl⟩
  exact (hempty.pushTunnel md).pushMetadata md

end LinkerOvs.Flows
