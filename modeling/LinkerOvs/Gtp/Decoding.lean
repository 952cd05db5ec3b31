/-
What the GTP manager reads of well-formed messages. The header of a GTP-C message comes out as it was encoded but for
the first octet of its sequence number, and the walk over a Create Session Response finds the values it looks for
wherever their elements stand.
-/
import LinkerOvs.Gtp.Crash

namespace LinkerOvs

open List

/-! ## Words on the wire -/

theorem loadBe32_store32 (x : UInt32) :
    loadBe32 x.toUInt8 (x >>> 8).toUInt8 (x >>> 16).toUInt8 (x >>> 24).toUInt8 = x := by
  refine UInt32.toBitVec_inj.mp (BitVec.eq_of_getLsbD_eq fun i hi => ?_)
  simp [loadBe32, -UInt32.toUInt32_toUInt8]
  grind

theorem loadBe16_store16 (x : UInt16) : loadBe16 x.toUInt8 (x >>> 8).toUInt8 = x := by
  refine UInt16.toBitVec_inj.mp (BitVec.eq_of_getLsbD_eq fun i hi => ?_)
  simp [loadBe16, -UInt16.toUInt16_toUInt8]
  grind

theorem ntohs_htons (x : UInt16) : ntohs (htons x) = x := by
  refine UInt16.toBitVec_inj.mp (BitVec.eq_of_getLsbD_eq fun i hi => ?_)
  simp [ntohs, htons]
  grind

theorem ntohl_htonl (x : UInt32) : ntohl (htonl x) = x := htonl_ntohl x

theorem ntohl_and (x y : UInt32) : ntohl (x &&& y) = ntohl x &&& ntohl y := by
  refine UInt32.toBitVec_inj.mp (BitVec.eq_of_getLsbD_eq fun i hi => ?_)
  simp [getLsbD_ntohl, hi, -BitVec.getLsbD_eq_getElem]

namespace Gtp

/-- The octets `u` stand in the packet at `o`. -/
def At (p : DpPacket) (o : Nat) (u : List UInt8) : Prop := u <+: p.data.drop o

variable {p : DpPacket} {o : Nat} {u v : List UInt8}

namespace At

theorem tail (h : At p o (u ++ v)) : At p (o + u.length) v := by
  obtain ⟨rest, h⟩ := h
  exact ⟨rest, by rw [← drop_drop, ← h, append_assoc, drop_left]⟩

theorem head (h : At p o (u ++ v)) : At p o u := (prefix_append u v).trans h

theorem at? (h : At p o (u ++ v)) (hpos : 0 < u.length) : p.at? o u.length = some u := by
  obtain ⟨rest, h⟩ := h
  have hlen := congrArg length h
  rw [length_append, length_append, length_drop] at hlen
  rw [DpPacket.at?, if_pos (by omega), ← h, append_assoc, take_left]

theorem readU8 {b : UInt8} (h : At p o (b :: u)) : readU8 p o = .ok b := by
  have hat : p.at? o 1 = some [b] := at? (u := [b]) h Nat.one_pos
  rw [Gtp.readU8, DpPacket.u8At, hat]
  rfl

theorem readBe16 {x : UInt16} (h : At p o (store16 x ++ u)) : readBe16 p o = .ok x := by
  have hat : p.at? o 2 = some (store16 x) := h.at? Nat.two_pos
  rw [Gtp.readBe16, DpPacket.be16At, hat]
  exact congrArg _ (loadBe16_store16 x)

theorem readBe32 {x : UInt32} (h : At p o (store32 x ++ u)) : readBe32 p o = .ok x := by
  have hat : p.at? o 4 = some (store32 x) := h.at? (Nat.succ_pos 3)
  rw [Gtp.readBe32, DpPacket.be32At, hat]
  exact congrArg _ (loadBe32_store32 x)

end At

/-! ## Headers -/

/-- A GTP-C header of version 2 as it is sent. -/
structure GtpcFields where
  piggybacked : Bool
  hasTeid : Bool
  spare : Fin 8
  messageType : UInt8
  messageLength : UInt16
  teid : UInt32
  seqNum : Fin (2 ^ 24)
  lastOctet : UInt8

/-- The first octet: the version, the two flags and bits of no meaning. -/
def flagOctet (piggybacked hasTeid : Bool) (spare : Fin 8) : UInt8 :=
  0x40 ||| (if piggybacked then 0x10 else 0) ||| (if hasTeid then 0x08 else 0) ||| .ofNat spare

theorem flagOctet_bits : ∀ piggybacked hasTeid spare, (flagOctet piggybacked hasTeid spare &&& 0xe0) >>> 5 = 2 ∧
    decide ((flagOctet piggybacked hasTeid spare &&& 0x08) ≠ 0) = hasTeid := by decide

namespace GtpcFields

/-- The sequence number and the octet behind it. -/
def lastWord (h : GtpcFields) : UInt32 := .ofNat (h.seqNum * 256 + h.lastOctet.toNat)

def encode (h : GtpcFields) : List UInt8 :=
  [flagOctet h.piggybacked h.hasTeid h.spare, h.messageType] ++ (store16 (htons h.messageLength) ++
    ((if h.hasTeid then store32 (htonl h.teid) else []) ++ store32 (htonl h.lastWord)))

/-- What `parse_gtpc_msg_header` should return for the header at `o`. -/
def parsed (h : GtpcFields) (o : Nat) : GtpcMsgHeader where
  version := 2
  hasTeid := h.hasTeid
  messageType := h.messageType
  messageLength := h.messageLength
  teid := if h.hasTeid then h.teid else 0
  seqNum := .ofNat h.seqNum
  headerLength := if h.hasTeid then 12 else 8
  bodyOffset := o + h.encode.length

/-- The mask hits the first octet on the wire, so only sixteen bits of the sequence number are left. -/
theorem maskedSeqNum (h : GtpcFields) :
    ntohl (htonl h.lastWord &&& 0xFFFFFF00) >>> 8 = .ofNat (h.seqNum % 2 ^ 16) := by
  have hoctet := h.lastOctet.toNat_lt
  have hmask : (ntohl 0xFFFFFF00).toNat = 2 ^ 24 - 1 := by decide
  rw [ntohl_and, ntohl_htonl]
  apply UInt32.toNat_inj.mp
  rw [UInt32.toNat_shiftRight, UInt32.toNat_and, hmask, Nat.and_two_pow_sub_one_eq_mod, Nat.shiftRight_eq_div_pow,
    show (8 : UInt32).toNat % 32 = 8 from rfl, lastWord, UInt32.toNat_ofNat', UInt32.toNat_ofNat']
  omega

/-- The header is returned with all but the first octet of its sequence number. -/
theorem parse_encode {h : GtpcFields} (ho : p.getUdpPayload = some o) (hat : At p o h.encode) :
    parseGtpcMsgHeader p = .ok (some { h.parsed o with seqNum := .ofNat (h.seqNum % 2 ^ 16) }) := by
  have h1 : At p (o + 1) _ := At.tail (u := [_]) hat
  have h2 : At p (o + 2) _ := hat.tail
  have h4 : At p (o + 4) _ := h2.tail
  obtain ⟨hversion, hflag⟩ := flagOctet_bits h.piggybacked h.hasTeid h.spare
  rw [parseGtpcMsgHeader, ho, deref, Except.ok_bind, At.readU8 hat, Except.ok_bind]
  dsimp only
  rw [hversion, hflag, h1.readU8, Except.ok_bind, h2.readBe16, Except.ok_bind, ntohs_htons]
  cases ht : h.hasTeid
  all_goals simp only [ht, if_true, if_false, Bool.false_eq_true, nil_append] at h4 ⊢
  · rw [pure_bind, At.readBe32 (u := []) h4, Except.ok_bind, h.maskedSeqNum]
    simp [parsed, ht, encode]
    rfl
  · have h8 : At p (o + 8) _ := h4.tail
    rw [h4.readBe32, Except.ok_bind, At.readBe32 (u := []) h8, Except.ok_bind, h.maskedSeqNum]
    simp [parsed, ht, encode, ntohl_htonl]
    rfl

/-- The sequence number comes out whole just if its first octet is zero. -/
theorem parseGtpcMsgHeader_encode (h : GtpcFields) (ho : p.getUdpPayload = some o) (hat : At p o h.encode) :
    parseGtpcMsgHeader p = .ok (some (h.parsed o)) ↔ (h.seqNum : Nat) < 2 ^ 16 := by
  rw [parse_encode ho hat]
  constructor
  · intro heq
    injection heq with heq
    have := congrArg (fun m => m.seqNum.toNat) (Option.some.inj heq)
    simp only [parsed, UInt32.toNat_ofNat'] at this
    omega
  · intro hlt
    rw [Nat.mod_eq_of_lt hlt]
    rfl

/-- The header as all there is behind a UDP header. -/
def packet (h : GtpcFields) : DpPacket := ⟨replicate 8 0 ++ h.encode, some 0, 0⟩

/-- A Create Session Request with a sequence number. -/
def request (seqNum : Fin (2 ^ 24)) : GtpcFields := ⟨false, true, 0, 32, 8, 0, seqNum, 0⟩

theorem parseGtpcMsgHeader_encode_request : parseGtpcMsgHeader (request 1).packet = .ok (some ((request 1).parsed 8)) :=
  (parseGtpcMsgHeader_encode (request 1) (by decide) ⟨[], rfl⟩).2 (by decide)

theorem parseGtpcMsgHeader_seqNum_cut :
    parseGtpcMsgHeader (request 0x10000).packet ≠ .ok (some ((request 0x10000).parsed 8)) := by
  decide

end GtpcFields

/-! ## The body of a Create Session Response -/

structure Ie where
  type : UInt8
  inst : UInt8
  payload : List UInt8
  short : payload.length < 2 ^ 16

def Ie.encode (e : Ie) : List UInt8 := [e.type] ++ (store16 (htons (.ofNat e.payload.length)) ++ ([e.inst] ++ e.payload))

def encodeIes (es : List Ie) : List UInt8 := es.flatMap Ie.encode

/-- The word behind the first octet of the payload, where an F-TEID has its TEID and a PAA its address. -/
def Ie.HasWord (e : Ie) (x : UInt32) : Prop := ∃ first rest, e.payload = [first] ++ (store32 x ++ rest)

/-- A bearer context whose first F-TEID has this TEID. -/
def Ie.HasBearer (e : Ie) (t5 : UInt32) : Prop :=
  ∃ es f, e.payload = encodeIes es ∧ es.find? (·.type = ieFteid) = some f ∧ f.HasWord (htonl t5)

variable {e : Ie} {es : List Ie} {x : UInt32}

theorem length_encode (e : Ie) : e.encode.length = e.payload.length + 4 := by
  simp [Ie.encode, store16]

/-- What the loops read of the element at `o`, and where the rest stands. -/
theorem At.ie (h : At p o (e.encode ++ u)) : Gtp.readBe16 p (o + 1) = .ok (htons (.ofNat e.payload.length)) ∧
    Gtp.readU8 p o = .ok e.type ∧ At p (o + 4) e.payload ∧ At p (o + e.payload.length + 4) u := by
  have hrest := h.tail
  have h1 : At p (o + 1) _ := h.head.tail
  have h3 : At p (o + 4) _ := h1.tail.tail
  exact ⟨h1.readBe16, At.readU8 h, h3, hrest⟩

theorem Ie.ntohs_length (e : Ie) : (ntohs (htons (.ofNat e.payload.length))).toNat = e.payload.length := by
  rw [ntohs_htons, UInt16.toNat_ofNat', Nat.mod_eq_of_lt e.short]

theorem Ie.HasWord.read (h : e.HasWord x) (hat : At p (o + 4) e.payload) : readBe32 p (o + 5) = .ok x := by
  obtain ⟨first, rest, hp⟩ := h
  rw [hp] at hat
  exact hat.tail.readBe32

theorem length_encodeIes_cons (e : Ie) (es : List Ie) :
    (encodeIes (e :: es)).length = e.payload.length + 4 + (encodeIes es).length := by
  rw [encodeIes, flatMap_cons, length_append, length_encode, encodeIes]

/-- The inner loop finds the first F-TEID. -/
theorem walkBearer_encode {t5 t : UInt32} : ∀ {es : List Ie} {fuel o : Nat}, At p o (encodeIes es) →
    (encodeIes es).length ≤ fuel → (∃ f, es.find? (·.type = ieFteid) = some f ∧ f.HasWord (htonl t5)) →
    walkBearer p (o + (encodeIes es).length) fuel o t = .ok t5
  | [], _, _, _, _, ⟨_, hf, _⟩ => by cases hf
  | e :: es, fuel, o, hat, hfuel, ⟨f, hf, hword⟩ => by
    obtain ⟨hlen, htype, hpay, hrest⟩ := At.ie hat
    rw [length_encodeIes_cons] at hfuel ⊢
    obtain ⟨fuel, rfl⟩ : ∃ n, fuel = n + 1 := ⟨fuel - 1, by omega⟩
    rw [walkBearer, if_pos (by omega), hlen, Except.ok_bind, htype, Except.ok_bind]
    by_cases h87 : e.type = ieFteid
    · rw [find?_cons_of_pos (by simpa using h87)] at hf
      cases hf
      rw [if_pos h87, hword.read hpay, Except.ok_bind, ntohl_htonl]
      rfl
    · rw [find?_cons_of_neg (by simpa using h87)] at hf
      have ih := walkBearer_encode (t := t) hrest (show _ ≤ fuel by omega) ⟨f, hf, hword⟩
      rwa [if_neg h87, e.ntohs_length, ← Nat.add_assoc, ← Nat.add_assoc]

/-- A value of the walk over the elements still to come: it is there and its element is not to come again, or it is zero
and just one element brings it. -/
def Pending (type : UInt8) (brings : Ie → UInt32 → Prop) (es : List Ie) (now x : UInt32) : Prop :=
  (now = x ∧ es.filter (·.type = type) = []) ∨ (now = 0 ∧ ∃ e, es.filter (·.type = type) = [e] ∧ brings e x)

section

variable {type : UInt8} {brings : Ie → UInt32 → Prop} {now : UInt32}

theorem Pending.skip (h : Pending type brings (e :: es) now x) (ht : e.type ≠ type) : Pending type brings es now x := by
  rwa [Pending, filter_cons_of_neg (by simpa using ht)] at h

theorem Pending.found (h : Pending type brings (e :: es) now x) (ht : e.type = type) :
    brings e x ∧ Pending type brings es x x := by
  rw [Pending, filter_cons_of_pos (by simpa using ht)] at h
  rcases h with ⟨-, ⟨⟩⟩ | ⟨-, f, h, hf⟩
  injection h with h h'
  exact ⟨h ▸ hf, .inl ⟨rfl, h'⟩⟩

theorem Pending.eq (h : Pending type brings es now x) (hd : now ≠ 0 ∨ es = []) : now = x := by
  rcases h with ⟨h, -⟩ | ⟨hz, f, hf, -⟩
  · exact h
  · rcases hd with hd | rfl
    · exact absurd hz hd
    · cases hf

end

/-- The three values of the walk. -/
structure PendingIes (es : List Ie) (ies found : SessionIes) : Prop where
  t4 : Pending ieFteid (fun e x => e.HasWord (htonl x)) es ies.t4 found.t4
  t5 : Pending ieBearerContext Ie.HasBearer es ies.t5 found.t5
  ueip : Pending iePaa Ie.HasWord es ies.ueip found.ueip

variable {ies found : SessionIes}

theorem PendingIes.takeIe (h : PendingIes (e :: es) ies found) (hat : At p (o + 4) e.payload) :
    ∃ ies', takeIe p o e.type e.payload.length ies = .ok ies' ∧ PendingIes es ies' found := by
  unfold Gtp.takeIe
  by_cases h87 : e.type = ieFteid
  · obtain ⟨hword, h4⟩ := h.t4.found h87
    refine ⟨{ ies with t4 := found.t4 }, ?_, h4, h.t5.skip (by rw [h87]; decide), h.ueip.skip (by rw [h87]; decide)⟩
    rw [if_pos h87, hword.read hat, Except.ok_bind, ntohl_htonl]
    rfl
  rw [if_neg h87]
  by_cases h79 : e.type = iePaa
  · obtain ⟨hword, hu⟩ := h.ueip.found h79
    refine ⟨{ ies with ueip := found.ueip }, ?_, h.t4.skip h87, h.t5.skip (by rw [h79]; decide), hu⟩
    rw [if_pos h79, hword.read hat]
    rfl
  rw [if_neg h79]
  by_cases h93 : e.type = ieBearerContext
  · obtain ⟨⟨ns, f, hp, hf⟩, h5⟩ := h.t5.found h93
    refine ⟨{ ies with t5 := found.t5 }, ?_, h.t4.skip h87, h5, h.ueip.skip h79⟩
    rw [hp] at hat ⊢
    rw [if_pos h93, walkBearer_encode hat le_rfl ⟨f, hf⟩]
    rfl
  · exact ⟨ies, if_neg h93, h.t4.skip h87, h.t5.skip h93, h.ueip.skip h79⟩

theorem PendingIes.eq (h : PendingIes es ies found) (hd : ies.complete = true ∨ es = []) : ies = found := by
  have hd : (ies.t4 ≠ 0 ∨ es = []) ∧ (ies.t5 ≠ 0 ∨ es = []) ∧ (ies.ueip ≠ 0 ∨ es = []) := by
    simp [SessionIes.complete] at hd
    tauto
  exact SessionIes.mk.injEq .. ▸ ⟨h.t4.eq hd.1, h.t5.eq hd.2.1, h.ueip.eq hd.2.2⟩

/-- The outer loop finds the three values and ends within the body. -/
theorem walkIes_encode : ∀ {es : List Ie} {fuel o : Nat} {ies : SessionIes}, At p o (encodeIes es) →
    (encodeIes es).length ≤ fuel → PendingIes es ies found → walkIes p (o + (encodeIes es).length) fuel o ies = .ok found
  | [], 0, _, _, _, _, h => congrArg _ (h.eq (.inr rfl))
  | [], fuel + 1, o, ies, _, _, h => (if_neg (Nat.lt_irrefl o)).trans (congrArg _ (h.eq (.inr rfl)))
  | e :: es, fuel, o, ies, hat, hfuel, h => by
    obtain ⟨hlen, htype, hpay, hrest⟩ := At.ie hat
    obtain ⟨ies', htake, h'⟩ := h.takeIe hpay
    rw [length_encodeIes_cons] at hfuel ⊢
    obtain ⟨fuel, rfl⟩ : ∃ n, fuel = n + 1 := ⟨fuel - 1, by omega⟩
    rw [walkIes, if_pos (by omega), hlen, Except.ok_bind, htype, Except.ok_bind, e.ntohs_length, htake, Except.ok_bind]
    split
    · next hc => exact congrArg _ (h'.eq (.inl hc))
    · have ih := walkIes_encode hrest (show _ ≤ fuel by omega) h'
      rwa [← Nat.add_assoc, ← Nat.add_assoc]

/-- A well-formed body: just one F-TEID, one PAA and one bearer context with an F-TEID. -/
structure SessionBody (es : List Ie) (found : SessionIes) : Prop where
  t4 : ∃ e, es.filter (·.type = ieFteid) = [e] ∧ e.HasWord (htonl found.t4)
  t5 : ∃ e, es.filter (·.type = ieBearerContext) = [e] ∧ e.HasBearer found.t5
  ueip : ∃ e, es.filter (·.type = iePaa) = [e] ∧ e.HasWord found.ueip

/-- The values of a well-formed body are found, in whatever order its elements stand. -/
theorem sessionIes_encode {msg : GtpcMsgHeader} (h : SessionBody es found) (hat : At p msg.bodyOffset (encodeIes es))
    (hlen : msg.messageLength.toNat + 4 = msg.headerLength + (encodeIes es).length) :
    sessionIes p msg = .ok found := by
  have hfinish : bodyFinish msg = msg.bodyOffset + (encodeIes es).length := by
    rw [bodyFinish]
    omega
  rw [sessionIes, hfinish]
  exact walkIes_encode hat (by omega) ⟨.inr ⟨rfl, h.t4⟩, .inr ⟨rfl, h.t5⟩, .inr ⟨rfl, h.ueip⟩⟩

def sampleBody : List Ie :=
  [⟨ieFteid, 0, [0] ++ store32 (htonl 1), by decide⟩,
    ⟨ieBearerContext, 0, encodeIes [⟨ieFteid, 2, [0] ++ store32 (htonl 3), by decide⟩], by decide⟩,
    ⟨iePaa, 0, [1] ++ store32 2, by decide⟩]

theorem sessionIes_encode_sampleBody :
    sessionIes ⟨encodeIes sampleBody, none, 0⟩ ⟨2, true, 33, 39, 0, 0, 12, 0⟩ = .ok ⟨1, 3, 2⟩ :=
  have h : SessionBody sampleBody ⟨1, 3, 2⟩ :=
    ⟨⟨_, rfl, 0, [], rfl⟩, ⟨_, rfl, _, _, rfl, rfl, 0, [], rfl⟩, ⟨_, rfl, 1, [], rfl⟩⟩
  sessionIes_encode h ⟨[], rfl⟩ rfl

end Gtp

end LinkerOvs
