/-
Which GTP packets the manager survives. Every read of a packet goes through `dp_packet_at`, whose NULL no
caller looks at; a Delete Session Response uses whatever the lookups of its keys give; and the share of a
switch is computed modulo `ovs_total`. The condition here is on the packet's bytes and the maps, and it
is exact: the handler returns just when the condition holds.
-/
import LinkerOvs.Gtp.Steps

namespace LinkerOvs.Gtp

open DpPacket (byteAt word16At word32At)

/-! ## Headers -/

section

variable (p : DpPacket) (offset : Nat)

theorem decides_at (size : Nat) (read : List UInt8 → α) :
    (deref .nullPacketAt ((p.at? offset size).map read)).Decides (offset + size ≤ p.data.length)
      (read ((p.data.drop offset).take size)) := by
  rw [DpPacket.at?, apply_ite (Option.map read), apply_ite (deref _)]
  exact .ite ..

theorem decides_readU8 : (readU8 p offset).Decides (offset + 1 ≤ p.data.length) (p.byteAt offset) := by
  have h := decides_at p offset 1 (·.getD 0 0)
  rwa [p.getD_take_drop Nat.one_pos] at h

theorem decides_readBe16 : (readBe16 p offset).Decides (offset + 2 ≤ p.data.length) (p.word16At offset) := by
  have h := decides_at p offset 2 fun bs => loadBe16 (bs.getD 0 0) (bs.getD 1 0)
  rwa [p.getD_take_drop (by decide), p.getD_take_drop (by decide)] at h

theorem decides_readBe32 : (readBe32 p offset).Decides (offset + 4 ≤ p.data.length) (p.word32At offset) := by
  have h := decides_at p offset 4 fun bs => loadBe32 (bs.getD 0 0) (bs.getD 1 0) (bs.getD 2 0) (bs.getD 3 0)
  rwa [p.getD_take_drop (by decide), p.getD_take_drop (by decide), p.getD_take_drop (by decide),
    p.getD_take_drop (by decide)] at h

end

variable (p : DpPacket)

/-- The version bits of the message at `o`. -/
def versionAt (o : Nat) : UInt8 := (p.byteAt o &&& 0xe0) >>> 5

/-- The GTP-C header at `o`, by its bytes. -/
def gtpcHeaderAt (o : Nat) : GtpcMsgHeader :=
  let hasTeid : Bool := (p.byteAt o &&& 0x08) ≠ 0
  let fixed := if hasTeid then 8 else 4
  { version := versionAt p o
    hasTeid := hasTeid
    messageType := p.byteAt (o + 1)
    messageLength := ntohs (p.word16At (o + 2))
    teid := ntohl (if hasTeid then p.word32At (o + 4) else 0)
    seqNum := ntohl (p.word32At (o + fixed) &&& 0xFFFFFF00) >>> 8
    headerLength := fixed + 4
    bodyOffset := o + fixed + 4 }

/-- The GTP-U header at `o`, by its bytes. -/
def gtpuHeaderAt (o : Nat) : GtpuMsgHeader where
  version := versionAt p o
  messageType := p.byteAt (o + 1)
  messageLength := ntohs (p.word16At (o + 2))
  teid := ntohl (p.word32At (o + 4))
  headerLength := 8
  bodyOffset := o + 8

theorem decides_parseGtpcMsgHeader {p : DpPacket} {o : Nat} (ho : p.getUdpPayload = some o) :
    (parseGtpcMsgHeader p).Decides
      (o + 1 ≤ p.data.length ∧ (versionAt p o = 2 → (gtpcHeaderAt p o).bodyOffset ≤ p.data.length))
      (if versionAt p o = 2 then some (gtpcHeaderAt p o) else none) := by
  rw [parseGtpcMsgHeader, ho]
  refine (decides_readU8 p o).bind And.left fun h1 => ?_
  by_cases hv : versionAt p o = 2
  · have hv' : (p.byteAt o &&& 0xe0) >>> 5 = 2 := hv
    by_cases ht : (p.byteAt o &&& 0x08) = 0
    all_goals simp [hv, hv', ht, h1, gtpcHeaderAt]
    · exact (decides_readU8 p _).bind (by omega) fun _ => (decides_readBe16 p _).bind (by omega) fun _ =>
        (decides_readBe32 p _).bind id fun h => .inl ⟨h, rfl⟩
    · exact (decides_readU8 p _).bind (by omega) fun _ => (decides_readBe16 p _).bind (by omega) fun _ =>
        (decides_readBe32 p _).bind (by omega) fun _ => (decides_readBe32 p _).bind id fun h => .inl ⟨h, rfl⟩
  · have hv' : (p.byteAt o &&& 0xe0) >>> 5 ≠ 2 := hv
    simp [hv, hv', h1]
    exact .inl ⟨trivial, rfl⟩

theorem decides_parseGtpuMessage {p : DpPacket} {o : Nat} (ho : p.getUdpPayload = some o) :
    (parseGtpuMessage p).Decides (o + 1 ≤ p.data.length ∧ (versionAt p o = 1 → o + 8 ≤ p.data.length))
      (if versionAt p o = 1 then some (gtpuHeaderAt p o) else none) := by
  rw [parseGtpuMessage, ho]
  refine (decides_readU8 p o).bind And.left fun h1 => ?_
  by_cases hv : versionAt p o = 1
  · have hv' : (p.byteAt o &&& 0xe0) >>> 5 = 1 := hv
    simp [hv, hv', h1, gtpuHeaderAt]
    exact (decides_readU8 p _).bind (by omega) fun _ => (decides_readBe16 p _).bind (by omega) fun _ =>
      (decides_readBe32 p _).bind id fun h => .inl ⟨h, rfl⟩
  · have hv' : (p.byteAt o &&& 0xe0) >>> 5 ≠ 1 := hv
    simp [hv, hv', h1]
    exact .inl ⟨trivial, rfl⟩

/-! ## Information elements -/

/-- The length field of the element at `start`. -/
def ieLengthAt (start : Nat) : Nat := (ntohs (p.word16At (start + 1))).toNat

/-- The elements of a bearer context from `bcstart` on lie within the packet, up to the first F-TEID. -/
inductive BearerFits (p : DpPacket) (bcend : Nat) : Nat → Prop
  | done {bcstart : Nat} (h : bcend ≤ bcstart) : BearerFits p bcend bcstart
  | fteid {bcstart : Nat} (h : bcstart < bcend) (ht : p.byteAt bcstart = ieFteid) (hb : bcstart + 9 ≤ p.data.length) :
      BearerFits p bcend bcstart
  | next {bcstart : Nat} (h : bcstart < bcend) (ht : p.byteAt bcstart ≠ ieFteid) (hb : bcstart + 3 ≤ p.data.length)
      (rest : BearerFits p bcend (bcstart + ieLengthAt p bcstart + 4)) : BearerFits p bcend bcstart

/-- The F-TEID a bearer context brings, `t5` if it has none. -/
def bearerTeid (p : DpPacket) (bcend : Nat) : (fuel bcstart : Nat) → UInt32 → UInt32
  | 0, _, t5 => t5
  | fuel + 1, bcstart, t5 =>
    if bcstart < bcend then
      if p.byteAt bcstart = ieFteid then ntohl (p.word32At (bcstart + 5))
      else bearerTeid p bcend fuel (bcstart + ieLengthAt p bcstart + 4) t5
    else t5

theorem bearerFits_iff {p : DpPacket} {bcend bcstart : Nat} (h : bcstart < bcend) :
    BearerFits p bcend bcstart ↔ bcstart + 3 ≤ p.data.length ∧ if p.byteAt bcstart = ieFteid then
      bcstart + 9 ≤ p.data.length else BearerFits p bcend (bcstart + ieLengthAt p bcstart + 4) := by
  constructor
  · rintro (h' | ⟨-, ht, hb⟩ | ⟨-, ht, hb, rest⟩)
    · omega
    · exact ⟨by omega, (if_pos ht).symm ▸ hb⟩
    · exact ⟨hb, (if_neg ht).symm ▸ rest⟩
  · rintro ⟨hb, hrest⟩
    split at hrest
    · next ht => exact .fteid h ht hrest
    · next ht => exact .next h ht hb hrest

/-- The inner loop returns just when what it reads lies within the packet. -/
theorem decides_walkBearer (p : DpPacket) (bcend : Nat) : ∀ (fuel bcstart : Nat) (t5 : UInt32), bcend - bcstart ≤ fuel →
    (walkBearer p bcend fuel bcstart t5).Decides (BearerFits p bcend bcstart) (bearerTeid p bcend fuel bcstart t5)
  | 0, bcstart, t5, hf => .inl ⟨.done (by omega), rfl⟩
  | fuel + 1, bcstart, t5, hf => by
    rw [walkBearer, bearerTeid]
    by_cases h : bcstart < bcend
    · rw [if_pos h, if_pos h]
      refine Except.Decides.congr ?_ (bearerFits_iff h).symm
      refine (decides_readBe16 p _).bind And.left fun hb => (decides_readU8 p _).bind (fun _ => by omega) fun _ => ?_
      by_cases ht : p.byteAt bcstart = ieFteid
      · simp only [ht]
        exact (decides_readBe32 p _).bind And.right fun h9 => .inl ⟨⟨hb, h9⟩, rfl⟩
      · simp only [ht]
        -- the walk moves on by at least four octets
        exact (decides_walkBearer p bcend fuel _ t5 (by omega)).congr (and_iff_right hb).symm
    · rw [if_neg h, if_neg h]
      exact .inl ⟨.done (by omega), rfl⟩

/-- What the walk reads of the element at `start` lies within the packet. -/
structure IeFits (p : DpPacket) (start : Nat) : Prop where
  head : start + 3 ≤ p.data.length
  value : p.byteAt start = ieFteid ∨ p.byteAt start = iePaa → start + 9 ≤ p.data.length
  bearer : p.byteAt start = ieBearerContext → BearerFits p (start + 4 + ieLengthAt p start) (start + 4)

/-- What has been found after the element at `start`. -/
def iesAfter (start : Nat) (ies : SessionIes) : SessionIes :=
  if p.byteAt start = ieFteid then { ies with t4 := ntohl (p.word32At (start + 5)) }
  else if p.byteAt start = iePaa then { ies with ueip := p.word32At (start + 5) }
  else if p.byteAt start = ieBearerContext then
    { ies with t5 := bearerTeid p (start + 4 + ieLengthAt p start) (ieLengthAt p start) (start + 4) ies.t5 }
  else ies

/-- The elements from `start` on lie within the packet, up to the one that completes what is looked for. -/
inductive IesFit (p : DpPacket) (finish : Nat) : Nat → SessionIes → Prop
  | done {start : Nat} {ies : SessionIes} (h : finish ≤ start) : IesFit p finish start ies
  | last {start : Nat} {ies : SessionIes} (h : start < finish) (hie : IeFits p start)
      (hc : (iesAfter p start ies).complete = true) : IesFit p finish start ies
  | next {start : Nat} {ies : SessionIes} (h : start < finish) (hie : IeFits p start)
      (hc : (iesAfter p start ies).complete = false)
      (rest : IesFit p finish (start + ieLengthAt p start + 4) (iesAfter p start ies)) : IesFit p finish start ies

theorem decides_takeIe (start : Nat) (ies : SessionIes) (hb : start + 3 ≤ p.data.length) :
    (takeIe p start (p.byteAt start) (ieLengthAt p start) ies).Decides (IeFits p start) (iesAfter p start ies) := by
  have hbc : ieBearerContext ≠ ieFteid ∧ ieBearerContext ≠ iePaa := by decide
  unfold takeIe iesAfter
  split
  · next h87 =>
    exact (decides_readBe32 p _).bind (fun h => h.value (.inl h87)) fun h9 =>
      .inl ⟨⟨hb, fun _ => h9, fun h => absurd (h.symm.trans h87) hbc.1⟩, rfl⟩
  next h87 =>
  split
  · next h79 =>
    exact (decides_readBe32 p _).bind (fun h => h.value (.inr h79)) fun h9 =>
      .inl ⟨⟨hb, fun _ => h9, fun h => absurd (h.symm.trans h79) hbc.2⟩, rfl⟩
  next h79 =>
  have hvalue : p.byteAt start = ieFteid ∨ p.byteAt start = iePaa → start + 9 ≤ p.data.length :=
    fun h => (h.elim h87 h79).elim
  split
  · next h93 =>
    exact (decides_walkBearer p _ _ _ _ (by omega)).bind (fun h => h.bearer h93) fun hfit =>
      .inl ⟨⟨hb, hvalue, fun _ => hfit⟩, rfl⟩
  · next h93 => exact .inl ⟨⟨hb, hvalue, fun h => absurd h h93⟩, rfl⟩

theorem iesFit_iff {p : DpPacket} {finish start : Nat} {ies : SessionIes} (h : start < finish) :
    IesFit p finish start ies ↔ IeFits p start ∧ ((iesAfter p start ies).complete = false →
      IesFit p finish (start + ieLengthAt p start + 4) (iesAfter p start ies)) := by
  constructor
  · rintro (h' | ⟨-, hie, hc⟩ | ⟨-, hie, hc, rest⟩)
    · omega
    · exact ⟨hie, fun hc' => absurd (hc.symm.trans hc') (by decide)⟩
    · exact ⟨hie, fun _ => rest⟩
  · rintro ⟨hie, hrest⟩
    cases hc : (iesAfter p start ies).complete with
    | false => exact .next h hie hc (hrest hc)
    | true => exact .last h hie hc

theorem walkIes_succeeds (p : DpPacket) (finish : Nat) : ∀ (fuel start : Nat) (ies : SessionIes),
    finish - start ≤ fuel → ((walkIes p finish fuel start ies).Succeeds ↔ IesFit p finish start ies)
  | 0, start, ies, hf => iff_of_true (Except.succeeds_ok _) (.done (by omega))
  | fuel + 1, start, ies, hf => by
    rw [walkIes]
    by_cases h : start < finish
    · rw [if_pos h, iesFit_iff h, (decides_readBe16 p _).succeeds_bind, (decides_readU8 p _).succeeds_bind]
      refine (and_congr_right fun hb => ?_).trans (and_iff_right_of_imp fun hie => hie.1.head)
      refine (and_iff_right (by omega)).trans ((decides_takeIe p start ies hb).succeeds_bind.trans (and_congr_right fun _ => ?_))
      cases hc : (iesAfter p start ies).complete
      · simpa [ieLengthAt] using walkIes_succeeds p finish fuel _ _ (by omega)
      · simp
    · rw [if_neg h]
      exact iff_of_true (Except.succeeds_ok _) (.done (by omega))

/-! ## Handlers -/

variable {s : Manager}

theorem gtpManagerGetPgw_lt (h : s.endIdx ≤ maxPgwPerNode) : (gtpManagerGetPgw s).1 < maxPgwPerNode := by
  unfold gtpManagerGetPgw
  split
  · grind
  · show 0 < maxPgwPerNode
    decide

theorem selectPgw_succeeds (hi : Inv .idle s) (x : XlateCtx) (seqNum : UInt32) :
    (selectPgw s x seqNum).Succeeds ↔ s.ovsTotal ≠ 0 := by
  unfold selectPgw
  split
  · simp [*]
  rename_i h
  refine iff_of_true ?_ h
  split
  · have hat : pgwAt (gtpManagerGetPgw s).2 (gtpManagerGetPgw s).1 = .ok _ := if_pos (gtpManagerGetPgw_lt hi.endIdx)
    simp [*]
  · exact Except.succeeds_pure _

/-- The keys a Delete Session Response for `t2` erases are in the maps, each as often as it is erased. -/
def DeleteKeysPresent (s : Manager) (t2 : UInt32) : Prop :=
  ∃ e t, lookup s .teid t2 = some e ∧ s.tunnels.get? e.tunnel = some t ∧
    (∀ k, [t.teid4SgwC, t.teid5SgwU, t2].count k ≤ (Multimap.withKey Entry.key k (entries s .teid)).length) ∧
    ∀ k, [t.ueIp].count k ≤ (Multimap.withKey Entry.key k (entries s .ueip)).length

theorem deleteSession_succeeds (hi : Inv .idle s) (x : XlateCtx) (t2 : UInt32) :
    (deleteSession s x t2).Succeeds ↔ DeleteKeysPresent s t2 := by
  cases hl : lookup s .teid t2 with
  | none =>
    rw [hi.deleteSession_none x hl]
    refine iff_of_false (Except.not_succeeds_error _) ?_
    rintro ⟨e, t, he, _⟩
    rw [hl] at he
    cases he
  | some e =>
    obtain ⟨_, t, _, _, _, ht, _⟩ := hi.entry (lookup_mem hl).1
    have hfinds : DeleteFinds s t2 t ↔ DeleteKeysPresent s t2 := by
      rw [DeleteFinds, Multimap.eraseAll_isSome, Multimap.eraseAll_isSome]
      refine ⟨fun h => ⟨e, t, hl, ht, h.1, h.2⟩, ?_⟩
      rintro ⟨e', t', he', ht', h⟩
      grind
    rw [← hfinds]
    rcases hi.deleteSession_some x hl ht with ⟨s', hs', _, hd, _⟩ | ⟨he, hnot⟩
    · rw [hs']
      exact iff_of_true (Except.succeeds_ok _) ⟨by rw [hd.teids]; rfl, by rw [hd.ueips]; rfl⟩
    · simp_all

/-- What a GTP-C message needs beyond its header: the switch's share is defined, the information elements of
a Create Session Response lie within the packet, the keys of a Delete Session Response are present. -/
structure GtpcMessageOk (s : Manager) (x : XlateCtx) (packet : DpPacket) (msg : GtpcMsgHeader) : Prop where
  share : x.flow.inPort = s.ovsPhyPort → msg.hasTeid = false ∨ msg.teid = 0 → s.ovsTotal ≠ 0
  create : x.flow.inPort ≠ s.ovsPhyPort → msg.hasTeid = true → msg.teid ≠ 0 →
    msg.messageType = createSessionResponse → IesFit packet (bodyFinish msg) msg.bodyOffset ⟨0, 0, 0⟩
  delete : x.flow.inPort ≠ s.ovsPhyPort → msg.hasTeid = true → msg.teid ≠ 0 →
    msg.messageType = deleteSessionResponse → DeleteKeysPresent s msg.teid

theorem handleGtpcMessage_succeeds (hi : Inv .idle s) (x : XlateCtx) (packet : DpPacket) (msg : GtpcMsgHeader) :
    (handleGtpcMessage s x msg packet).Succeeds ↔ GtpcMessageOk s x packet msg := by
  have hok : GtpcMessageOk s x packet msg ↔ _ ∧ _ ∧ _ :=
    ⟨fun h => ⟨h.share, h.create, h.delete⟩, fun h => ⟨h.1, h.2.1, h.2.2⟩⟩
  have hdc : deleteSessionResponse ≠ createSessionResponse := by decide
  rw [hok, handleGtpcMessage]
  by_cases hteid : msg.hasTeid = false ∨ msg.teid = 0
  · by_cases hport : x.flow.inPort = s.ovsPhyPort
    · simp [hport, hteid, selectPgw_succeeds hi]
    · rcases hteid with h | h <;> simp [h, hport]
  have ⟨hhas, hne⟩ : msg.hasTeid = true ∧ msg.teid ≠ 0 := by simpa using hteid
  by_cases hport : x.flow.inPort = s.ovsPhyPort
  · simp [hport, hhas, hne, hi.forwardByMap]
  by_cases htype : msg.messageType = createSessionResponse
  · have hies : (sessionIes packet msg).Succeeds ↔ IesFit packet (bodyFinish msg) msg.bodyOffset ⟨0, 0, 0⟩ :=
      walkIes_succeeds packet _ _ _ _ (le_refl _)
    simp [hport, hhas, hne, htype, hdc.symm, ← hies]
    exact Except.succeeds_bind.trans
      (exists_congr fun ies => and_iff_left (by split <;> exact Except.succeeds_pure _))
  · by_cases hdel : msg.messageType = deleteSessionResponse
    · simp [hport, hhas, hne, hdel, hdc, deleteSession_succeeds hi]
    · simp [hport, htype, hdel]

theorem handleGtpuMessage_succeeds (hi : Inv .idle s) (x : XlateCtx) (msg : GtpuMsgHeader) :
    (handleGtpuMessage s x msg).Succeeds := by
  unfold handleGtpuMessage
  rw [hi.forwardByMap]
  split_ifs <;> exact Except.succeeds_pure _

/-- The packets that do not crash the switch: there is a UDP payload of at least one octet, a message of the
version handled has its whole header within the packet, and what follows is as its type needs it. -/
def Survives (s : Manager) (x : XlateCtx) (packet : DpPacket) : Prop :=
  ∃ o, packet.getUdpPayload = some o ∧ o + 1 ≤ packet.data.length ∧
    if maybeGtpcMessage x.flow then
      versionAt packet o = 2 → (gtpcHeaderAt packet o).bodyOffset ≤ packet.data.length ∧
        GtpcMessageOk s x packet (gtpcHeaderAt packet o)
    else versionAt packet o = 1 → o + 8 ≤ packet.data.length

/-- In every reachable state, a GTP packet is handled without a fault just when it survives the condition. -/
theorem handleGtp_returns_iff {s : Manager} (hs : Reachable s) {x : XlateCtx} (packet : DpPacket)
    (hgtp : checkIsGtp x.flow = true) :
    (∀ f, handleGtp s x (some packet) ≠ .error f) ↔ Survives s x packet := by
  have hsucc : (∀ f, handleGtp s x (some packet) ≠ .error f) ↔ (handleGtp s x (some packet)).Succeeds := by
    cases handleGtp s x (some packet) with
    | ok r => exact iff_of_true (fun f h => by cases h) (Except.succeeds_ok _)
    | error f => exact iff_of_false (fun h => h f rfl) (Except.not_succeeds_error _)
  have hi := hs.inv
  rw [hsucc]
  simp only [handleGtp, Survives]
  simp only [checkIsGtp, Bool.or_eq_true] at hgtp
  cases ho : packet.getUdpPayload with
  | none =>
    have hc : parseGtpcMsgHeader packet = .error .nullUdpPayload := by simp [parseGtpcMsgHeader, ho, deref]
    have hu : parseGtpuMessage packet = .error .nullUdpPayload := by simp [parseGtpuMessage, ho, deref]
    rw [hc, hu]
    refine iff_of_false ?_ (by rintro ⟨o, h, _⟩; cases h)
    split_ifs with hm hm'
    · exact Except.not_succeeds_error _
    · exact Except.not_succeeds_error _
    · exact absurd (hgtp.resolve_left hm) hm'
  | some o =>
    simp only [Option.some.injEq, exists_eq_left']
    by_cases hm : maybeGtpcMessage x.flow = true
    · rw [if_pos hm, if_pos hm, (decides_parseGtpcMsgHeader ho).succeeds_bind, and_assoc]
      refine and_congr_right fun _ => ?_
      by_cases hv : versionAt packet o = 2
      · simp only [hv, forall_const]
        exact and_congr_right fun _ => handleGtpcMessage_succeeds hi x packet _
      · simp [hv]
    · rw [if_neg hm, if_neg hm, if_pos (hgtp.resolve_left hm), (decides_parseGtpuMessage ho).succeeds_bind]
      by_cases hv : versionAt packet o = 1
      · simp [hv, handleGtpuMessage_succeeds hi x]
      · simp [hv]

/-- With a PGW and a session, the PGW's response to its deletion. -/
theorem handleGtp_returns_iff_request : ∃ s, Reachable s ∧ (lookup s .teid 7).isSome ∧
    ∀ f, handleGtp s (udpCtx 2 gtpcPort 2) (some (deletePacket 7)) ≠ .error f := by
  obtain ⟨s, hs, hlookup, hphy, hkeys⟩ : ∃ s, Reachable s ∧ (lookup s .teid 7).isSome ∧ s.ovsPhyPort = 1 ∧
      DeleteKeysPresent s 7 :=
    ⟨_, ⟨zeroTunnel, [.setParams 0 1 1 0, .addPgw (samplePgw 2), createCall 2 7 ⟨8, 9, 10⟩],
      .cons rfl (.cons rfl (.cons rfl (.nil _)))⟩, by decide, rfl, _, _, rfl, rfl,
      (Multimap.eraseAll_isSome _ _).1 (by decide), (Multimap.eraseAll_isSome _ _).1 (by decide)⟩
  refine ⟨s, hs, hlookup, (handleGtp_returns_iff hs (deletePacket 7) (by decide)).2 ⟨42, rfl, by decide, ?_⟩⟩
  refine fun _ => ⟨by decide, fun hport => ?_, fun _ _ _ htype => absurd htype (by decide), fun _ _ _ _ => hkeys⟩
  rw [hphy] at hport
  exact absurd hport (by decide)

/-- In the state after `gtp_manager_init`: an empty UDP payload, a Delete Session Response for a TEID that is
not in the map, and a message without a TEID before `ovs_total` is set. After a session was established: a
Delete Session Response whose header carries the session's control TEID of the SGW. -/
theorem gtp_packets_crash :
    handleGtp (gtpManagerInit zeroTunnel) (udpCtx 1 gtpcPort 1) (some (udpPacket [])) = .error .nullPacketAt ∧
    handleGtp (gtpManagerInit zeroTunnel) (udpCtx 2 gtpcPort 2) (some (deletePacket 7)) = .error .nullTeidNode ∧
    handleGtp (gtpManagerInit zeroTunnel) (udpCtx 0 gtpcPort 1) (some (gtpcPacket 32 0 [])) = .error .divByZero ∧
    ∃ s, Reachable s ∧ handleGtp s (udpCtx 2 gtpcPort 2) (some (deletePacket 8)) = .error .uninitFoundNode :=
  ⟨rfl, rfl, rfl, _, ⟨zeroTunnel, [.setParams 0 1 1 0, .addPgw (samplePgw 2), createCall 2 7 ⟨8, 9, 10⟩],
    .cons rfl (.cons rfl (.cons rfl (.nil _)))⟩, rfl⟩

end LinkerOvs.Gtp
