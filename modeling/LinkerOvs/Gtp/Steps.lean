/-
What one call into the GTP manager can do to its state, said once, and the counting invariant in
every state that a sequence of calls leads to.
-/
import LinkerOvs.Gtp.Sessions

namespace LinkerOvs.Gtp

/-! ## The effect of a call -/

/-- The packet is a Create Session Response of the PGW side with all three information elements, the
one kind of message that allocates a tunnel node. -/
structure CompleteCreate (s : Manager) (x : XlateCtx) (packet : DpPacket) (t2 : UInt32) (ies : SessionIes) : Prop where
  gtpc : maybeGtpcMessage x.flow = true
  parsed : ∃ msg, parseGtpcMsgHeader packet = .ok (some msg) ∧ msg.hasTeid = true ∧ msg.teid = t2 ∧ t2 ≠ 0 ∧
    msg.messageType = createSessionResponse ∧ sessionIes packet msg = .ok ies
  fromPgw : x.flow.inPort ≠ s.ovsPhyPort
  complete : ies.complete = true
  slowPath : s.pgwFastpath = 0

/-- What a call that returns does to the manager. -/
inductive Effect (s : Manager) : Call → Manager → Prop
  | addPgw {e : GtpPgwNode} {s' : Manager} (h : gtpManagerAddPgw s e = .ok s') : Effect s (.addPgw e) s'
  | delPgw (ip : UInt32) : Effect s (.delPgw ip) (gtpManagerDelPgw s ip)
  | setParams (ovsId total phyport : UInt16) (fastpath : UInt8) :
      Effect s (.setParams ovsId total phyport fastpath) (gtpManagerSetParams s ovsId total phyport fastpath)
  | unchanged (c : Call) : Effect s c s
  | turn (x : XlateCtx) (packet : Option DpPacket) (current : Nat) :
      Effect s (.handleGtp x packet) { s with current := current }
  | leak {x : XlateCtx} {packet : DpPacket} {t2 : UInt32} {ies : SessionIes} (hc : CompleteCreate s x packet t2 ies)
      (hpgw : slotOf s x.flow.nwSrc = none) :
      Effect s (.handleGtp x (some packet)) { s with tunnels := s.tunnels.alloc (newTunnel s t2 ies) }
  | install {x : XlateCtx} {packet : DpPacket} {t2 : UInt32} {ies : SessionIes} {i : Nat}
      (hc : CompleteCreate s x packet t2 ies) (hpgw : slotOf s x.flow.nwSrc = some i) :
      Effect s (.handleGtp x (some packet)) (installSession s t2 ies i)
  | delete {x : XlateCtx} {packet : DpPacket} {t2 : UInt32} {t : GtpTunnelNode} {s' : Manager}
      (hi : Inv .idle s') (hd : Deleted s s' t2 t) (hl : NoLeak .idle s → NoLeak .idle s') :
      Effect s (.handleGtp x (some packet)) s'

theorem gtpManagerGetPgw_state (s : Manager) : ∃ current, (gtpManagerGetPgw s).2 = { s with current := current } := by
  unfold gtpManagerGetPgw
  split
  · exact ⟨_, rfl⟩
  · exact ⟨_, rfl⟩

variable {s s' : Manager} {x x' : XlateCtx} {c : Call}

theorem selectPgw_state {seqNum : UInt32} (h : selectPgw s x seqNum = .ok (s', x')) :
    s' = s ∨ ∃ current, s' = { s with current := current } := by
  unfold selectPgw at h
  split at h
  · cases h
  split at h
  · obtain ⟨e, -, h⟩ := Except.bind_eq_ok h
    cases h
    exact .inr (gtpManagerGetPgw_state s)
  · cases h
    exact .inl rfl

theorem Inv.handleGtpcMessage_effect (hi : Inv .idle s) {msg : GtpcMsgHeader}
    {packet : DpPacket} (hm : maybeGtpcMessage x.flow = true) (hp : parseGtpcMsgHeader packet = .ok (some msg))
    (h : handleGtpcMessage s x msg packet = .ok (s', x')) : Effect s (.handleGtp x (some packet)) s' := by
  unfold handleGtpcMessage at h
  split at h
  · split at h
    · rcases selectPgw_state h with rfl | ⟨current, rfl⟩
      · exact .unchanged _
      · exact .turn x _ current
    · rw [hi.forwardByMap] at h
      cases h
      exact .unchanged _
  rename_i hport
  split at h
  · cases h
    exact .unchanged _
  rename_i hteid
  simp only [Bool.or_eq_true, Bool.not_eq_true', decide_eq_true_eq, not_or, Bool.not_eq_false] at hteid
  split at h
  · rename_i htype
    obtain ⟨ies, hies, h⟩ := Except.bind_eq_ok h
    split at h
    · rename_i hcond
      simp only [Bool.and_eq_true, decide_eq_true_eq] at hcond
      have hc : CompleteCreate s x packet msg.teid ies :=
        ⟨hm, ⟨msg, hp, hteid.1, rfl, hteid.2, htype, hies⟩, hport, hcond.1, hcond.2⟩
      unfold createSession gtpManagerFindPgw at h
      cases hpgw : slotOf s x.flow.nwSrc with
      | none =>
        rw [hpgw] at h
        cases h
        exact .leak hc hpgw
      | some i =>
        rw [hpgw] at h
        cases h
        exact .install hc hpgw
    · cases h
      exact .unchanged _
  · split at h
    · cases hl : lookup s .teid msg.teid with
      | none =>
        rw [hi.deleteSession_none x hl] at h
        cases h
      | some e =>
        obtain ⟨_, t, _, _, _, ht, _⟩ := hi.entry (lookup_mem hl).1
        rcases hi.deleteSession_some x hl ht with ⟨s₁, hs₁, hi₁, hd, hleak⟩ | ⟨he, _⟩
        · rw [hs₁] at h
          cases h
          exact .delete hi₁ hd hleak
        · simp_all
    · cases h
      exact .unchanged _

theorem Inv.handleGtpuMessage_state (hi : Inv .idle s) {msg : GtpuMsgHeader}
    (h : handleGtpuMessage s x msg = .ok (s', x')) : s' = s := by
  unfold handleGtpuMessage at h
  rw [hi.forwardByMap] at h
  repeat' split at h
  all_goals cases h; rfl

theorem Inv.handlePgwSgi_state (hi : Inv .idle s) {packet : Option DpPacket}
    (h : handlePgwSgi s x packet = .ok (s', x')) : s' = s := by
  cases packet with
  | none => cases h; rfl
  | some packet =>
    simp only [handlePgwSgi] at h
    rw [hi.forwardByMap] at h
    repeat' split at h
    all_goals cases h; rfl

theorem Inv.handleGtp_effect (hi : Inv .idle s) {packet : Option DpPacket} (h : handleGtp s x packet = .ok (s', x')) :
    Effect s (.handleGtp x packet) s' := by
  cases packet with
  | none =>
    cases h
    exact .unchanged _
  | some packet =>
    simp only [handleGtp] at h
    split at h
    · rename_i hm
      obtain ⟨o, hp, h⟩ := Except.bind_eq_ok h
      cases o with
      | none => cases h; exact .unchanged _
      | some msg => exact hi.handleGtpcMessage_effect hm hp h
    split at h
    · obtain ⟨o, hp, h⟩ := Except.bind_eq_ok h
      cases o with
      | none => cases h; exact .unchanged _
      | some msg =>
        rw [hi.handleGtpuMessage_state h]
        exact .unchanged _
    · cases h
      exact .unchanged _

theorem Inv.effect (hi : Inv .idle s) (h : Step s c s') : Effect s c s' := by
  cases c with
  | addPgw e => exact .addPgw h
  | delPgw ip => cases h; exact .delPgw ip
  | setParams ovsId total phyport fastpath => cases h; exact .setParams ..
  | handleGtp x packet =>
    obtain ⟨⟨s₁, x₁⟩, hs, h₁⟩ := Except.bind_eq_ok (x := handleGtp s x packet) h
    cases h₁
    exact hi.handleGtp_effect hs
  | handlePgwSgi x packet =>
    obtain ⟨⟨s₁, x₁⟩, hs, h₁⟩ := Except.bind_eq_ok (x := handlePgwSgi s x packet) h
    cases h₁
    rw [hi.handlePgwSgi_state hs]
    exact .unchanged _

/-! ## The invariant over runs -/

theorem inv_init (uninit : GtpTunnelNode) : Inv .idle (gtpManagerInit uninit) where
  counted := ⟨List.nodup_nil, fun q hq => (by cases hq), fun q hq => (by cases hq)⟩
  bucket kind c hc := by cases kind <;> cases hc
  heldMapped p hp := by cases hp
  pgwIndex q hq := by cases hq
  endIdx := Nat.zero_le _
  keys kind i t ht := by cases ht

/-- The invariant does not look at the parameters, and at the PGW list only through its length. -/
theorem Inv.of_config (hi : Inv .idle s) (hteid : s'.teid2pgw = s.teid2pgw)
    (hueip : s'.ueip2pgw = s.ueip2pgw) (hnodes : s'.nodes = s.nodes) (htunnels : s'.tunnels = s.tunnels)
    (hle : s.endIdx ≤ s'.endIdx) (hmax : s'.endIdx ≤ maxPgwPerNode) : Inv .idle s' := by
  have hown := owned_congr .idle hteid hueip
  have hmap : ∀ kind, mapOf s' kind = mapOf s kind := fun kind => by cases kind <;> assumption
  refine ⟨hown ▸ hi.counted.congr hnodes htunnels, fun kind c hc => ?_, fun p hp => ?_, fun q hq i hqi t ht => ?_, hmax,
    fun kind i t ht k => ?_⟩
  · rw [hmap] at hc
    rw [hnodes]
    exact hi.bucket kind c hc
  · cases hp
  · rw [hown] at hq
    rw [hnodes] at hqi
    rw [htunnels] at ht
    exact lt_of_lt_of_le (hi.pgwIndex q hq i hqi t ht) hle
  · rw [htunnels] at ht
    rw [entries, hmap, hnodes]
    exact hi.keys kind i t ht k

theorem slotOf_lt {ip : UInt32} {i : Nat} (h : slotOf s ip = some i) : i < s.endIdx :=
  List.mem_range.1 (List.mem_of_find?_eq_some h)

theorem gtpManagerAddPgw_eq {e : GtpPgwNode} (h : gtpManagerAddPgw s e = .ok s') :
    ∃ i, s' = { s with pgwList := Function.update s.pgwList i e, endIdx := s'.endIdx } ∧ s.endIdx ≤ s'.endIdx ∧
      (s'.endIdx ≤ s.endIdx ∨ s'.endIdx ≤ maxPgwPerNode) ∧ (slotOf s 0 = some i ∨ i = s.endIdx) := by
  unfold gtpManagerAddPgw at h
  grind

theorem gtpManagerDelPgw_eq (s : Manager) (ip : UInt32) :
    gtpManagerDelPgw s ip = s ∨ ∃ i g, g.gtpPgwIp = 0 ∧
      gtpManagerDelPgw s ip = { s with pgwList := Function.update s.pgwList i g } := by
  unfold gtpManagerDelPgw
  split
  · exact .inr ⟨_, _, rfl, rfl⟩
  · exact .inl rfl

theorem Effect.inv (h : Effect s c s') (hi : Inv .idle s) : Inv .idle s' := by
  cases h with
  | addPgw h =>
    obtain ⟨i, heq, hle, hmax, _⟩ := gtpManagerAddPgw_eq h
    rw [heq]
    exact hi.of_config rfl rfl rfl rfl hle (hmax.elim (·.trans hi.endIdx) id)
  | delPgw ip =>
    rcases gtpManagerDelPgw_eq s ip with heq | ⟨i, g, _, heq⟩
    · rwa [heq]
    · rw [heq]
      exact hi.of_config rfl rfl rfl rfl (le_refl _) hi.endIdx
  | setParams => exact hi.of_config rfl rfl rfl rfl (le_refl _) hi.endIdx
  | unchanged => exact hi
  | turn => exact hi.of_config rfl rfl rfl rfl (le_refl _) hi.endIdx
  | leak => exact hi.allocTunnel _
  | install _ hpgw => exact (hi.installSession _ _ (slotOf_lt hpgw)).1
  | delete hi' => exact hi'

theorem Inv.step (hi : Inv .idle s) (h : Step s c s') : Inv .idle s' :=
  (hi.effect h).inv hi

theorem Reachable.inv (h : Reachable s) : Inv .idle s := by
  obtain ⟨uninit, calls, hrun⟩ := h
  exact hrun.invariant (fun _ _ _ hi hs => hi.step hs) (inv_init uninit)

/-! ## Messages as they stand on the wire -/

def be32 (x : UInt32) : List UInt8 := [(x >>> 24).toUInt8, (x >>> 16).toUInt8, (x >>> 8).toUInt8, x.toUInt8]

/-- A UDP packet with Ethernet and IPv4 headers before it. -/
def udpPacket (payload : List UInt8) : DpPacket := ⟨List.replicate 42 0 ++ payload, some 34, 0⟩

/-- A GTP-C message with a TEID and sequence number zero. -/
def gtpcPacket (messageType : UInt8) (teid : UInt32) (body : List UInt8) : DpPacket :=
  udpPacket ([0x48, messageType, 0, (8 + body.length).toUInt8] ++ be32 teid ++ [0, 0, 0, 0] ++ body)

/-- A Create Session Response with the three information elements the manager looks for. -/
def createPacket (t2 : UInt32) (ies : SessionIes) : DpPacket :=
  gtpcPacket createSessionResponse t2
    ([ieFteid, 0, 9, 0, 0] ++ be32 ies.t4 ++ be32 0 ++ [iePaa, 0, 5, 0, 0] ++ be32 (htonl ies.ueip) ++
      [ieBearerContext, 0, 13, 0, ieFteid, 0, 9, 0, 0] ++ be32 ies.t5 ++ be32 0)

def deletePacket (t2 : UInt32) : DpPacket := gtpcPacket deleteSessionResponse t2 []

def gtpuPacket (teid : UInt32) : DpPacket := udpPacket ([0x30, 255, 0, 0] ++ be32 teid)

/-- Memory that `xmalloc` happens to return cleared. -/
def zeroTunnel : GtpTunnelNode := ⟨0, 0, 0, 0, 0, 0, 0⟩

/-- A PGW with address 10.0.0.`n`. -/
def samplePgw (n : UInt16) : GtpPgwNode := ⟨n, 0xa, n + 1, 0xb, 10 + n.toUInt32 * 0x1000000⟩

/-- A packet to the UDP port `udpPort`, received on `inPort` from 10.0.0.`n`. -/
def udpCtx (inPort udpPort n : UInt16) : XlateCtx :=
  ⟨⟨inPort, htons ethTypeIp, 0, (samplePgw n).gtpPgwIp, 0, ipprotoUdp, 0, htons udpPort⟩, ⟨0, 0⟩, []⟩

/-- The Create Session Response of PGW `n` on its port. -/
def createCall (n : UInt16) (t2 : UInt32) (ies : SessionIes) : Call :=
  .handleGtp (udpCtx n gtpcPort n) (some (createPacket t2 ies))

end LinkerOvs.Gtp
