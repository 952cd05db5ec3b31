/-
Session affinity: a packet from the physical port that is forwarded because its TEID or UE IP is in a
map goes to the PGW that sent the Create Session Response which entered it there. A session keeps only
the index of its PGW's slot, so this holds along the runs in which no PGW is added into a freed slot
that a session in the maps still points to; otherwise the newcomer gets the traffic of the old
owner's sessions.
-/
import LinkerOvs.Gtp.Steps

namespace LinkerOvs.Gtp

/-! ## Lookups by the handlers -/

/-- How a packet is sent on after a lookup in the maps of the kind. -/
def forwardOf : MapKind → XlateCtx → GtpPgwNode → XlateCtx
  | .teid => forwardGtp
  | .ueip => forwardSgi

/-- The handler calls that look a key up for a packet from the physical port: each by its result, the
family of maps and the key. -/
inductive LooksUp (s : Manager) (x : XlateCtx) : Except Fault (Manager × XlateCtx) → MapKind → UInt32 → Prop
  | gtpc {packet : DpPacket} {msg : GtpcMsgHeader} (hport : x.flow.inPort = s.ovsPhyPort)
      (hm : maybeGtpcMessage x.flow = true) (hp : parseGtpcMsgHeader packet = .ok (some msg))
      (hteid : msg.hasTeid = true) (hne : msg.teid ≠ 0) :
      LooksUp s x (handleGtp s x (some packet)) .teid msg.teid
  | gtpu {packet : DpPacket} {msg : GtpuMsgHeader} (hport : x.flow.inPort = s.ovsPhyPort)
      (hc : maybeGtpcMessage x.flow = false) (hm : maybeGtpuMessage x.flow = true)
      (hp : parseGtpuMessage packet = .ok (some msg)) (hne : msg.teid ≠ 0) (hfast : s.pgwFastpath = 0) :
      LooksUp s x (handleGtp s x (some packet)) .teid msg.teid
  | sgi {packet : DpPacket} (hport : x.flow.inPort = s.ovsPhyPort) (hfast : s.pgwFastpath = 0) :
      LooksUp s x (handlePgwSgi s x (some packet)) .ueip x.flow.nwDst

variable {s s' : Manager} {kind : MapKind} {e : Entry}

theorem LooksUp.result {x : XlateCtx} {r : Except Fault (Manager × XlateCtx)} {key : UInt32}
    (h : LooksUp s x r kind key) : r = forwardByMap kind (forwardOf kind) s x key := by
  cases h with
  | gtpc hport hm hp hteid hne => simp [handleGtp, hm, hp, handleGtpcMessage, hport, hteid, hne, forwardOf]
  | gtpu hport hc hm hp hne hfast => simp [handleGtp, hc, hm, hp, handleGtpuMessage, hport, hne, hfast, forwardOf]
  | sgi hport hfast => simp [handlePgwSgi, hport, hfast, forwardOf]

/-! ## Where an entry comes from -/

/-- Entry `e` of state `s` was entered by a Create Session Response among the calls, and `g` is what the
list said then of the PGW that sent it. -/
def InstalledBy (uninit : GtpTunnelNode) (calls : List Call) (s : Manager) (kind : MapKind) (e : Entry)
    (g : GtpPgwNode) : Prop :=
  ∃ calls₁ x packet calls₂ s₁ s₂ t2 ies i,
    calls = calls₁ ++ .handleGtp x (some packet) :: calls₂ ∧
    Run Step (gtpManagerInit uninit) calls₁ s₁ ∧ Step s₁ (.handleGtp x (some packet)) s₂ ∧ Run Step s₂ calls₂ s ∧
    CompleteCreate s₁ x packet t2 ies ∧ slotOf s₁ x.flow.nwSrc = some i ∧ g = s₁.pgwList i ∧
    e ∉ entries s₁ kind ∧ e ∈ entries s₂ kind

theorem InstalledBy.snoc {uninit : GtpTunnelNode} {calls : List Call}
    {g : GtpPgwNode} {c : Call} (h : InstalledBy uninit calls s kind e g) (hs : Step s c s') :
    InstalledBy uninit (calls ++ [c]) s' kind e g := by
  obtain ⟨calls₁, x, packet, calls₂, s₁, s₂, t2, ies, i, rfl, hr₁, hc, hr₂, hrest⟩ := h
  exact ⟨calls₁, x, packet, calls₂ ++ [c], s₁, s₂, t2, ies, i, by simp, hr₁, hc, hr₂.snoc hs, hrest⟩

/-- The condition on a call: a PGW that is added does not get a freed slot to which a session in the maps
still points. -/
def KeepsSlots (s : Manager) (c : Call) : Prop :=
  ∀ g i, c = .addPgw g → slotOf s 0 = some i →
    ∀ kind, ∀ e ∈ entries s kind, ∀ t, s.tunnels.get? e.tunnel = some t → t.pgwIndex ≠ i

/-- The slot of the session behind an entry holds the PGW that established it, or is free. -/
def SlotOk (s : Manager) (e : Entry) (g : GtpPgwNode) : Prop :=
  ∃ t, s.tunnels.get? e.tunnel = some t ∧ (s.pgwList t.pgwIndex = g ∨ (s.pgwList t.pgwIndex).gtpPgwIp = 0)

theorem Inv.pgwIndex_lt (hi : Inv .idle s) (he : e ∈ entries s kind) {t : GtpTunnelNode}
    (ht : s.tunnels.get? e.tunnel = some t) : t.pgwIndex < s.endIdx := by
  obtain ⟨hmem, n, hn, _, htun⟩ := mem_entriesOf he
  exact hi.pgwIndex e.node (mem_owned hmem) e.tunnel (by rw [tunnelOf_of_get? hn, htun]) t ht

/-- An entry that a Create Session Response adds has one of the next four nodes and points to the new tunnel
node. -/
theorem Installed.mem_cases {t : GtpTunnelNode} {t2 : UInt32} {ies : SessionIes}
    (h : Installed s s' t t2 ies) (he : e ∈ entries s' kind) :
    (s.nodes.next ≤ e.node ∧ e.tunnel = s.tunnels.next) ∨ e ∈ entries s kind := by
  cases kind with
  | teid =>
    rw [h.teids] at he
    grind
  | ueip =>
    rw [h.ueips] at he
    grind

/-- An entry of the state after a call was there before, with the slot of its PGW still its own, or the call
is the Create Session Response that entered it. -/
theorem Effect.entry_cases {c : Call} (h : Effect s c s') (hi : Inv .idle s) (hk : KeepsSlots s c)
    (he : e ∈ entries s' kind) : (e ∈ entries s kind ∧ ∀ g, SlotOk s e g → SlotOk s' e g) ∨
    ∃ x packet t2 ies i, c = .handleGtp x (some packet) ∧ CompleteCreate s x packet t2 ies ∧
      slotOf s x.flow.nwSrc = some i ∧ e ∉ entries s kind ∧ SlotOk s' e (s.pgwList i) := by
  cases h with
  | addPgw h =>
    obtain ⟨i, heq, hle, _, hslot⟩ := gtpManagerAddPgw_eq h
    rw [heq] at he ⊢
    have he' : e ∈ entries s kind := by cases kind <;> exact he
    refine .inl ⟨he', fun g hg => ?_⟩
    obtain ⟨t, ht, hg⟩ := hg
    -- the slot written to is another one
    have hne : t.pgwIndex ≠ i := by
      rcases hslot with hfree | hend
      · exact hk _ i rfl hfree kind e he' t ht
      · have hlt := hi.pgwIndex_lt he' ht
        omega
    exact ⟨t, ht, by simpa [Function.update_of_ne hne] using hg⟩
  | delPgw ip =>
    rcases gtpManagerDelPgw_eq s ip with heq | ⟨i, g', hz, heq⟩
    · simp_all
    rw [heq] at he ⊢
    refine .inl ⟨by cases kind <;> exact he, fun g hg => ?_⟩
    obtain ⟨t, ht, hg⟩ := hg
    refine ⟨t, ht, ?_⟩
    grind
  | setParams => exact .inl ⟨by cases kind <;> exact he, fun _ hg => hg⟩
  | unchanged => exact .inl ⟨he, fun _ hg => hg⟩
  | turn => exact .inl ⟨by cases kind <;> exact he, fun _ hg => hg⟩
  | leak =>
    refine .inl ⟨by cases kind <;> exact he, fun g hg => ?_⟩
    obtain ⟨t, ht, hg⟩ := hg
    exact ⟨t, CellHeap.get?_alloc_of_some _ ht, hg⟩
  | @install x packet t2 ies i hc hpgw =>
    obtain ⟨_, hinst⟩ := hi.installSession t2 ies (slotOf_lt hpgw)
    have hlist : (installSession s t2 ies i).pgwList = s.pgwList := by rw [hinst.config]
    rcases hinst.mem_cases he with ⟨hnode, htun⟩ | hold
    · refine .inr ⟨x, packet, t2, ies, i, rfl, hc, hpgw, fun hmem => ?_, ?_⟩
      · obtain ⟨n, _, hn, _⟩ := hi.entry hmem
        exact absurd (CellHeap.lt_next hn) (Nat.not_lt.2 hnode)
      · refine ⟨{ newTunnel s t2 ies with pgwIndex := i, refCount := 4 }, ?_, .inl (by rw [hlist])⟩
        rw [hinst.tunnels, htun, CellHeap.get?_alloc_next]
    · refine .inl ⟨hold, fun g hg => ?_⟩
      obtain ⟨t, ht, hg⟩ := hg
      exact ⟨t, by rw [hinst.tunnels]; exact CellHeap.get?_alloc_of_some _ ht, by rwa [hlist]⟩
  | delete hi' hd hleak =>
    have he' : e ∈ entries s kind := by
      cases kind with
      | teid => exact (Multimap.eraseAll_sublist hd.teids).subset he
      | ueip => exact (Multimap.eraseAll_sublist hd.ueips).subset he
    refine .inl ⟨he', fun g hg => ?_⟩
    obtain ⟨t, ht, hg⟩ := hg
    obtain ⟨_, t', _, _, _, ht', _⟩ := hi'.entry he
    obtain ⟨t'', ht'', heq⟩ := hd.keeps.tunnel e.tunnel t' ht'
    have htt : t'' = t := Option.some.inj (ht''.symm.trans ht)
    refine ⟨t', ht', ?_⟩
    rw [heq, htt, hd.keeps.config]
    exact hg

/-! ## Affinity -/

/-- Along every run in which no added PGW gets a slot that a session still points to, an entry that a lookup
finds was entered by a Create Session Response, and the packet is dropped or sent to the PGW that sent that
response, by what the list said of it then. -/
theorem forwarded_to_installer {uninit : GtpTunnelNode} {calls : List Call} {s : Manager}
    (hrun : Run.Meets Step KeepsSlots (gtpManagerInit uninit) calls s) {x : XlateCtx}
    {r : Except Fault (Manager × XlateCtx)} {kind : MapKind} {key : UInt32} {e : Entry}
    (hl : LooksUp s x r kind key) (he : lookup s kind key = some e) :
    ∃ g, InstalledBy uninit calls s kind e g ∧ (r = .ok (s, x) ∨ r = .ok (s, forwardOf kind x g)) := by
  have hinv : Inv .idle s := hrun.run.invariant (fun _ _ _ hi hs => hi.step hs) (inv_init uninit)
  -- every entry of a state the run passes has an origin in the run so far, and its slot is still its own
  have horigin : ∀ kind, ∀ e ∈ entries s kind, ∃ g, InstalledBy uninit calls s kind e g ∧ SlotOk s e g := by
    refine hrun.history (H := fun calls s => ∀ kind, ∀ e ∈ entries s kind,
      ∃ g, InstalledBy uninit calls s kind e g ∧ SlotOk s e g) (fun kind e he => ?_) ?_
    · cases kind <;> cases he
    · intro calls s c s' hrun ih hk hs kind e he
      have hi : Inv .idle s := hrun.invariant (fun _ _ _ hi hs => hi.step hs) (inv_init uninit)
      rcases (hi.effect hs).entry_cases hi hk he with ⟨hold, hslot⟩ | ⟨x, packet, t2, ies, i, rfl, hc, hi', hnew, hslot⟩
      · obtain ⟨g, hg, hok⟩ := ih kind e hold
        exact ⟨g, hg.snoc hs, hslot g hok⟩
      · exact ⟨s.pgwList i, ⟨calls, x, packet, [], s, s', t2, ies, i, rfl, hrun, hs, .nil s', hc, hi', rfl, hnew, he⟩, hslot⟩
  obtain ⟨g, hg, t, ht, hok⟩ := horigin kind e (lookup_mem he).1
  refine ⟨g, hg, ?_⟩
  rw [hl.result, hinv.forwardByMap]
  simp only [selectedPgw, he, ht, Option.bind_eq_bind, Option.bind_some]
  split
  · exact .inl rfl
  · rename_i hne
    rw [hok.resolve_right hne]
    exact .inr rfl

/-- A GTP-U packet with the TEID from the physical port. -/
def uplinkCtx : XlateCtx := udpCtx 1 gtpuPort 1

theorem forwarded_to_installer_uplink : ∃ calls s e g, InstalledBy zeroTunnel calls s .teid e g ∧
    handleGtp s uplinkCtx (some (gtpuPacket 9)) = .ok (s, forwardGtp uplinkCtx g) := by
  obtain ⟨s, e, x, hrun, hl, he, hx, hne⟩ : ∃ s e x, Run.Meets Step KeepsSlots (gtpManagerInit zeroTunnel)
      [.setParams 0 1 1 0, .addPgw (samplePgw 2), createCall 2 7 ⟨8, 9, 10⟩] s ∧
      LooksUp s uplinkCtx (handleGtp s uplinkCtx (some (gtpuPacket 9))) .teid 9 ∧ lookup s .teid 9 = some e ∧
      handleGtp s uplinkCtx (some (gtpuPacket 9)) = .ok (s, x) ∧ x ≠ uplinkCtx := by
    refine ⟨_, _, forwardGtp uplinkCtx (samplePgw 2), .cons ?_ rfl (.cons ?_ rfl (.cons ?_ rfl (.nil _))), ?_, rfl, rfl, by decide⟩
    · intro g i hc
      cases hc
    · intro g i _ hfree
      cases hfree
    · intro g i hc
      cases hc
    · exact @LooksUp.gtpu _ _ _ ⟨1, 255, 0, 9, 8, 50⟩ rfl rfl rfl rfl (by decide) rfl
  obtain ⟨g, hg, hr⟩ := forwarded_to_installer hrun hl he
  refine ⟨_, s, e, g, hg, hr.resolve_left fun hdropped => hne ?_⟩
  cases hx.symm.trans hdropped
  rfl

/-- PGW 2 establishes a session and is deleted, PGW 5 is added: the session's uplink traffic goes to
PGW 5. -/
theorem reused_slot_gets_traffic : ∃ calls s e, Run Step (gtpManagerInit zeroTunnel) calls s ∧
    LooksUp s uplinkCtx (handleGtp s uplinkCtx (some (gtpuPacket 9))) .teid 9 ∧ lookup s .teid 9 = some e ∧
    InstalledBy zeroTunnel calls s .teid e (samplePgw 2) ∧
    handleGtp s uplinkCtx (some (gtpuPacket 9)) = .ok (s, forwardGtp uplinkCtx (samplePgw 5)) ∧
    forwardGtp uplinkCtx (samplePgw 5) ≠ forwardGtp uplinkCtx (samplePgw 2) := by
  refine ⟨[.setParams 0 1 1 0, .addPgw (samplePgw 2), createCall 2 7 ⟨8, 9, 10⟩, .delPgw (samplePgw 2).gtpPgwIp,
      .addPgw (samplePgw 5)], _, _,
    .cons rfl (.cons rfl (.cons rfl (.cons rfl (.cons rfl (.nil _))))),
    @LooksUp.gtpu _ _ _ ⟨1, 255, 0, 9, 8, 50⟩ rfl rfl rfl rfl (by decide) rfl, rfl, ?_, rfl, by decide⟩
  refine ⟨[.setParams 0 1 1 0, .addPgw (samplePgw 2)], udpCtx 2 gtpcPort 2, createPacket 7 ⟨8, 9, 10⟩,
    [.delPgw (samplePgw 2).gtpPgwIp, .addPgw (samplePgw 5)], _, _, 7, ⟨8, 9, 10⟩, 0, rfl,
    .cons rfl (.cons rfl (.nil _)), rfl, .cons rfl (.cons rfl (.nil _)), ?_, rfl, rfl, by decide, by decide⟩
  exact ⟨rfl, ⟨⟨2, true, 33, 47, 7, 0, 12, 54⟩, rfl, rfl, rfl, by decide, rfl, rfl⟩, by decide, rfl, rfl⟩

end LinkerOvs.Gtp
