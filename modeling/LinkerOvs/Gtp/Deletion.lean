/-
A Delete Session Response erases, for each key of the session it finds, the newest entry with that key,
whoever's session the entry belongs to. The deletion is exact - the session's entries go and no other -
just when, for each key of the session, the newest entries with the key are the session's own, as many as
the session has the key.
-/
import LinkerOvs.Gtp.Steps

namespace LinkerOvs.Gtp

open List

/-- A Delete Session Response from the PGW side, with header TEID `t2`. -/
structure IsDelete (s : Manager) (x : XlateCtx) (msg : GtpcMsgHeader) (t2 : UInt32) : Prop where
  fromPgw : x.flow.inPort ≠ s.ovsPhyPort
  hasTeid : msg.hasTeid = true
  teid : msg.teid = t2
  teidNe : t2 ≠ 0
  type : msg.messageType = deleteSessionResponse

/-- The TEID is that of the session in tunnel node `i`, and the session is entered under it. -/
structure BelongsTo (s : Manager) (t2 : UInt32) (i : Nat) (t : GtpTunnelNode) : Prop where
  tunnel : s.tunnels.get? i = some t
  teid : t.teid2PgwC = t2
  entered : ∃ e ∈ entries s .teid, e.key = t2 ∧ e.tunnel = i

/-- The deletion of the session in tunnel node `i` is exact: the message is handled, no entry points to the
session any more, and every entry of another session is still there and leads to the same tunnel node. -/
def ExactDeletion (s : Manager) (r : Except Fault (Manager × XlateCtx)) (i : Nat) : Prop :=
  ∃ s' x', r = .ok (s', x') ∧ ∀ kind, (∀ e ∈ entries s' kind, e.tunnel ≠ i) ∧
    ∀ e ∈ entries s kind, e.tunnel ≠ i → e ∈ entries s' kind ∧
      ∃ t t', s.tunnels.get? e.tunnel = some t ∧ s'.tunnels.get? e.tunnel = some t' ∧
        t' = { t with refCount := t'.refCount }

/-- For each key of the session, its newest entries are the session's, as many as the session has the key. -/
def NewestOwn (s : Manager) (i : Nat) (t : GtpTunnelNode) : Prop :=
  ∀ kind k, (sessionKeys t kind).count k ≤ (Multimap.withKey Entry.key k (entries s kind)).length ∧
    ∀ e ∈ (Multimap.withKey Entry.key k (entries s kind)).take ((sessionKeys t kind).count k), e.tunnel = i

theorem entriesOf_map_node_sublist (nodes : CellHeap MapNode) : ∀ m : PartMap,
    ((entriesOf nodes m).map (·.node)).Sublist (ChainSlot.nodes m)
  | [] => List.Sublist.refl _
  | c :: m => by
    cases hn : nodes.get? c.node with
    | none =>
      have hskip : entriesOf nodes (c :: m) = entriesOf nodes m := by simp [entriesOf, entryAt, hn]
      rw [hskip]
      exact (entriesOf_map_node_sublist nodes m).cons _
    | some n =>
      rw [entriesOf_cons m hn]
      exact (entriesOf_map_node_sublist nodes m).cons_cons _

variable {s : Manager} {t2 : UInt32} {t : GtpTunnelNode} {i : Nat}

theorem Inv.entries_nodup {h : Hold} (hi : Inv h s) (kind : MapKind) : (entries s kind).Nodup :=
  List.Nodup.of_map _ ((entriesOf_map_node_sublist s.nodes (mapOf s kind)).nodup (hi.mapNodup kind))

theorem IsDelete.handle {x : XlateCtx} {msg : GtpcMsgHeader} (h : IsDelete s x msg t2) (packet : DpPacket) :
    handleGtpcMessage s x msg packet = deleteSession s x t2 := by
  have hne : deleteSessionResponse ≠ createSessionResponse := by decide
  simp [handleGtpcMessage, h.fromPgw, h.hasTeid, h.teid, h.teidNe, h.type, hne]

/-- A deletion that is exact for a session found its entry first under the TEID. -/
theorem Deleted.lookup_tunnel {s' : Manager} (hi : Inv .idle s) {e : Entry}
    (hd : Deleted s s' t2 t) (hl : lookup s .teid t2 = some e)
    (hkeep : ∀ e ∈ entries s .teid, e.tunnel ≠ i → e ∈ entries s' .teid) : e.tunnel = i := by
  by_contra hne
  obtain ⟨hmem, hkey⟩ := lookup_mem hl
  have hleft : e ∈ Multimap.withKey Entry.key t2 (entries s' .teid) :=
    Multimap.mem_withKey.2 ⟨hkeep e hmem hne, hkey⟩
  rw [Multimap.withKey_eraseAll hd.teids] at hleft
  -- the entry found is the newest under the TEID, which is erased at least once
  have hcons := Multimap.withKey_of_lookup hl
  have hnd : (Multimap.withKey Entry.key t2 (entries s .teid)).Nodup := (hi.entries_nodup .teid).filter _
  rw [hcons] at hleft hnd
  have hcount : 0 < [t.teid4SgwC, t.teid5SgwU, t2].count t2 := count_pos_iff.2 (by simp)
  obtain ⟨n, hn⟩ := Nat.exists_eq_succ_of_ne_zero (Nat.pos_iff_ne_zero.1 hcount)
  grind

theorem NewestOwn.lookup_tunnel (h : NewestOwn s i t) {e : Entry} (hl : lookup s .teid t.teid2PgwC = some e) :
    e.tunnel = i := by
  have hcount : 0 < (sessionKeys t .teid).count t.teid2PgwC := count_pos_iff.2 (by simp [sessionKeys])
  obtain ⟨n, hn⟩ := Nat.exists_eq_succ_of_ne_zero (Nat.pos_iff_ne_zero.1 hcount)
  refine (h .teid t.teid2PgwC).2 e ?_
  rw [Multimap.withKey_of_lookup hl, hn]
  exact mem_cons_self

theorem BelongsTo.lookup_isSome (h : BelongsTo s t2 i t) : ∃ e, lookup s .teid t2 = some e := by
  obtain ⟨e, he, hkey, _⟩ := h.entered
  exact Option.isSome_iff_exists.1 (find?_isSome.2 ⟨e, he, by simpa using hkey⟩)

/-- The two maps after an exact deletion, by what is erased from each of them. -/
theorem Inv.newestOwn_iff (hi : Inv .idle s) (ht : s.tunnels.get? i = some t) :
    NewestOwn s i t ↔ ∀ kind, ∃ l, Multimap.eraseAll Entry.key (sessionKeys t kind) (entries s kind) = some l ∧
      (∀ e ∈ l, ¬ e.tunnel = i) ∧ ∀ e ∈ entries s kind, ¬ e.tunnel = i → e ∈ l :=
  forall_congr' fun kind => (Multimap.eraseAll_exact (fun e => e.tunnel = i) (hi.entries_nodup kind)
    (hi.keys kind i t ht)).symm

/-- Deleting a session is exact just when the newest entries under its keys are its own. -/
theorem deletion_exact_iff {s : Manager} (hs : Reachable s) {x : XlateCtx} {msg : GtpcMsgHeader} {packet : DpPacket}
    {t2 : UInt32} {i : Nat} {t : GtpTunnelNode} (hm : IsDelete s x msg t2) (hb : BelongsTo s t2 i t) :
    ExactDeletion s (handleGtpcMessage s x msg packet) i ↔ NewestOwn s i t := by
  have hi := hs.inv
  obtain ⟨e, hl⟩ := hb.lookup_isSome
  obtain ⟨_, t₀, _, _, _, ht₀, _⟩ := hi.entry (lookup_mem hl).1
  have hteid := hb.teid
  subst hteid
  -- once the entry found is the session's, the keys erased are the session's
  have hsame : e.tunnel = i → t₀ = t := fun h => Option.some.inj (ht₀.symm.trans (h ▸ hb.tunnel))
  rw [hm.handle]
  constructor
  · rintro ⟨s', x', hr, hexact⟩
    rcases hi.deleteSession_some x hl ht₀ with ⟨s₁, hs₁, _, hd, _⟩ | ⟨he, _⟩
    · rw [hs₁] at hr
      cases hr
      have htun := hd.lookup_tunnel hi hl fun e he hne => ((hexact .teid).2 e he hne).1
      obtain rfl := hsame htun
      rw [hi.newestOwn_iff hb.tunnel]
      intro kind
      refine ⟨entries s' kind, ?_, (hexact kind).1, fun e he hne => ((hexact kind).2 e he hne).1⟩
      cases kind
      · exact hd.teids
      · exact hd.ueips
    · rw [he] at hr
      cases hr
  · intro hnew
    obtain rfl := hsame (hnew.lookup_tunnel hl)
    have hera := (hi.newestOwn_iff hb.tunnel).1 hnew
    rcases hi.deleteSession_some x hl ht₀ with ⟨s₁, hs₁, hi₁, hd, _⟩ | ⟨_, hnot⟩
    · refine ⟨s₁, _, hs₁, fun kind => ?_⟩
      obtain ⟨l, hl', hno, hkeep⟩ := hera kind
      have hl₁ : l = entries s₁ kind := by
        cases kind
        · exact Option.some.inj (hl'.symm.trans hd.teids)
        · exact Option.some.inj (hl'.symm.trans hd.ueips)
      subst hl₁
      refine ⟨hno, fun e he hne => ⟨hkeep e he hne, ?_⟩⟩
      obtain ⟨_, t', _, _, _, ht', _⟩ := hi₁.entry (hkeep e he hne)
      obtain ⟨t'', ht'', heq⟩ := hd.keeps.tunnel e.tunnel t' ht'
      exact ⟨t'', t', ht'', ht', heq⟩
    · refine absurd ⟨?_, ?_⟩ hnot
      · obtain ⟨l, hl', _⟩ := hera .teid
        rw [show [t₀.teid4SgwC, t₀.teid5SgwU, t₀.teid2PgwC] = sessionKeys t₀ .teid from rfl, hl']
        rfl
      · obtain ⟨l, hl', _⟩ := hera .ueip
        rw [show [t₀.ueIp] = sessionKeys t₀ .ueip from rfl, hl']
        rfl

/-- The header of `deletePacket t2`. -/
def deleteHeader (t2 : UInt32) : GtpcMsgHeader := ⟨2, true, deleteSessionResponse, 8, t2, 0, 12, 54⟩

example : parseGtpcMsgHeader (deletePacket 7) = .ok (some (deleteHeader 7)) := rfl

/-- Of two sessions one is deleted; the entries of the other one have to stay. -/
theorem deletion_exact_iff_one_session : ∃ s, Reachable s ∧ ⟨4, 18, 1⟩ ∈ entries s .teid ∧
    ExactDeletion s (handleGtpcMessage s (udpCtx 2 gtpcPort 2) (deleteHeader 7) (deletePacket 7)) 0 := by
  obtain ⟨s, t, hrun, hm, hb, hother, hall⟩ : ∃ s t, Run Step (gtpManagerInit zeroTunnel)
      [.setParams 0 1 1 0, .addPgw (samplePgw 2), .addPgw (samplePgw 3), createCall 2 7 ⟨8, 9, 10⟩,
        createCall 3 17 ⟨18, 19, 20⟩] s ∧
      IsDelete s (udpCtx 2 gtpcPort 2) (deleteHeader 7) 7 ∧ BelongsTo s 7 0 t ∧ ⟨4, 18, 1⟩ ∈ entries s .teid ∧
      ∀ kind, ∃ l, Multimap.eraseAll Entry.key (sessionKeys t kind) (entries s kind) = some l ∧
        (∀ e ∈ l, ¬ e.tunnel = 0) ∧ ∀ e ∈ entries s kind, ¬ e.tunnel = 0 → e ∈ l := by
    refine ⟨_, _, .cons rfl (.cons rfl (.cons rfl (.cons rfl (.cons rfl (.nil _))))),
      ⟨by decide, rfl, rfl, by decide, rfl⟩, ⟨rfl, rfl, ⟨3, 7, 0⟩, by decide, rfl, rfl⟩, by decide, fun kind => ?_⟩
    cases kind with
    | teid => exact ⟨[⟨7, 17, 1⟩, ⟨5, 19, 1⟩, ⟨4, 18, 1⟩], by decide, by decide, by decide⟩
    | ueip => exact ⟨[⟨6, 20, 1⟩], by decide, by decide, by decide⟩
  have hs : Reachable s := ⟨_, _, hrun⟩
  exact ⟨s, hs, hother, (deletion_exact_iff hs hm hb).2 ((hs.inv.newestOwn_iff hb.tunnel).2 hall)⟩

/-- Two sessions share the TEID 8: deleting the older one takes the younger one's entry and leaves its
own. -/
theorem shared_teid_deletes_other : ∃ s t, Reachable s ∧ IsDelete s (udpCtx 2 gtpcPort 2) (deleteHeader 7) 7 ∧
    BelongsTo s 7 0 t ∧
    ¬ ExactDeletion s (handleGtpcMessage s (udpCtx 2 gtpcPort 2) (deleteHeader 7) (deletePacket 7)) 0 := by
  obtain ⟨s, t, s₁, x₁, hrun, hm, hb, hr, hleft⟩ : ∃ s t s₁ x₁, Run Step (gtpManagerInit zeroTunnel)
      [.setParams 0 1 1 0, .addPgw (samplePgw 2), .addPgw (samplePgw 3), createCall 2 7 ⟨8, 9, 10⟩,
        createCall 3 17 ⟨8, 19, 20⟩] s ∧
      IsDelete s (udpCtx 2 gtpcPort 2) (deleteHeader 7) 7 ∧ BelongsTo s 7 0 t ∧
      handleGtpcMessage s (udpCtx 2 gtpcPort 2) (deleteHeader 7) (deletePacket 7) = .ok (s₁, x₁) ∧
      ⟨0, 8, 0⟩ ∈ entries s₁ .teid :=
    ⟨_, _, _, _, .cons rfl (.cons rfl (.cons rfl (.cons rfl (.cons rfl (.nil _))))),
      ⟨by decide, rfl, rfl, by decide, rfl⟩, ⟨rfl, rfl, ⟨3, 7, 0⟩, by decide, rfl, rfl⟩, rfl, by decide⟩
  refine ⟨s, t, ⟨_, _, hrun⟩, hm, hb, ?_⟩
  rintro ⟨s', x', hr', hexact⟩
  rw [hr] at hr'
  cases hr'
  exact (hexact .teid).1 _ hleft rfl

end LinkerOvs.Gtp
