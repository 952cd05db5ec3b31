/-
Reference counting of tunnel nodes (`struct gtp_tunnel_node`): the counter of a node is the number of
map entries that point to it, the node is freed with the last of them, and no entry dangles. This
holds along every run in which each complete Create Session Response comes from a PGW of the list;
one from anywhere else leaves its tunnel node behind for good.
-/
import LinkerOvs.Gtp.Steps

namespace LinkerOvs.Gtp

/-- The entries of both families of maps that point to tunnel node `i`. -/
def entryCount (s : Manager) (i : Nat) : Nat :=
  (entries s .teid).countP (fun e => e.tunnel = i) + (entries s .ueip).countP (fun e => e.tunnel = i)

/-- The counters of the tunnel nodes are right, and what is not pointed to is freed. -/
structure RefCounted (s : Manager) : Prop where
  counts : ∀ i t, s.tunnels.get? i = some t → t.refCount = entryCount s i
  freed : ∀ i, i < s.tunnels.next → (s.tunnels.get? i = none ↔ entryCount s i = 0)
  pointedTo : ∀ i t, s.tunnels.get? i = some t → 0 < entryCount s i
  noDangling : ∀ kind, ∀ c ∈ mapOf s kind, ∃ n t, s.nodes.get? c.node = some n ∧ s.tunnels.get? n.gtpTunnelNode = some t

/-- A complete Create Session Response comes from a PGW of the list. -/
def KnownSender (s : Manager) (c : Call) : Prop :=
  ∀ x packet t2 ies, c = .handleGtp x (some packet) → CompleteCreate s x packet t2 ies →
    ∃ i < s.endIdx, (s.pgwList i).gtpPgwIp = x.flow.nwSrc

theorem slotOf_eq_none {s : Manager} {ip : UInt32} (h : slotOf s ip = none) :
    ∀ i < s.endIdx, (s.pgwList i).gtpPgwIp ≠ ip := by
  intro i hi
  have := List.find?_eq_none.1 h i (List.mem_range.2 hi)
  simpa using this

theorem NoLeak.of_config {s s' : Manager} (hl : NoLeak .idle s) (hteid : s'.teid2pgw = s.teid2pgw)
    (hueip : s'.ueip2pgw = s.ueip2pgw) (hnodes : s'.nodes = s.nodes) (htunnels : s'.tunnels = s.tunnels) :
    NoLeak .idle s' := by
  intro i t ht
  rw [htunnels] at ht
  rw [hnodes, owned_congr .idle hteid hueip]
  exact hl i t ht

theorem Effect.noLeak {s s' : Manager} {c : Call} (h : Effect s c s') (hi : Inv .idle s) (hk : KnownSender s c)
    (hl : NoLeak .idle s) : NoLeak .idle s' := by
  cases h with
  | addPgw h =>
    obtain ⟨i, heq, _⟩ := gtpManagerAddPgw_eq h
    rw [heq]
    exact hl.of_config rfl rfl rfl rfl
  | delPgw ip =>
    rcases gtpManagerDelPgw_eq s ip with heq | ⟨i, g, _, heq⟩
    · rwa [heq]
    · rw [heq]
      exact hl.of_config rfl rfl rfl rfl
  | setParams => exact hl.of_config rfl rfl rfl rfl
  | unchanged => exact hl
  | turn => exact hl.of_config rfl rfl rfl rfl
  | leak hc hpgw =>
    obtain ⟨i, hlt, hip⟩ := hk _ _ _ _ rfl hc
    exact absurd hip (slotOf_eq_none hpgw i hlt)
  | install hc hpgw => exact (hi.installSession _ _ (slotOf_lt hpgw)).2.noLeak hl
  | delete _ _ hleak => exact hleak hl

theorem Inv.refCounted {s : Manager} (hi : Inv .idle s) (hl : NoLeak .idle s) : RefCounted s := by
  have hpos : ∀ i t, s.tunnels.get? i = some t → 0 < entryCount s i := fun i t ht => by
    rw [entryCount, ← refs_idle]
    exact hl i t ht
  -- a positive count comes from a live node, whose tunnel node carries the count
  have hcount : ∀ i, 0 < entryCount s i → ∃ t, s.tunnels.get? i = some t ∧ t.refCount = entryCount s i := by
    intro i h
    rw [entryCount, ← refs_idle] at h
    obtain ⟨q, hq, hqi⟩ := List.countP_pos_iff.1 h
    obtain ⟨t, ht, hc⟩ := hi.counted.tunnel q hq i (by simpa using hqi)
    exact ⟨t, ht, by rw [hc, refs_idle, entryCount]⟩
  refine ⟨fun i t ht => ?_, fun i _ => ⟨fun h => ?_, fun h => ?_⟩, hpos, fun kind c hc => ?_⟩
  · grind
  · grind
  · cases ht : s.tunnels.get? i with
    | none => rfl
    | some t => exact absurd h (Nat.pos_iff_ne_zero.1 (hpos i t ht))
  · obtain ⟨n, hn, _⟩ := hi.slot hc
    obtain ⟨t, ht, _⟩ := hi.counted.tunnel c.node (mem_owned (List.mem_map_of_mem hc)) _ (tunnelOf_of_get? hn)
    exact ⟨n, t, hn, ht⟩

/-- Along every run in which each complete Create Session Response comes from a PGW of the list, the
counter of each tunnel node is the number of entries that point to it and it is freed with the last. -/
theorem tunnelNodes_refCounted {uninit : GtpTunnelNode} {calls : List Call} {s : Manager}
    (h : Run.Meets Step KnownSender (gtpManagerInit uninit) calls s) : RefCounted s := by
  have hinv : Inv .idle s ∧ NoLeak .idle s := by
    refine h.invariant (I := fun s => Inv .idle s ∧ NoLeak .idle s) ?_ ⟨inv_init uninit, fun i t ht => by cases ht⟩
    rintro s c s' ⟨hi, hl⟩ hk hs
    exact ⟨hi.step hs, (hi.effect hs).noLeak hi hk hl⟩
  exact hinv.1.refCounted hinv.2

theorem tunnelNodes_refCounted_one_session : ∃ s, RefCounted s ∧ entryCount s 0 = 4 := by
  have hconfig : ∀ s c, (∀ x packet, c ≠ .handleGtp x packet) → KnownSender s c := fun s c hc x packet _ _ h =>
    absurd h (hc x packet)
  obtain ⟨s, hrun, hcount⟩ : ∃ s, Run.Meets Step KnownSender (gtpManagerInit zeroTunnel)
      [.setParams 0 1 1 0, .addPgw (samplePgw 2), createCall 2 7 ⟨8, 9, 10⟩] s ∧ entryCount s 0 = 4 := by
    refine ⟨_, .cons (hconfig _ _ (by simp)) rfl (.cons (hconfig _ _ (by simp)) rfl (.cons ?_ rfl (.nil _))), by decide⟩
    intro x packet t2 ies hc _
    cases hc
    exact ⟨0, by decide, rfl⟩
  exact ⟨s, tunnelNodes_refCounted hrun, hcount⟩

/-- A complete Create Session Response from an address that is not in the list: its tunnel node is
allocated, and no entry ever points to it. -/
theorem create_from_unknown_leaks : ∃ calls s, Run Step (gtpManagerInit zeroTunnel) calls s ∧ ¬ RefCounted s := by
  refine ⟨[.setParams 0 1 1 0, createCall 2 7 ⟨8, 9, 10⟩], _, .cons rfl (.cons rfl (.nil _)), fun h => ?_⟩
  exact absurd (h.pointedTo 0 _ rfl) (by decide)

/-- After any calls and packets, an entry of the maps points to a live tunnel node under one of its own keys,
whose counter is the number of entries that point to it and whose PGW's slot is in the list. -/
theorem reachable_entry {s : Manager} (h : Reachable s) {kind : MapKind} {e : Entry} (he : e ∈ entries s kind) :
    ∃ t, s.tunnels.get? e.tunnel = some t ∧ t.refCount = entryCount s e.tunnel ∧ e.key ∈ sessionKeys t kind ∧
      t.pgwIndex < s.endIdx ∧ s.endIdx ≤ maxPgwPerNode := by
  have hi := h.inv
  obtain ⟨hmem, n, hn, -, htun⟩ := mem_entriesOf he
  have hpoints : tunnelOf s.nodes e.node = some e.tunnel := by
    rw [tunnelOf_of_get? hn, htun]
  obtain ⟨t, ht, hcount⟩ := hi.counted.tunnel e.node (mem_owned hmem) e.tunnel hpoints
  rw [refs_idle] at hcount
  refine ⟨t, ht, hcount, List.count_pos_iff.1 ?_, hi.pgwIndex e.node (mem_owned hmem) e.tunnel hpoints t ht, hi.endIdx⟩
  -- the entry itself is among those that the keys of its session bound
  have hself : 0 < (Multimap.withKey Entry.key e.key (entries s kind)).countP (fun e' => e'.tunnel = e.tunnel) :=
    List.countP_pos_iff.2 ⟨e, Multimap.mem_withKey.2 ⟨he, rfl⟩, decide_eq_true rfl⟩
  exact hself.trans_le (hi.keys kind e.tunnel t ht e.key)

theorem reachable_entry_one_session : ∃ s e, Reachable s ∧ e ∈ entries s .ueip ∧
    ∃ t, s.tunnels.get? e.tunnel = some t ∧ e.key ∈ sessionKeys t .ueip := by
  obtain ⟨s, hs, e, he⟩ : ∃ s, Reachable s ∧ ∃ e, e ∈ entries s .ueip :=
    ⟨_, ⟨zeroTunnel, [.setParams 0 1 1 0, .addPgw (samplePgw 2), createCall 2 7 ⟨8, 9, 10⟩],
      .cons rfl (.cons rfl (.cons rfl (.nil _)))⟩, List.exists_mem_of_length_pos (by decide)⟩
  obtain ⟨t, ht, -, hkey, -⟩ := reachable_entry hs he
  exact ⟨s, e, hs, he, t, ht, hkey⟩

end LinkerOvs.Gtp
