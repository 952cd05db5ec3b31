/-
What the messages of a session do to the maps: a Create Session Response enters the session under
its three TEIDs and its UE IP, a Delete Session Response erases one entry for each of these keys,
whoever's it is, and forwarding by a map leaves the manager as it was. All of them keep the counting
invariant.
-/
import LinkerOvs.Gtp.Maps

namespace LinkerOvs.Gtp

open List

/-! ## Create Session Response -/

/-- The counting invariant while `k` of the references that tunnel node `i` already counts have yet to
be entered in the maps. -/
structure Installing (s : Manager) (i k : Nat) : Prop where
  nodup : (owned .idle s).Nodup
  node : ∀ q ∈ owned .idle s, ∃ n, s.nodes.get? q = some n ∧ n.refCount = 1
  tunnel : ∀ q ∈ owned .idle s, ∀ j, tunnelOf s.nodes q = some j →
    ∃ t, s.tunnels.get? j = some t ∧ t.pgwIndex < s.endIdx ∧
      t.refCount = refs s.nodes (owned .idle s) j + if j = i then k else 0
  target : ∃ t, s.tunnels.get? i = some t ∧ t.pgwIndex < s.endIdx ∧ t.refCount = refs s.nodes (owned .idle s) i + k
  bucket : ∀ kind, ∀ c ∈ mapOf s kind, ∀ n, s.nodes.get? c.node = some n → c.bucket = bucketOf kind n.key

variable (kind : MapKind) (s : Manager) (key : UInt32)

theorem owned_putPgw (i : Nat) :
    (owned .idle (putPgw kind s key i)).Perm (s.nodes.next :: owned .idle s) := by
  cases kind with
  | teid => exact List.Perm.refl _
  | ueip =>
    simp only [owned, append_assoc]
    exact perm_middle

@[simp] theorem nodes_putPgw (i : Nat) :
    (putPgw kind s key i).nodes = s.nodes.alloc ⟨key, i, 1⟩ := by
  simp [putPgw]

@[simp] theorem tunnels_putPgw (i : Nat) :
    (putPgw kind s key i).tunnels = s.tunnels := by
  simp [putPgw]

theorem putPgw_config (i : Nat) :
    putPgw kind s key i = { s with
      teid2pgw := (putPgw kind s key i).teid2pgw, ueip2pgw := (putPgw kind s key i).ueip2pgw,
      nodes := (putPgw kind s key i).nodes } := by
  cases kind <;> rfl

variable {s : Manager} {i k : Nat} {h : Hold} {t : GtpTunnelNode} {t2 : UInt32}

theorem mem_mapOf_putPgw {kind kind' : MapKind} {key : UInt32}
    {c : ChainSlot (UInt32 × UInt32)} (hc : c ∈ mapOf (putPgw kind s key i) kind') :
    (kind' = kind ∧ c = ⟨bucketOf kind key, s.nodes.next⟩) ∨ c ∈ mapOf s kind' := by
  by_cases hk : kind' = kind
  · subst hk
    rw [putPgw, mapOf_setMap_self] at hc
    exact (mem_cons.1 hc).imp_left fun h => ⟨rfl, h⟩
  · rw [putPgw, mapOf_setMap_of_ne hk] at hc
    exact .inr (by cases kind' <;> exact hc)

theorem entryAt_alloc {nodes : CellHeap MapNode} (n : MapNode) {q : Nat} (hq : q ≠ nodes.next) :
    entryAt (nodes.alloc n) q = entryAt nodes q :=
  entryAt_congr (CellHeap.get?_alloc_of_ne n hq)

theorem Installing.ne_next (h : Installing s i k) {q : Nat} (hq : q ∈ owned .idle s) : q ≠ s.nodes.next := by
  obtain ⟨n, hn, _⟩ := h.node q hq
  exact Nat.ne_of_lt (CellHeap.lt_next hn)

theorem Installing.put (h : Installing s i (k + 1)) (kind : MapKind) (key : UInt32) :
    Installing (putPgw kind s key i) i k := by
  have hperm := owned_putPgw kind s key i
  have hnew : tunnelOf (s.nodes.alloc ⟨key, i, 1⟩) s.nodes.next = some i :=
    tunnelOf_of_get? (CellHeap.get?_alloc_next _ _)
  have hold : ∀ q ∈ owned .idle s, tunnelOf (s.nodes.alloc ⟨key, i, 1⟩) q = tunnelOf s.nodes q := fun q hq =>
    tunnelOf_congr (entryAt_alloc _ (h.ne_next hq))
  have hrefs : ∀ j, refs (s.nodes.alloc ⟨key, i, 1⟩) (owned .idle (putPgw kind s key i)) j =
      refs s.nodes (owned .idle s) j + if j = i then 1 else 0 := by
    intro j
    rw [refs, hperm.countP_eq]
    refine (refs_cons _ _ _ j).trans ?_
    rw [refs_congr hold, hnew]
    simp only [Option.some.injEq, eq_comm]
  have hend : (putPgw kind s key i).endIdx = s.endIdx := by rw [putPgw_config]
  have htarget : ∃ t, s.tunnels.get? i = some t ∧ t.pgwIndex < s.endIdx ∧
      t.refCount = refs (s.nodes.alloc ⟨key, i, 1⟩) (owned .idle (putPgw kind s key i)) i + k := by
    obtain ⟨t, ht, hidx, hc⟩ := h.target
    grind
  refine ⟨?_, fun q hq => ?_, fun q hq j hj => ?_, ?_, fun kind' c hc n hn => ?_⟩
  · rw [hperm.nodup_iff, nodup_cons]
    exact ⟨fun hmem => h.ne_next hmem rfl, h.nodup⟩
  · rw [nodes_putPgw]
    rcases mem_cons.1 (hperm.mem_iff.1 hq) with rfl | hq'
    · exact ⟨⟨key, i, 1⟩, CellHeap.get?_alloc_next _ _, rfl⟩
    · obtain ⟨n, hn, hc⟩ := h.node q hq'
      exact ⟨n, CellHeap.get?_alloc_of_some _ hn, hc⟩
  · rw [nodes_putPgw] at hj ⊢
    rw [tunnels_putPgw, hend]
    by_cases hji : j = i
    · simp_all
    rcases mem_cons.1 (hperm.mem_iff.1 hq) with rfl | hq'
    · simp_all
    · obtain ⟨t, ht, hidx, hc⟩ := h.tunnel q hq' j (by rw [← hold q hq', hj])
      simp [*]
  · simp_all
  · rw [nodes_putPgw] at hn
    rcases mem_mapOf_putPgw hc with ⟨rfl, rfl⟩ | hc'
    · rw [CellHeap.get?_alloc_next] at hn
      cases hn
      rfl
    · rw [CellHeap.get?_alloc_of_ne _ (h.ne_next (mem_owned (mem_map_of_mem hc')))] at hn
      exact h.bucket kind' c hc' n hn

theorem Installing.entries_put (h : Installing s i k) (kind : MapKind) (key : UInt32)
    (kind' : MapKind) : entries (putPgw kind s key i) kind' =
      if kind' = kind then ⟨s.nodes.next, key, i⟩ :: entries s kind' else entries s kind' := by
  have hold : entriesOf (s.nodes.alloc ⟨key, i, 1⟩) (mapOf s kind') = entries s kind' :=
    entriesOf_congr fun q hq => entryAt_alloc _ (h.ne_next (mem_owned hq))
  split
  · rename_i hk
    subst hk
    rw [entries, nodes_putPgw, putPgw, mapOf_setMap_self,
      entriesOf_cons (n := ⟨key, i, 1⟩) _ (CellHeap.get?_alloc_next _ _)]
    rw [hold]
  · rename_i hk
    have hmap : mapOf (putPgw kind s key i) kind' = mapOf s kind' := by
      rw [putPgw, mapOf_setMap_of_ne hk]
      cases kind' <;> rfl
    rw [entries, hmap, nodes_putPgw, hold]

theorem Inv.entry_tunnel_lt (hi : Inv h s) {kind : MapKind} {e : Entry} (he : e ∈ entries s kind) :
    e.tunnel < s.tunnels.next := by
  obtain ⟨_, t, _, _, _, ht, _⟩ := hi.entry he
  exact CellHeap.lt_next ht

theorem Inv.refs_next (hi : Inv h s) : refs s.nodes (owned h s) s.tunnels.next = 0 := by
  rw [refs, countP_eq_zero]
  intro q hq hqi
  obtain ⟨t, ht, _⟩ := hi.counted.tunnel q hq _ (by simpa using hqi)
  exact absurd (CellHeap.lt_next ht) (Nat.lt_irrefl _)

theorem Inv.withKey_next (hi : Inv h s) (kind : MapKind) (k : UInt32) :
    (Multimap.withKey Entry.key k (entries s kind)).countP (fun e => e.tunnel = s.tunnels.next) = 0 := by
  rw [countP_eq_zero]
  intro e he heq
  have hlt := hi.entry_tunnel_lt (Multimap.mem_withKey.1 he).1
  simp_all

/-- How many entries under a key point to tunnel node `j`, when the newest ones all point to `i`. -/
theorem countP_withKey_append {new old : List Entry} (hnew : ∀ e ∈ new, e.tunnel = i) (j : Nat) (k : UInt32) :
    (Multimap.withKey Entry.key k (new ++ old)).countP (fun e => e.tunnel = j) =
      (if j = i then (new.map Entry.key).count k else 0) +
        (Multimap.withKey Entry.key k old).countP (fun e => e.tunnel = j) := by
  rw [Multimap.withKey, filter_append, countP_append]
  congr 1
  rw [countP_filter]
  split
  · rename_i hj
    rw [List.count, countP_map]
    refine countP_congr fun e he => ?_
    simp [hnew e he, hj]
  · grind

theorem Inv.installing (hi : Inv .idle s) (hidx : t.pgwIndex < s.endIdx) (hc : t.refCount = 4) :
    Installing { s with tunnels := s.tunnels.alloc t } s.tunnels.next 4 := by
  refine ⟨hi.counted.nodup, fun q hq => ?_, fun q hq j hj => ?_, ?_, hi.bucket⟩
  · obtain ⟨n, hn, hcn⟩ := hi.counted.node q hq
    exact ⟨n, hn, by simpa [Hold.second] using hcn⟩
  · obtain ⟨t', ht', hc'⟩ := hi.counted.tunnel q hq j hj
    refine ⟨t', CellHeap.get?_alloc_of_some _ ht', hi.pgwIndex q hq j hj t' ht', ?_⟩
    rw [hc', if_neg (Nat.ne_of_lt (CellHeap.lt_next ht'))]
    rfl
  · refine ⟨t, CellHeap.get?_alloc_next _ _, hidx, ?_⟩
    have h0 : refs s.nodes (owned .idle { s with tunnels := s.tunnels.alloc t }) s.tunnels.next = 0 := hi.refs_next
    rw [hc, h0]
    rfl

theorem Installing.inv (h : Installing s i 0) (hend : s.endIdx ≤ maxPgwPerNode)
    (hkeys : ∀ kind j t, s.tunnels.get? j = some t → ∀ k,
      (Multimap.withKey Entry.key k (entries s kind)).countP (fun e => e.tunnel = j) ≤ (sessionKeys t kind).count k) :
    Inv .idle s where
  counted := by
    refine ⟨h.nodup, h.node, fun q hq j hj => ?_⟩
    obtain ⟨t, ht, _, hc⟩ := h.tunnel q hq j hj
    exact ⟨t, ht, by simpa using hc⟩
  bucket := h.bucket
  heldMapped p hp := by cases hp
  pgwIndex q hq j hj t ht := by
    obtain ⟨t', ht', hidx, _⟩ := h.tunnel q hq j hj
    simp_all
  endIdx := hend
  keys := hkeys

/-- The state with a new session, whose tunnel node is the next one and whose entries have the next
four nodes. -/
structure Installed (s s' : Manager) (t : GtpTunnelNode) (t2 : UInt32) (ies : SessionIes) : Prop where
  config : s' = { s with teid2pgw := s'.teid2pgw, ueip2pgw := s'.ueip2pgw, nodes := s'.nodes, tunnels := s'.tunnels }
  tunnels : s'.tunnels = s.tunnels.alloc t
  nodesNext : s'.nodes.next = s.nodes.next + 4
  teids : entries s' .teid =
    [⟨s.nodes.next + 3, t2, s.tunnels.next⟩, ⟨s.nodes.next + 1, ies.t5, s.tunnels.next⟩,
      ⟨s.nodes.next, ies.t4, s.tunnels.next⟩] ++ entries s .teid
  ueips : entries s' .ueip = ⟨s.nodes.next + 2, ies.ueip, s.tunnels.next⟩ :: entries s .ueip

theorem Inv.installSession (hi : Inv .idle s) (t2 : UInt32) (ies : SessionIes) {pgwindex : Nat}
    (hidx : pgwindex < s.endIdx) : Inv .idle (installSession s t2 ies pgwindex) ∧
      Installed s (installSession s t2 ies pgwindex)
        { newTunnel s t2 ies with pgwIndex := pgwindex, refCount := 4 } t2 ies := by
  have h4 : Installing { s with tunnels := s.tunnels.alloc { newTunnel s t2 ies with pgwIndex := pgwindex, refCount := 4 } }
      s.tunnels.next 4 := hi.installing hidx rfl
  have h3 := h4.put .teid ies.t4
  have h2 := h3.put .teid ies.t5
  have h1 := h2.put .ueip ies.ueip
  have h0 := h1.put .teid t2
  have hteids := h1.entries_put .teid t2 .teid
  rw [if_pos rfl, h2.entries_put .ueip ies.ueip .teid, if_neg (by decide), h3.entries_put .teid ies.t5 .teid,
    if_pos rfl, h4.entries_put .teid ies.t4 .teid, if_pos rfl] at hteids
  have hueips := h1.entries_put .teid t2 .ueip
  rw [if_neg (by decide), h2.entries_put .ueip ies.ueip .ueip, if_pos rfl, h3.entries_put .teid ies.t5 .ueip,
    if_neg (by decide), h4.entries_put .teid ies.t4 .ueip, if_neg (by decide)] at hueips
  simp only [nodes_putPgw, CellHeap.next_alloc] at hteids hueips
  have hinst : Installed s (Gtp.installSession s t2 ies pgwindex)
      { newTunnel s t2 ies with pgwIndex := pgwindex, refCount := 4 } t2 ies := by
    refine ⟨rfl, rfl, ?_, hteids, hueips⟩
    simp [Gtp.installSession, gtpManagerPutTeidPgw, gtpManagerPutUeipPgw]
  refine ⟨h0.inv hi.endIdx fun kind j t ht k => ?_, hinst⟩
  have ht' : (s.tunnels.alloc { newTunnel s t2 ies with pgwIndex := pgwindex, refCount := 4 }).get? j = some t := ht
  -- the new entries of each map stand under the session's keys and point to the new tunnel node
  obtain ⟨new, hnew, hent, hperm⟩ : ∃ new, (∀ e ∈ new, e.tunnel = s.tunnels.next) ∧
      entries (Gtp.installSession s t2 ies pgwindex) kind = new ++ entries s kind ∧
      (new.map Entry.key).Perm
        (sessionKeys { newTunnel s t2 ies with pgwIndex := pgwindex, refCount := 4 } kind) := by
    cases kind with
    | teid =>
      exact ⟨_, by simp, hinst.teids, (reverse_perm [ies.t4, ies.t5, t2])⟩
    | ueip => exact ⟨[_], by simp, hinst.ueips, List.Perm.refl _⟩
  have hcount : (Multimap.withKey Entry.key k (new ++ entries s kind)).countP _ = _ := countP_withKey_append hnew j k
  rw [← hent] at hcount
  refine hcount.le.trans ?_
  by_cases hj : j = s.tunnels.next
  · subst hj
    rw [CellHeap.get?_alloc_next] at ht'
    cases ht'
    rw [if_pos rfl, hi.withKey_next, Nat.add_zero, hperm.count_eq]
  · rw [CellHeap.get?_alloc_of_ne _ hj] at ht'
    rw [if_neg hj, Nat.zero_add]
    exact hi.keys kind j t ht' k

theorem Installed.noLeak {s' : Manager} {ies : SessionIes} (h : Installed s s' t t2 ies) (hl : NoLeak .idle s) :
    NoLeak .idle s' := by
  intro j t' ht'
  rw [refs_idle, h.teids, h.ueips, countP_append]
  by_cases hj : j = s.tunnels.next
  · subst hj
    simp
  rw [h.tunnels, CellHeap.get?_alloc_of_ne _ hj] at ht'
  have hpos := hl j t' ht'
  rw [refs_idle] at hpos
  grind

/-- A session of a PGW that is not in the list: the tunnel node stays behind. -/
theorem Inv.allocTunnel (hi : Inv .idle s) (t : GtpTunnelNode) :
    Inv .idle { s with tunnels := s.tunnels.alloc t } where
  counted := by
    refine ⟨hi.counted.nodup, hi.counted.node, fun q hq j hj => ?_⟩
    obtain ⟨t', ht', hc⟩ := hi.counted.tunnel q hq j hj
    exact ⟨t', CellHeap.get?_alloc_of_some _ ht', hc⟩
  bucket := hi.bucket
  heldMapped p hp := by cases hp
  pgwIndex q hq j hj t' ht' := by
    obtain ⟨t'', ht'', _⟩ := hi.counted.tunnel q hq j hj
    have heq : t'' = t' := by
      have := CellHeap.get?_alloc_of_some t ht''
      simp_all
    exact heq ▸ hi.pgwIndex q hq j hj t'' ht''
  endIdx := hi.endIdx
  keys kind j t' ht' k := by
    by_cases hj : j = s.tunnels.next
    · subst hj
      exact (hi.withKey_next kind k).le.trans (Nat.zero_le _)
    · rw [CellHeap.get?_alloc_of_ne _ hj] at ht'
      exact hi.keys kind j t' ht' k

/-! ## Delete Session Response -/

theorem Inv.delPgw_cases (hi : Inv h s) (kind : MapKind) (key : UInt32) :
    (lookup s kind key = none ∧ delPgw kind s key = .error .uninitFoundNode) ∨
    ∃ h' s', (lookup s kind key).isSome ∧ delPgw kind s key = .ok s' ∧ Inv h' s' ∧ h'.node = h.node ∧ Keeps s s' ∧
      (∀ kind', entries s' kind' = erasedEntries s kind key kind') ∧ (NoLeak h s → NoLeak h' s') := by
  cases hl : lookup s kind key with
  | none => exact .inl ⟨rfl, hi.delPgw_none hl⟩
  | some e =>
    obtain ⟨h', s', hdel, hrest⟩ := hi.delPgw_some hl
    exact .inr ⟨h', s', rfl, hdel, hrest⟩

/-- The entries after one was erased for each of the session's keys. -/
structure Deleted (s s' : Manager) (t2 : UInt32) (t : GtpTunnelNode) : Prop where
  keeps : Keeps s s'
  teids : Multimap.eraseAll Entry.key [t.teid4SgwC, t.teid5SgwU, t2] (entries s .teid) = some (entries s' .teid)
  ueips : Multimap.eraseAll Entry.key [t.ueIp] (entries s .ueip) = some (entries s' .ueip)

/-- The keys of a Delete Session Response are all present. -/
def DeleteFinds (s : Manager) (t2 : UInt32) (t : GtpTunnelNode) : Prop :=
  (Multimap.eraseAll Entry.key [t.teid4SgwC, t.teid5SgwU, t2] (entries s .teid)).isSome ∧
    (Multimap.eraseAll Entry.key [t.ueIp] (entries s .ueip)).isSome

theorem Inv.deleteEntries (hi : Inv h s) (t2 : UInt32) (t : GtpTunnelNode) :
    (∃ h' s', deleteEntries s t2 t = .ok s' ∧ Inv h' s' ∧ h'.node = h.node ∧ Deleted s s' t2 t ∧
      (NoLeak h s → NoLeak h' s')) ∨
    (deleteEntries s t2 t = .error .uninitFoundNode ∧ ¬ DeleteFinds s t2 t) := by
  simp only [Gtp.deleteEntries, gtpManagerDelTeidPgw, gtpManagerDelUeipPgw, DeleteFinds, Multimap.eraseAll]
  rcases hi.delPgw_cases .teid t.teid4SgwC with ⟨hl, hd⟩ | ⟨h₁, s₁, hl₁, hd, hi₁, hh₁, hk₁, he₁, hn₁⟩
  · rw [lookup] at hl
    exact .inr ⟨by rw [hd]; rfl, by simp [hl]⟩
  rw [hd, Except.ok_bind]
  rw [lookup] at hl₁
  have ht₁ : entries s₁ .teid = Multimap.erase Entry.key t.teid4SgwC (entries s .teid) := he₁ .teid
  have hu₁ : entries s₁ .ueip = entries s .ueip := he₁ .ueip
  rcases hi₁.delPgw_cases .teid t.teid5SgwU with ⟨hl, hd⟩ | ⟨h₂, s₂, hl₂, hd, hi₂, hh₂, hk₂, he₂, hn₂⟩
  · rw [lookup, ht₁] at hl
    exact .inr ⟨by rw [hd]; rfl, by simp [hl₁, hl]⟩
  rw [hd, Except.ok_bind]
  rw [lookup, ht₁] at hl₂
  have ht₂ : entries s₂ .teid = Multimap.erase Entry.key t.teid5SgwU (entries s₁ .teid) := he₂ .teid
  have hu₂ : entries s₂ .ueip = entries s .ueip := (he₂ .ueip).trans hu₁
  rcases hi₂.delPgw_cases .ueip t.ueIp with ⟨hl, hd⟩ | ⟨h₃, s₃, hl₃, hd, hi₃, hh₃, hk₃, he₃, hn₃⟩
  · rw [lookup, hu₂] at hl
    exact .inr ⟨by rw [hd]; rfl, by simp [hl]⟩
  rw [hd]
  rw [lookup, hu₂] at hl₃
  have ht₃ : entries s₃ .teid = entries s₂ .teid := he₃ .teid
  have hu₃ : entries s₃ .ueip = Multimap.erase Entry.key t.ueIp (entries s₂ .ueip) := he₃ .ueip
  rcases hi₃.delPgw_cases .teid t2 with ⟨hl, hd⟩ | ⟨h₄, s₄, hl₄, hd, hi₄, hh₄, hk₄, he₄, hn₄⟩
  · rw [lookup, ht₃, ht₂, ht₁] at hl
    exact .inr ⟨hd, by simp [hl₁, hl₂, hl]⟩
  rw [lookup, ht₃, ht₂, ht₁] at hl₄
  have ht₄ : entries s₄ .teid = Multimap.erase Entry.key t2 (entries s₃ .teid) := he₄ .teid
  have hu₄ : entries s₄ .ueip = entries s₃ .ueip := he₄ .ueip
  refine .inl ⟨h₄, s₄, hd, hi₄, by rw [hh₄, hh₃, hh₂, hh₁],
    ⟨((hk₁.trans hk₂).trans hk₃).trans hk₄, ?_, ?_⟩, fun hl => hn₄ (hn₃ (hn₂ (hn₁ hl)))⟩
  · simp [Multimap.eraseAll, hl₁, hl₂, hl₄, ht₄, ht₃, ht₂, ht₁]
  · simp [Multimap.eraseAll, hl₃, hu₄, hu₃, hu₂]

theorem Inv.deleteSession_none (hi : Inv .idle s) (x : XlateCtx) (hl : lookup s .teid t2 = none) :
    deleteSession s x t2 = .error .nullTeidNode := by
  simp only [deleteSession, gtpManagerGetTeidPgw, hi.getPgw_none hl, Except.ok_bind]

/-- A Delete Session Response for a TEID in the map erases one entry for each key of the session it
finds, and faults if one of them is missing. -/
theorem Inv.deleteSession_some (hi : Inv .idle s) {e : Entry}
    (x : XlateCtx) (hl : lookup s .teid t2 = some e) (ht : s.tunnels.get? e.tunnel = some t) :
    (∃ s', deleteSession s x t2 = .ok (s', xlateOutputAction x s.ovsPhyPort) ∧ Inv .idle s' ∧ Deleted s s' t2 t ∧
      (NoLeak .idle s → NoLeak .idle s')) ∨
    (deleteSession s x t2 = .error .uninitFoundNode ∧ ¬ DeleteFinds s t2 t) := by
  obtain ⟨n, hn, h1, hget⟩ := hi.getPgw_some hl
  obtain ⟨hmem, n', hn', _, htun⟩ := mem_entriesOf (lookup_mem hl).1
  have hnn : n' = n := Option.some.inj (hn'.symm.trans hn)
  subst hnn
  have hi₀ := hi.hold (mem_owned hmem) hn
  have hk₀ := Keeps.setCount hn 2
  have hent₀ := entries_setCount hn 2
  have hleak₀ : NoLeak .idle s → NoLeak (.mapped e.node) (setCount s e.node n' 2) :=
    fun hl => hl.setCount hn 2 (List.Perm.refl _)
  have hnode := CellHeap.get?_set_self { n' with refCount := 2 } hn
  simp only [deleteSession, gtpManagerGetTeidPgw, hget]
  generalize hs₀ : setCount s e.node n' 2 = s₀ at *
  have hn₀ : s₀.nodes.get? e.node = some { n' with refCount := 2 } := by rw [← hs₀]; exact hnode
  have ht₀ : s₀.tunnels.get? n'.gtpTunnelNode = some t := by rw [← htun, ← hs₀]; exact ht
  have hd : ∀ s', Deleted s₀ s' t2 t → Deleted s s' t2 t := fun s' hd =>
    ⟨hk₀.trans hd.keeps, by rw [← hent₀]; exact hd.teids, by rw [← hent₀]; exact hd.ueips⟩
  simp only [derefNode_of_get? hn₀, derefTunnel_of_get? ht₀, Except.ok_bind]
  rcases hi₀.deleteEntries t2 t with ⟨h', s₁, hde, hi₁, hh, hdel, hleak₁⟩ | ⟨hde, hnot⟩
  · obtain ⟨s₂, hrel, hi₂, hk₂, hent₂, hleak₂⟩ := hi₁.release hh
    rw [hde, Except.ok_bind, hrel, Except.ok_bind]
    have hdel₂ : Deleted s₀ s₂ t2 t :=
      ⟨hdel.keeps.trans hk₂, by rw [hent₂]; exact hdel.teids, by rw [hent₂]; exact hdel.ueips⟩
    have hphy : s₂.ovsPhyPort = s.ovsPhyPort := by rw [(hd s₂ hdel₂).keeps.config]
    exact .inl ⟨s₂, by rw [hphy]; rfl, hi₂, hd s₂ hdel₂, fun hl => hleak₂ (hleak₁ (hleak₀ hl))⟩
  · rw [hde]
    refine .inr ⟨rfl, ?_⟩
    rwa [DeleteFinds, hent₀, hent₀] at hnot

/-! ## Forwarding by a map -/

/-- The PGW a key leads to: that of the newest entry, unless its slot is free. -/
def selectedPgw (s : Manager) (kind : MapKind) (key : UInt32) : Option GtpPgwNode := do
  let e ← lookup s kind key
  let t ← s.tunnels.get? e.tunnel
  let g := s.pgwList t.pgwIndex
  if g.gtpPgwIp = 0 then none else some g

/-- Forwarding by a map sends the packet to the PGW its key leads to and leaves the manager as it
was. -/
theorem Inv.forwardByMap (hi : Inv .idle s) (kind : MapKind)
    (forward : XlateCtx → GtpPgwNode → XlateCtx) (x : XlateCtx) (key : UInt32) :
    forwardByMap kind forward s x key = .ok (s, (selectedPgw s kind key).elim x (forward x)) := by
  cases hl : lookup s kind key with
  | none =>
    simp only [Gtp.forwardByMap, hi.getPgw_none hl]
    simp [selectedPgw, hl]
    rfl
  | some e =>
    obtain ⟨n, hn, h1, hget⟩ := hi.getPgw_some hl
    obtain ⟨n', t, hn', _, htun, ht, hidx⟩ := hi.entry (lookup_mem hl).1
    have hnn : n' = n := Option.some.inj (hn'.symm.trans hn)
    subst hnn
    have hnode := CellHeap.get?_set_self { n' with refCount := 2 } hn
    have hunref : unref (setCount s e.node n' 2) e.node = .ok s := by
      rw [unref_second hnode rfl]
      simp only [setCount, CellHeap.set_set]
      rw [← h1, CellHeap.set_self hn]
    simp only [Gtp.forwardByMap, hget]
    generalize hs₀ : setCount s e.node n' 2 = s₀ at *
    have hn₀ : s₀.nodes.get? e.node = some { n' with refCount := 2 } := by rw [← hs₀]; exact hnode
    have ht₀ : s₀.tunnels.get? n'.gtpTunnelNode = some t := by rw [htun, ← hs₀]; exact ht
    have hp₀ : pgwAt s₀ t.pgwIndex = .ok (s.pgwList t.pgwIndex) := by rw [pgwAt, if_pos hidx, ← hs₀]
    simp only [derefNode_of_get? hn₀, derefTunnel_of_get? ht₀, hp₀, hunref, Except.ok_bind]
    simp only [selectedPgw, hl, ht, Option.bind_eq_bind, Option.bind_some]
    split <;> rfl

end LinkerOvs.Gtp
