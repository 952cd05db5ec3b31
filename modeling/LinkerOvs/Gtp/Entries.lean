/-
The session maps of the GTP manager as multimaps of entries, and the counting invariant under which
the map operations are what they are on multimaps: a put adds the newest entry, a get finds the
newest entry with the key, a del erases it. The invariant is stated with the reference that a call
may hold beside the map's own, since a Delete Session Response works while it holds one.
-/
import LinkerOvs.Gtp.Message
import LinkerOvs.Lib.Multimap

namespace LinkerOvs.Gtp

open List

/-- A map entry: its node, its key and the tunnel node it points to. -/
structure Entry where
  node : Nat
  key : UInt32
  tunnel : Nat
deriving DecidableEq, Repr

variable (nodes : CellHeap MapNode)

def entryAt (p : Nat) : Option Entry :=
  (nodes.get? p).map fun n => ⟨p, n.key, n.gtpTunnelNode⟩

def entriesOf (m : PartMap) : List Entry :=
  m.filterMap fun c => entryAt nodes c.node

/-- The entries of one family of maps, newest first. -/
def entries (s : Manager) (kind : MapKind) : List Entry := entriesOf s.nodes (mapOf s kind)

/-- The entry a lookup of the key finds. -/
def lookup (s : Manager) (kind : MapKind) (key : UInt32) : Option Entry :=
  Multimap.lookup Entry.key key (entries s kind)

/-! ## The counting invariant -/

def tunnelOf (q : Nat) : Option Nat := (entryAt nodes q).map (·.tunnel)

/-- How many of the nodes of a list point to tunnel node `i`. -/
def refs (l : List Nat) (i : Nat) : Nat :=
  l.countP fun q => tunnelOf nodes q = some i

/-- The counters are right for the nodes of `l`, of which a call holds a second reference to
`held`. -/
structure Counted (s : Manager) (l : List Nat) (held : Option Nat) : Prop where
  nodup : l.Nodup
  node : ∀ q ∈ l, ∃ n, s.nodes.get? q = some n ∧ n.refCount = if held = some q then 2 else 1
  tunnel : ∀ q ∈ l, ∀ i, tunnelOf s.nodes q = some i →
    ∃ t, s.tunnels.get? i = some t ∧ t.refCount = refs s.nodes l i

/-- The reference a call holds: none, one to a node that is in its map, or the last one to a node
that has left its map. -/
inductive Hold
  | idle
  | mapped (p : Nat)
  | detached (p : Nat)

def Hold.second : Hold → Option Nat
  | .mapped p => some p
  | _ => none

def Hold.extra : Hold → List Nat
  | .detached p => [p]
  | _ => []

/-- The nodes that are alive: those in a map and the one that only the call holds. -/
def owned (h : Hold) (s : Manager) : List Nat :=
  ChainSlot.nodes s.teid2pgw ++ ChainSlot.nodes s.ueip2pgw ++ h.extra

/-- The keys under which a session is entered in each family of maps. -/
def sessionKeys (t : GtpTunnelNode) : MapKind → List UInt32
  | .teid => [t.teid4SgwC, t.teid5SgwU, t.teid2PgwC]
  | .ueip => [t.ueIp]

/-- The invariant of the manager's heaps and maps. -/
structure Inv (h : Hold) (s : Manager) : Prop where
  counted : Counted s (owned h s) h.second
  bucket : ∀ kind, ∀ c ∈ mapOf s kind, ∀ n, s.nodes.get? c.node = some n → c.bucket = bucketOf kind n.key
  heldMapped : ∀ p, h = .mapped p → p ∈ owned .idle s
  pgwIndex : ∀ q ∈ owned h s, ∀ i, tunnelOf s.nodes q = some i → ∀ t, s.tunnels.get? i = some t →
    t.pgwIndex < s.endIdx
  endIdx : s.endIdx ≤ maxPgwPerNode
  keys : ∀ kind i t, s.tunnels.get? i = some t → ∀ k,
    (Multimap.withKey Entry.key k (entries s kind)).countP (fun e => e.tunnel = i) ≤ (sessionKeys t kind).count k

variable {s : Manager} {l : List Nat} {h : Hold} {kind : MapKind} {p i q : Nat} {n : MapNode}
  {nodes a b : CellHeap MapNode} {e : Entry}

theorem Counted.perm {l' : List Nat} {held : Option Nat} (hp : l.Perm l')
    (h : Counted s l held) : Counted s l' held where
  nodup := hp.nodup_iff.1 h.nodup
  node q hq := h.node q (hp.mem_iff.2 hq)
  tunnel q hq i hi := by
    obtain ⟨t, ht, hc⟩ := h.tunnel q (hp.mem_iff.2 hq) i hi
    exact ⟨t, ht, by rw [hc, refs, refs, hp.countP_eq]⟩

theorem mem_owned (hp : p ∈ ChainSlot.nodes (mapOf s kind)) : p ∈ owned h s := by
  cases kind <;> simp only [mapOf] at hp <;> simp [owned, hp]

/-! ## Lookups -/

theorem derefNode_of_get? (h : s.nodes.get? p = some n) : derefNode s p = .ok n := by
  simp [derefNode, h]

theorem derefTunnel_of_get? {t : GtpTunnelNode} (h : s.tunnels.get? i = some t) : derefTunnel s i = .ok t := by
  simp [derefTunnel, h]

theorem entriesOf_cons {c : ChainSlot (UInt32 × UInt32)} (m : PartMap)
    (hn : nodes.get? c.node = some n) :
    entriesOf nodes (c :: m) = ⟨c.node, n.key, n.gtpTunnelNode⟩ :: entriesOf nodes m := by
  simp [entriesOf, entryAt, hn]

/-- Walking the chain of a key's bucket finds the newest entry with the key in the whole table: the
entries in other buckets have other keys. -/
theorem walk_chain {key : UInt32} : ∀ {m : PartMap},
    (∀ c ∈ m, ∃ n, s.nodes.get? c.node = some n ∧ c.bucket = bucketOf kind n.key) →
    walk s key (ChainSlot.chain m (bucketOf kind key)) =
      .ok ((Multimap.lookup Entry.key key (entriesOf s.nodes m)).map (·.node))
  | [], _ => rfl
  | c :: m, h => by
    obtain ⟨n, hn, hb⟩ := h c (by simp)
    have ih : walk s key (ChainSlot.chain m (bucketOf kind key)) = _ := walk_chain fun c' hc' => h c' (by simp [hc'])
    rw [entriesOf_cons m hn]
    simp only [ChainSlot.chain, Multimap.lookup] at ih ⊢
    by_cases hk : n.key = key
    · have hbk : c.bucket = bucketOf kind key := by rw [hb, hk]
      simp [hbk, walk, derefNode_of_get? hn, hk]
      rfl
    · by_cases hbk : c.bucket = bucketOf kind key
      · simpa only [filter_cons, hbk, decide_true, if_true, map_cons, walk, derefNode_of_get? hn,
          Except.ok_bind, hk, decide_false, if_false, find?_cons] using ih
      · grind

theorem Inv.slot (hi : Inv h s) {c : ChainSlot (UInt32 × UInt32)} (hc : c ∈ mapOf s kind) :
    ∃ n, s.nodes.get? c.node = some n ∧ c.bucket = bucketOf kind n.key := by
  obtain ⟨n, hn, _⟩ := hi.counted.node c.node (mem_owned (mem_map_of_mem hc))
  exact ⟨n, hn, hi.bucket kind c hc n hn⟩

theorem Inv.find_eq (hi : Inv h s) (kind : MapKind) (key : UInt32) :
    find kind s key = .ok ((lookup s kind key).map (·.node)) :=
  walk_chain fun _ hc => hi.slot hc

theorem mem_entriesOf {m : PartMap} (h : e ∈ entriesOf nodes m) :
    e.node ∈ ChainSlot.nodes m ∧ ∃ n, nodes.get? e.node = some n ∧ e.key = n.key ∧ e.tunnel = n.gtpTunnelNode := by
  obtain ⟨c, hc, he⟩ := mem_filterMap.1 h
  obtain ⟨n, hn, rfl⟩ := Option.map_eq_some_iff.1 he
  exact ⟨mem_map_of_mem hc, n, hn, rfl, rfl⟩

theorem lookup_mem {key : UInt32} (h : lookup s kind key = some e) : e ∈ entries s kind ∧ e.key = key := by
  refine ⟨mem_of_find?_eq_some h, ?_⟩
  simpa using find?_some h

theorem Inv.entry (hi : Inv h s) (he : e ∈ entries s kind) :
    ∃ n t, s.nodes.get? e.node = some n ∧ n.key = e.key ∧ n.gtpTunnelNode = e.tunnel ∧
      s.tunnels.get? e.tunnel = some t ∧ t.pgwIndex < maxPgwPerNode := by
  obtain ⟨hmem, n, hn, hk, ht⟩ := mem_entriesOf he
  have hown : e.node ∈ owned h s := mem_owned hmem
  have htun : tunnelOf s.nodes e.node = some e.tunnel := by simp [tunnelOf, entryAt, hn, ht]
  obtain ⟨t, hget, _⟩ := hi.counted.tunnel e.node hown e.tunnel htun
  have hidx := hi.pgwIndex e.node hown e.tunnel htun t hget
  exact ⟨n, t, hn, hk.symm, ht.symm, hget, lt_of_lt_of_le hidx hi.endIdx⟩

/-! ## Dropping references -/

/-- What dropping references and erasing entries leaves as it was: everything but the counters, the
freed cells and the entries of the maps. -/
structure Keeps (s s' : Manager) : Prop where
  config : s' = { s with teid2pgw := s'.teid2pgw, ueip2pgw := s'.ueip2pgw, nodes := s'.nodes, tunnels := s'.tunnels }
  node : ∀ q e, entryAt s'.nodes q = some e → entryAt s.nodes q = some e
  tunnel : ∀ i t', s'.tunnels.get? i = some t' →
    ∃ t, s.tunnels.get? i = some t ∧ t' = { t with refCount := t'.refCount }
  nodesNext : s'.nodes.next = s.nodes.next
  tunnelsNext : s'.tunnels.next = s.tunnels.next

theorem Keeps.trans {a b c : Manager} (h : Keeps a b) (h' : Keeps b c) : Keeps a c where
  config := by rw [h'.config, h.config]
  node q e he := h.node q e (h'.node q e he)
  tunnel i t ht := by
    obtain ⟨t', ht', he'⟩ := h'.tunnel i t ht
    obtain ⟨t'', ht'', he⟩ := h.tunnel i t' ht'
    exact ⟨t'', ht'', by rw [he', he]⟩
  nodesNext := h'.nodesNext.trans h.nodesNext
  tunnelsNext := h'.tunnelsNext.trans h.tunnelsNext

theorem entryAt_congr (h : a.get? q = b.get? q) : entryAt a q = entryAt b q := by
  rw [entryAt, entryAt, h]

theorem tunnelOf_congr (h : entryAt a q = entryAt b q) : tunnelOf a q = tunnelOf b q := by
  rw [tunnelOf, tunnelOf, h]

theorem tunnelOf_of_get? (h : nodes.get? p = some n) : tunnelOf nodes p = some n.gtpTunnelNode := by
  simp [tunnelOf, entryAt, h]

theorem entryAt_setCount (hn : nodes.get? p = some n) (r : UInt8) (q : Nat) :
    entryAt (nodes.set p { n with refCount := r }) q = entryAt nodes q := by
  by_cases hq : q = p
  · subst hq
    simp [entryAt, CellHeap.get?_set_self _ hn, hn]
  · exact entryAt_congr (CellHeap.get?_set_of_ne _ _ hq)

theorem entriesOf_congr {m : PartMap} (h : ∀ p ∈ ChainSlot.nodes m, entryAt a p = entryAt b p) :
    entriesOf a m = entriesOf b m :=
  filterMap_congr fun _ hc => h _ (mem_map_of_mem hc)

theorem refs_congr (h : ∀ q ∈ l, tunnelOf a q = tunnelOf b q) (i : Nat) : refs a l i = refs b l i :=
  countP_congr fun q hq => by simp [h q hq]

theorem refs_cons (nodes : CellHeap MapNode) (p : Nat) (l : List Nat) (i : Nat) :
    refs nodes (p :: l) i = refs nodes l i + if tunnelOf nodes p = some i then 1 else 0 := by
  simp [refs, countP_cons]

theorem refs_nodes (nodes : CellHeap MapNode) (i : Nat) : ∀ m : PartMap,
    refs nodes (ChainSlot.nodes m) i = (entriesOf nodes m).countP (fun e => e.tunnel = i)
  | [] => rfl
  | c :: m => by
    rw [ChainSlot.nodes_cons, refs_cons, refs_nodes nodes i m]
    simp only [entriesOf]
    cases he : entryAt nodes c.node with
    | none => simp [tunnelOf, he]
    | some e => simp [tunnelOf, he, countP_cons]

theorem refs_idle (s : Manager) (i : Nat) : refs s.nodes (owned .idle s) i =
      (entries s .teid).countP (fun e => e.tunnel = i) + (entries s .ueip).countP (fun e => e.tunnel = i) := by
  have hown : owned .idle s = ChainSlot.nodes s.teid2pgw ++ ChainSlot.nodes s.ueip2pgw := append_nil _
  rw [hown, refs, countP_append]
  exact congrArg₂ (· + ·) (refs_nodes s.nodes i s.teid2pgw) (refs_nodes s.nodes i s.ueip2pgw)

abbrev setCount (s : Manager) (p : Nat) (n : MapNode) (r : UInt8) : Manager :=
  { s with nodes := s.nodes.set p { n with refCount := r } }

theorem unref_second (hn : s.nodes.get? p = some n) (h2 : n.refCount = 2) :
    unref s p = .ok (setCount s p n 1) := by
  simp [unref, derefNode_of_get? hn, h2]
  rfl

theorem unrefTunnel_eq {t : GtpTunnelNode} (ht : s.tunnels.get? i = some t) :
    ∃ tunnels, unrefTunnel s i = .ok { s with tunnels := tunnels } ∧ tunnels.next = s.tunnels.next ∧
      (∀ j, j ≠ i → tunnels.get? j = s.tunnels.get? j) ∧
      tunnels.get? i = if t.refCount - 1 = 0 then none else some { t with refCount := t.refCount - 1 } := by
  refine ⟨_, by simp [unrefTunnel, derefTunnel_of_get? ht]; rfl, ?_, fun j hj => ?_, ?_⟩
  · split <;> simp
  · split
    · rw [CellHeap.get?_free_of_ne _ hj, CellHeap.get?_set_of_ne _ _ hj]
    · rw [CellHeap.get?_set_of_ne _ _ hj]
  · split
    · simp
    · rw [CellHeap.get?_set_self _ ht]

/-- Dropping the last reference to a node frees it, and frees its tunnel node with the last of the
nodes that point to it. -/
theorem Counted.unref_last {held : Option Nat} (h : Counted s (p :: l) held) (hp : held ≠ some p) :
    ∃ s', unref s p = .ok s' ∧ Counted s' l held ∧ Keeps s s' ∧
      s'.teid2pgw = s.teid2pgw ∧ s'.ueip2pgw = s.ueip2pgw ∧
      (∀ q, q ≠ p → s'.nodes.get? q = s.nodes.get? q) ∧
      ∀ i t', s'.tunnels.get? i = some t' → 0 < refs s.nodes (p :: l) i → 0 < refs s'.nodes l i := by
  obtain ⟨n, hn, hc⟩ := h.node p (by simp)
  rw [if_neg hp] at hc
  have htp := tunnelOf_of_get? hn
  obtain ⟨t, ht, htc⟩ := h.tunnel p (by simp) n.gtpTunnelNode htp
  have hdrop := unrefTunnel_eq (s := setCount s p n (n.refCount - 1)) ht
  obtain ⟨tunnels, heq, hnext, hother, hself⟩ := hdrop
  obtain ⟨hpl, hnd⟩ := nodup_cons.1 h.nodup
  have hnodes : ∀ q, q ≠ p →
      ((s.nodes.set p { n with refCount := n.refCount - 1 }).free p).get? q = s.nodes.get? q := fun q hq => by
    rw [CellHeap.get?_free_of_ne _ hq, CellHeap.get?_set_of_ne _ _ hq]
  have hne : ∀ q ∈ l, q ≠ p := fun q hq he => hpl (he ▸ hq)
  have hrefs : ∀ i, refs ((s.nodes.set p { n with refCount := n.refCount - 1 }).free p) l i = refs s.nodes l i :=
    refs_congr fun q hq => tunnelOf_congr (entryAt_congr (hnodes q (hne q hq)))
  have htc' : t.refCount - 1 = refs s.nodes l n.gtpTunnelNode := by
    rw [htc, refs_cons, if_pos htp]; push_cast; ring
  refine ⟨{ s with tunnels := tunnels, nodes := (s.nodes.set p { n with refCount := n.refCount - 1 }).free p },
    ?_, ⟨hnd, fun q hq => ?_, fun q hq i hi => ?_⟩, ⟨rfl, fun q e hq => ?_, fun i t' hi => ?_, by simp, hnext⟩,
    rfl, rfl, hnodes, fun i t' hi hpos => ?_⟩
  · simp only [unref, derefNode_of_get? hn, Except.ok_bind]
    simp_all
  · rw [hnodes q (hne q hq)]
    exact h.node q (mem_cons_of_mem _ hq)
  · have hi' : tunnelOf s.nodes q = some i := by rw [← hi]; exact (tunnelOf_congr (entryAt_congr (hnodes q (hne q hq)))).symm
    rw [hrefs]
    by_cases hit : i = n.gtpTunnelNode
    · subst hit
      have hpos : 0 < refs _ _ _ := countP_pos_iff.2 ⟨q, hq, by simpa using hi'⟩
      grind
    · obtain ⟨t', ht', hc'⟩ := h.tunnel q (mem_cons_of_mem _ hq) i hi'
      refine ⟨t', by rw [hother i hit]; exact ht', ?_⟩
      rw [hc', refs_cons, htp, if_neg (by simpa using Ne.symm hit), Nat.add_zero]
  · by_cases hqp : q = p
    · subst hqp
      simp [entryAt] at hq
    · rwa [entryAt, hnodes q hqp] at hq
  · grind
  · rw [hrefs]
    by_cases hit : i = n.gtpTunnelNode
    · grind
    · rwa [refs_cons, htp, if_neg (by simpa using Ne.symm hit), Nat.add_zero] at hpos

end LinkerOvs.Gtp
