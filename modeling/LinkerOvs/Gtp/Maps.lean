/-
The operations on the session maps keep the counting invariant and are, on the entries, the
operations of a multimap: get finds the newest entry with the key, del erases it and faults only
when there is none, and the reference a call took on an entry can always be given back.
-/
import LinkerOvs.Gtp.Entries

namespace LinkerOvs.Gtp

open List

/-! ## Small facts about the records -/

@[simp] theorem mapOf_setMap_self (s : Manager) (kind : MapKind) (m : PartMap) : mapOf (setMap s kind m) kind = m := by
  cases kind <;> rfl

variable {kind : MapKind} {s s' : Manager} {p : Nat} {n : MapNode} {h : Hold} {key : UInt32} {e : Entry}

theorem mapOf_setMap_of_ne {kind' : MapKind} (h : kind' ≠ kind) (s : Manager) (m : PartMap) :
    mapOf (setMap s kind m) kind' = mapOf s kind' := by
  cases kind <;> cases kind' <;> first | rfl | exact absurd rfl h

@[simp] theorem nodes_setMap (s : Manager) (kind : MapKind) (m : PartMap) : (setMap s kind m).nodes = s.nodes := by
  cases kind <;> rfl

@[simp] theorem tunnels_setMap (s : Manager) (kind : MapKind) (m : PartMap) : (setMap s kind m).tunnels = s.tunnels := by
  cases kind <;> rfl

theorem setMap_config (s : Manager) (kind : MapKind) (m : PartMap) :
    setMap s kind m = { s with
      teid2pgw := (setMap s kind m).teid2pgw, ueip2pgw := (setMap s kind m).ueip2pgw,
      nodes := (setMap s kind m).nodes, tunnels := (setMap s kind m).tunnels } := by
  cases kind <;> rfl

theorem Keeps.setMap (s : Manager) (kind : MapKind) (m : PartMap) : Keeps s (setMap s kind m) where
  config := setMap_config s kind m
  node q e he := by simpa using he
  tunnel i t ht := ⟨t, by simpa using ht, rfl⟩
  nodesNext := by simp
  tunnelsNext := by simp

theorem Keeps.setCount (hn : s.nodes.get? p = some n) (r : UInt8) : Keeps s (setCount s p n r) where
  config := rfl
  node q e he := by rwa [entryAt_setCount hn] at he
  tunnel i t ht := ⟨t, ht, rfl⟩
  nodesNext := by simp
  tunnelsNext := rfl

theorem owned_congr (h : Hold) (ht : s'.teid2pgw = s.teid2pgw) (hu : s'.ueip2pgw = s.ueip2pgw) :
    owned h s' = owned h s := by
  rw [owned, owned, ht, hu]

theorem Counted.congr {l : List Nat} {held : Option Nat} (h : Counted s l held)
    (hn : s'.nodes = s.nodes) (ht : s'.tunnels = s.tunnels) : Counted s' l held where
  nodup := h.nodup
  node := by rw [hn]; exact h.node
  tunnel := by rw [hn, ht]; exact h.tunnel

theorem nodes_unlink_perm {m : PartMap} (hp : p ∈ ChainSlot.nodes m) (hnd : (ChainSlot.nodes m).Nodup) :
    (ChainSlot.nodes m).Perm (p :: ChainSlot.nodes (ChainSlot.unlink m p)) := by
  have herase : ChainSlot.nodes (ChainSlot.unlink m p) = (ChainSlot.nodes m).erase p := by
    rw [ChainSlot.nodes_unlink, hnd.erase_eq_filter]
    grind
  rw [herase]
  exact perm_cons_erase hp

theorem owned_unlink_perm (hp : p ∈ ChainSlot.nodes (mapOf s kind)) (hnd : (owned h s).Nodup) :
    (owned h s).Perm (p :: owned h (setMap s kind (ChainSlot.unlink (mapOf s kind) p))) := by
  rw [owned, append_assoc] at hnd
  cases kind with
  | teid =>
    have hperm := nodes_unlink_perm hp (nodup_append.1 hnd).1
    simp only [owned, append_assoc]
    exact hperm.append_right _
  | ueip =>
    have hperm := nodes_unlink_perm hp (nodup_append.1 (nodup_append.1 hnd).2.1).1
    simp only [owned, append_assoc]
    exact ((hperm.append_right _).append_left _).trans perm_middle

/-- On the entries, unlinking the node a lookup found erases the key. -/
theorem entriesOf_unlink {nodes : CellHeap MapNode} : ∀ {m : PartMap},
    (∀ c ∈ m, ∃ n, nodes.get? c.node = some n) → (ChainSlot.nodes m).Nodup →
    Multimap.lookup Entry.key key (entriesOf nodes m) = some e →
    entriesOf nodes (ChainSlot.unlink m e.node) = Multimap.erase Entry.key key (entriesOf nodes m)
  | [], _, _, h => by cases h
  | c :: m, hlive, hnd, h => by
    obtain ⟨n, hn⟩ := hlive c (by simp)
    obtain ⟨hcm, hnd'⟩ := nodup_cons.1 hnd
    rw [entriesOf_cons m hn] at h ⊢
    by_cases hk : n.key = key
    · have he : e = ⟨c.node, n.key, n.gtpTunnelNode⟩ := by
        simpa [Multimap.lookup, hk] using h.symm
      subst he
      have hall : ChainSlot.unlink (c :: m) c.node = m := by
        simp only [ChainSlot.unlink, filter_cons, ne_eq, not_true_eq_false, decide_false, Bool.false_eq_true,
          if_false, filter_eq_self, decide_eq_true_eq]
        grind
      rw [hall]
      simp [Multimap.erase, hk]
    · have hl : Multimap.lookup Entry.key key (entriesOf nodes m) = some e := by
        simpa [Multimap.lookup, hk] using h
      have hne : c.node ≠ e.node := by
        intro heq
        have hmem := (mem_entriesOf (mem_of_find?_eq_some hl)).1
        simp_all
      have ih := entriesOf_unlink (fun c' hc' => hlive c' (by simp [hc'])) hnd' hl
      have hcons : ChainSlot.unlink (c :: m) e.node = c :: ChainSlot.unlink m e.node := by
        simp [ChainSlot.unlink, hne]
      rw [hcons, entriesOf_cons _ hn, ih]
      simp [Multimap.erase, hk]

/-! ## Carrying the invariant over -/

/-- The parts of the invariant that are not about counters hold of every later state with fewer
entries. -/
theorem Inv.of_keeps {h' : Hold} (hi : Inv h s) (hk : Keeps s s')
    (hc : Counted s' (owned h' s') h'.second) (hmap : ∀ kind, mapOf s' kind ⊆ mapOf s kind)
    (hent : ∀ kind, (entries s' kind).Sublist (entries s kind)) (hown : owned h' s' ⊆ owned h s)
    (hheld : ∀ p, h' = .mapped p → p ∈ owned .idle s') : Inv h' s' where
  counted := hc
  bucket kind c hcm n hn := by
    have he := hk.node c.node ⟨c.node, n.key, n.gtpTunnelNode⟩ (by simp [entryAt, hn])
    obtain ⟨n', hn', heq⟩ := Option.map_eq_some_iff.1 he
    have hkey : n'.key = n.key := congrArg Entry.key heq
    rw [← hkey]
    exact hi.bucket kind c (hmap kind hcm) n' hn'
  heldMapped := hheld
  pgwIndex q hq i hti t ht := by
    obtain ⟨e, he, hei⟩ := Option.map_eq_some_iff.1 hti
    obtain ⟨t', ht', htt⟩ := hk.tunnel i t ht
    have hidx := hi.pgwIndex q (hown hq) i (by rw [tunnelOf, hk.node q e he, ← hei]; rfl) t' ht'
    rw [hk.config, htt]
    exact hidx
  endIdx := by rw [hk.config]; exact hi.endIdx
  keys kind i t ht k := by
    obtain ⟨t', ht', htt⟩ := hk.tunnel i t ht
    have hkeys : sessionKeys t kind = sessionKeys t' kind := by rw [htt]; cases kind <;> rfl
    rw [hkeys]
    exact (((hent kind).filter _).countP_le).trans (hi.keys kind i t' ht' k)

/-- No tunnel node is left without an entry that points to it. -/
def NoLeak (h : Hold) (s : Manager) : Prop :=
  ∀ i t, s.tunnels.get? i = some t → 0 < refs s.nodes (owned h s) i

def Hold.node : Hold → Option Nat
  | .idle => none
  | .mapped p => some p
  | .detached p => some p

/-! ## get -/

theorem Inv.getPgw_none (hi : Inv h s) (hl : lookup s kind key = none) : getPgw kind s key = .ok (none, s) := by
  simp only [getPgw, hi.find_eq kind key, hl]
  rfl

theorem Inv.getPgw_some (hi : Inv .idle s) (hl : lookup s kind key = some e) :
    ∃ n, s.nodes.get? e.node = some n ∧ n.refCount = 1 ∧
      getPgw kind s key = .ok (some e.node, setCount s e.node n 2) := by
  obtain ⟨n, hn, hc⟩ := hi.counted.node e.node (mem_owned (mem_entriesOf (lookup_mem hl).1).1)
  have h1 : n.refCount = 1 := by simpa [Hold.second] using hc
  refine ⟨n, hn, h1, ?_⟩
  simp only [getPgw, hi.find_eq kind key, hl, Option.map_some, Except.ok_bind, derefNode_of_get? hn, h1]
  rfl

theorem entries_setCount (hn : s.nodes.get? p = some n) (r : UInt8) (kind : MapKind) :
    entries (setCount s p n r) kind = entries s kind := by
  cases kind <;> exact entriesOf_congr fun q _ => entryAt_setCount hn r q

theorem Counted.setCount {l : List Nat} {held held' : Option Nat} {r : UInt8}
    (h : Counted s l held) (hn : s.nodes.get? p = some n) (hr : r = if held' = some p then 2 else 1)
    (hrest : ∀ q, q ≠ p → (held' = some q ↔ held = some q)) :
    Counted (setCount s p n r) l held' := by
  have hent : ∀ q, tunnelOf (s.nodes.set p { n with refCount := r }) q = tunnelOf s.nodes q := fun q =>
    tunnelOf_congr (entryAt_setCount hn r q)
  refine ⟨h.nodup, fun q hq => ?_, fun q hq i hqi => ?_⟩
  · by_cases hqp : q = p
    · subst hqp
      exact ⟨{ n with refCount := r }, CellHeap.get?_set_self _ hn, hr⟩
    · obtain ⟨m, hm, hmc⟩ := h.node q hq
      refine ⟨m, by rw [CellHeap.get?_set_of_ne _ _ hqp, hm], ?_⟩
      simpa only [hrest q hqp] using hmc
  · obtain ⟨t, ht, htc⟩ := h.tunnel q hq i (by rw [← hqi, hent])
    exact ⟨t, ht, by rw [htc, refs_congr fun q _ => (hent q).symm]⟩

theorem NoLeak.setCount {h' : Hold} (hn : s.nodes.get? p = some n) (r : UInt8)
    (hown : (owned h s).Perm (owned h' s)) (hl : NoLeak h s) : NoLeak h' (setCount s p n r) := by
  intro i t ht
  have hpos := hl i t ht
  rw [refs, hown.countP_eq] at hpos
  rwa [refs_congr fun q _ => tunnelOf_congr (entryAt_setCount hn r q)]

theorem Inv.hold (hi : Inv .idle s) (hp : p ∈ owned .idle s) (hn : s.nodes.get? p = some n) :
    Inv (.mapped p) (setCount s p n 2) := by
  refine hi.of_keeps (Keeps.setCount hn 2) ?_ (fun kind => by cases kind <;> exact List.Subset.refl _)
    (fun kind => by rw [entries_setCount hn]) (List.Subset.refl _) fun q hq => ?_
  · exact hi.counted.setCount hn (by simp [Hold.second]) fun q hq => by simp [Hold.second, Ne.symm hq]
  · cases hq
    exact hp

/-! ## Giving a reference back -/

/-- The reference a call holds can be given back, whatever became of the entry meanwhile. -/
theorem Inv.release (hi : Inv h s) (hp : h.node = some p) :
    ∃ s', unref s p = .ok s' ∧ Inv .idle s' ∧ Keeps s s' ∧ (∀ kind, entries s' kind = entries s kind) ∧
      (NoLeak h s → NoLeak .idle s') := by
  cases h with
  | idle => cases hp
  | mapped q =>
    cases hp
    have hown := hi.heldMapped p rfl
    obtain ⟨n, hn, hc⟩ := hi.counted.node p hown
    have h2 : n.refCount = 2 := by simpa [Hold.second] using hc
    refine ⟨_, unref_second hn h2, ?_, Keeps.setCount hn 1, entries_setCount hn 1,
      fun hl => hl.setCount hn 1 (List.Perm.refl _)⟩
    refine hi.of_keeps (Keeps.setCount hn 1) ?_ (fun kind => by cases kind <;> exact List.Subset.refl _)
      (fun kind => by rw [entries_setCount hn]) (List.Subset.refl _) fun q hq => by cases hq
    exact hi.counted.setCount hn (by simp [Hold.second]) fun q hq => by simp [Hold.second, Ne.symm hq]
  | detached q =>
    cases hp
    have hperm : (owned (.detached p) s).Perm (p :: owned .idle s) := by
      simp only [owned, Hold.extra, append_nil]
      exact perm_append_singleton p _
    obtain ⟨s', hs', hc, hk, ht, hu, hnodes, hleak⟩ := (hi.counted.perm hperm).unref_last (by simp [Hold.second])
    have hown := owned_congr .idle ht hu
    have hpl : p ∉ owned .idle s := (nodup_cons.1 (hi.counted.perm hperm).nodup).1
    have hent : ∀ kind, entries s' kind = entries s kind := by
      intro kind
      have hmap : mapOf s' kind = mapOf s kind := by cases kind <;> assumption
      rw [entries, hmap]
      refine entriesOf_congr fun q hq => entryAt_congr (hnodes q ?_)
      rintro rfl
      exact hpl (mem_owned hq)
    refine ⟨s', hs', ?_, hk, hent, fun hl i t hit => ?_⟩
    · refine hi.of_keeps hk (hown ▸ hc) (fun kind => ?_) (fun kind => by rw [hent]) ?_ fun q hq => by cases hq
      · cases kind <;> simp only [mapOf, ht, hu] <;> exact List.Subset.refl _
      · grind
    · rw [hown]
      obtain ⟨t', ht', _⟩ := hk.tunnel i t hit
      refine hleak i t hit ?_
      have := hl i t' ht'
      rwa [refs, hperm.countP_eq] at this

/-! ## del -/

theorem Inv.delPgw_none (hi : Inv h s) (hl : lookup s kind key = none) :
    delPgw kind s key = .error .uninitFoundNode := by
  simp only [delPgw, hi.find_eq kind key, hl, Option.map_none, Except.ok_bind]

theorem Inv.mapNodup (hi : Inv h s) (kind : MapKind) : (ChainSlot.nodes (mapOf s kind)).Nodup := by
  have hnd := hi.counted.nodup
  rw [owned, append_assoc] at hnd
  cases kind
  · exact (nodup_append.1 hnd).1
  · exact (nodup_append.1 (nodup_append.1 hnd).2.1).1

/-- The entries after the node of the newest entry with the key was unlinked. -/
def erasedEntries (s : Manager) (kind : MapKind) (key : UInt32) (kind' : MapKind) : List Entry :=
  if kind' = kind then Multimap.erase Entry.key key (entries s kind) else entries s kind'

theorem erasedEntries_sublist (s : Manager) (kind : MapKind) (key : UInt32) (kind' : MapKind) :
    (erasedEntries s kind key kind').Sublist (entries s kind') := by
  unfold erasedEntries
  split
  · rename_i heq
    rw [heq]
    exact eraseP_sublist
  · exact List.Sublist.refl _

theorem Inv.entries_unlink (hi : Inv h s) (hl : lookup s kind key = some e) (kind' : MapKind) :
    entries (setMap s kind (ChainSlot.unlink (mapOf s kind) e.node)) kind' = erasedEntries s kind key kind' := by
  unfold erasedEntries
  split
  · rename_i heq
    subst heq
    rw [entries, mapOf_setMap_self, nodes_setMap]
    exact entriesOf_unlink (fun c hc => (hi.slot hc).imp fun _ hn => hn.1) (hi.mapNodup kind') hl
  · rename_i hne
    rw [entries, mapOf_setMap_of_ne hne, nodes_setMap]
    rfl

theorem mapOf_unlink_subset (s : Manager) (kind : MapKind) (p : Nat) (kind' : MapKind) :
    mapOf (setMap s kind (ChainSlot.unlink (mapOf s kind) p)) kind' ⊆ mapOf s kind' := by
  by_cases hk : kind' = kind
  · subst hk
    rw [mapOf_setMap_self]
    exact filter_sublist.subset
  · rw [mapOf_setMap_of_ne hk]
    exact List.Subset.refl _

/-- del erases the newest entry with the key from its map and frees its node, unless the call holds
a reference to that very node. -/
theorem Inv.delPgw_some (hi : Inv h s) (hl : lookup s kind key = some e) :
    ∃ h' s', delPgw kind s key = .ok s' ∧ Inv h' s' ∧ h'.node = h.node ∧ Keeps s s' ∧
      (∀ kind', entries s' kind' = erasedEntries s kind key kind') ∧ (NoLeak h s → NoLeak h' s') := by
  have hmem : e.node ∈ ChainSlot.nodes (mapOf s kind) := (mem_entriesOf (lookup_mem hl).1).1
  have hperm := owned_unlink_perm hmem hi.counted.nodup
  have hkeep := Keeps.setMap s kind (ChainSlot.unlink (mapOf s kind) e.node)
  have hent := hi.entries_unlink hl
  have hsub := mapOf_unlink_subset s kind e.node
  have hdel : delPgw kind s key = unref (setMap s kind (ChainSlot.unlink (mapOf s kind) e.node)) e.node := by
    simp only [delPgw, hi.find_eq kind key, hl, Option.map_some, Except.ok_bind]
  generalize hs₁ : setMap s kind (ChainSlot.unlink (mapOf s kind) e.node) = s₁ at *
  have hn₁ : s₁.nodes = s.nodes := by rw [← hs₁, nodes_setMap]
  have ht₁ : s₁.tunnels = s.tunnels := by rw [← hs₁, tunnels_setMap]
  have hc₁ : Counted s₁ (e.node :: owned h s₁) h.second := (hi.counted.perm hperm).congr hn₁ ht₁
  have hnot : e.node ∉ owned h s₁ := (nodup_cons.1 hc₁.nodup).1
  rw [hdel]
  by_cases hheld : h.second = some e.node
  · -- the entry found is the one the call holds: it leaves the map and stays alive
    have hm : h = .mapped e.node := by
      cases h <;> simp_all [Hold.second]
    subst hm
    obtain ⟨n, hn, hcount⟩ := hc₁.node e.node (by simp)
    have h2 : n.refCount = 2 := by simpa [Hold.second] using hcount
    have hperm' : (e.node :: owned (.mapped e.node) s₁).Perm (owned (.detached e.node) s₁) := by
      simp only [owned, Hold.extra, append_nil]
      exact (perm_append_singleton e.node _).symm
    have hk := hkeep.trans (Keeps.setCount hn 1)
    refine ⟨.detached e.node, _, unref_second hn h2, ?_, rfl, hk,
      fun kind' => by rw [entries_setCount hn, hent], fun hleak => ?_⟩
    · refine hi.of_keeps hk ?_ (fun kind' => ?_) (fun kind' => ?_) ?_ fun q hq => by cases hq
      · exact (hc₁.perm hperm').setCount hn (by simp [Hold.second]) fun q hq => by simp [Hold.second, Ne.symm hq]
      · cases kind'
        · exact hsub .teid
        · exact hsub .ueip
      · rw [entries_setCount hn, hent]
        exact erasedEntries_sublist s kind key kind'
      · exact fun q hq => hperm.mem_iff.2 (hperm'.mem_iff.2 hq)
    · have hleak₁ : NoLeak (.detached e.node) s₁ := by
        intro i t hit
        rw [ht₁] at hit
        have hpos := hleak i t hit
        rwa [refs, (hperm.trans hperm').countP_eq, ← hn₁] at hpos
      exact hleak₁.setCount hn 1 (List.Perm.refl _)
  · obtain ⟨s', hs', hc', hk', htm, hum, hnodes, hleak'⟩ := hc₁.unref_last hheld
    have hk := hkeep.trans hk'
    have hown := owned_congr h htm hum
    have hmaps : ∀ kind', mapOf s' kind' = mapOf s₁ kind' := fun kind' => by cases kind' <;> assumption
    have hent' : ∀ kind', entries s' kind' = erasedEntries s kind key kind' := by
      intro kind'
      rw [← hent, entries, hmaps]
      refine entriesOf_congr fun q hq => entryAt_congr (hnodes q ?_)
      rintro rfl
      exact hnot (mem_owned hq)
    refine ⟨h, s', hs', ?_, rfl, hk, hent', fun hleak i t hit => ?_⟩
    · refine hi.of_keeps hk (hown ▸ hc') (fun kind' => hmaps kind' ▸ hsub kind')
        (fun kind' => hent' kind' ▸ erasedEntries_sublist s kind key kind') ?_ fun q hq => ?_
      · grind
      · -- the held node is another one than the erased, so it is still in a map
        subst hq
        have hq := hi.heldMapped q rfl
        have hne : q ≠ e.node := fun heq => hheld (by rw [heq]; rfl)
        rw [owned_congr .idle htm hum]
        have hq' : q ∈ e.node :: owned (.mapped q) s₁ := hperm.mem_iff.1 hq
        exact (mem_cons.1 hq').resolve_left hne
    · rw [hown]
      refine hleak' i t hit ?_
      obtain ⟨t', ht', _⟩ := hk.tunnel i t hit
      have hpos := hleak i t' ht'
      rwa [refs, hperm.countP_eq, ← hn₁] at hpos

end LinkerOvs.Gtp
