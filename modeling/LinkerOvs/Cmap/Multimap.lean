/-
The hash map as a multimap. A list of hashes and nodes says what is stored; over every run of the writer in
which a node is in the map at most once, a lookup finds the nodes stored under its hash, in one chain, the
count is right, and no assertion fails, whatever random numbers the rebuilding draws.
-/
import LinkerOvs.Cmap.Rebuild
import LinkerOvs.Util.Hash

namespace LinkerOvs.Cmap

open List

variable {α : Type} {B : Build}

/-! ## The load -/

theorem k_cases (B : Build) : B.k = 7 ∨ B.k = 5 := by
  rw [Build.k]
  cases B.width
  · exact .inl rfl
  · exact .inr rfl

theorem calcMaxN_pos (B : Build) (bits : Nat) : 0 < calcMaxN B bits := by
  have hpow := Nat.two_pow_pos bits
  rw [calcMaxN, cmapMaxLoad]
  rcases k_cases B with hk | hk <;> rw [hk] <;> omega

theorem calcMaxN_lt_succ (B : Build) (bits : Nat) : calcMaxN B bits < calcMaxN B (bits + 1) := by
  have hpos := calcMaxN_pos B bits
  rw [calcMaxN, cmapMaxLoad] at hpos ⊢
  rw [calcMaxN, cmapMaxLoad]
  rcases k_cases B with hk | hk <;> rw [hk] at hpos ⊢ <;> omega

theorem calcMinN_le_calcMaxN_pred (B : Build) (bits : Nat) : calcMinN B bits ≤ calcMaxN B (bits - 1) := by
  rw [calcMinN, calcMaxN, cmapMinLoad, cmapMaxLoad]
  cases bits with
  | zero => rcases k_cases B with hk | hk <;> rw [hk] <;> decide
  | succ bits =>
    rw [Nat.add_sub_cancel]
    rcases k_cases B with hk | hk <;> rw [hk] <;> omega

namespace Impl

variable {impl : Impl α} {hash : UInt32} {b i : Nat}

/-! ## Insertion -/

/-- `impl'` is `impl` with one more node. -/
structure Added (B : Build) (impl : Impl α) (node : α) (hash : UInt32) (impl' : Impl α) : Prop where
  wf : impl'.WF B
  n : impl'.n = impl.n + 1
  load : impl'.n ≤ calcMaxN B impl'.bits
  find : ∀ g, impl'.find B g = if g = hash then node :: impl.find B hash else impl.find B g

theorem Rebuilt.added {node : α} {bits : Nat} {new impl' : Impl α} (h : Rebuilt B impl bits new)
    (hadd : Added B new node hash impl') : Added B impl node hash impl' := by
  refine ⟨hadd.wf, by rw [hadd.n, h.n], hadd.load, fun g => ?_⟩
  rw [hadd.find, h.find, h.find]

theorem WF.insertLoop (node : α) (hash : UInt32) : ∀ (turns : Nat) {impl : Impl α} (bases : List UInt32), impl.WF B →
    impl.n < calcMaxN B impl.bits →
    (insertLoop B node hash turns impl bases).Meets Unlucky (Added B impl node hash)
  | 0, _, _, _, _ => rfl
  | turns + 1, impl, bases, h, hload => by
    rw [Impl.insertLoop]
    split
    · next impl' hinsert =>
      have hins := h.tryInsert (cons_ne_nil node []) hinsert
      refine ⟨⟨hins.wf.slots, hins.wf.placed, hins.wf.first, hins.wf.only⟩, ?_, ?_, hins.find⟩
      · exact congrArg (· + 1) hins.n
      · rw [hins.n, hins.bits]
        exact hload
    · refine (h.cmapRehash hload bases).bind fun r hr => ?_
      have hloop := WF.insertLoop node hash turns r.2 hr.1.wf (by rw [hr.1.n, hr.1.bits]; exact hload)
      exact hloop.mono fun impl' hadd => hr.1.added hadd

/-- `cmap_insert` adds the node to the chain of its hash. -/
theorem WF.cmapInsert (h : impl.WF B) (hload : impl.n ≤ calcMaxN B impl.bits) (node : α) (hash : UInt32)
    (bases : List UInt32) : (impl.cmapInsert B node hash bases).Meets Unlucky (Added B impl node hash) := by
  have hrest : ∀ {new : Impl α} {bits : Nat} (rest : List UInt32), Rebuilt B impl bits new → impl.n < calcMaxN B bits →
      (Impl.insertLoop B node hash (rest.length + 1) new rest).Meets Unlucky (Added B impl node hash) := by
    intro new bits rest hnew hroom
    have hloop := WF.insertLoop node hash (rest.length + 1) rest hnew.wf (by rw [hnew.n, hnew.bits]; exact hroom)
    exact hloop.mono fun impl' hadd => hnew.added hadd
  rw [Impl.cmapInsert]
  split
  · have hroom : impl.n < calcMaxN B (impl.bits + 1) := hload.trans_lt (calcMaxN_lt_succ B impl.bits)
    exact (h.cmapRehash hroom bases).bind fun r hr => hrest r.2 hr.1 hroom
  · next hfull => exact hrest bases ⟨h, rfl, rfl, fun _ => rfl⟩ (Nat.lt_of_not_ge hfull)

/-! ## Where no random number is missing -/

/-- There is a place for the hash: a slot that has it, an empty slot in one of its two buckets, or a path along which
the table can be rearranged. -/
def hasPlace (B : Build) (hash : UInt32) (impl : Impl α) : Bool :=
  (impl.hashSlot B (impl.bucket1 B hash) hash).isSome || (impl.hashSlot B (impl.bucket2 B hash) hash).isSome ||
    (impl.findEmptySlotProtected B (impl.bucket1 B hash)).isSome ||
    (impl.findEmptySlotProtected B (impl.bucket2 B hash)).isSome ||
    (impl.insertBfs B [] hash (impl.bucket1 B hash) (impl.bucket2 B hash)).isSome

/-- The table that `old` is rebuilt to, with the first basis that works. -/
def rebuilt (B : Build) (old : Impl α) (bits : Nat) (bases : List UInt32) : Option (Impl α) :=
  (bases.findSome? fun basis => old.tryRehash B (cmapImplCreate bits basis)).map ({ · with n := old.n })

theorem insertLoop_succeeds (h : impl.hasPlace B hash) (node : α) (turns : Nat) (bases : List UInt32) :
    (insertLoop B node hash (turns + 1) impl bases).Succeeds := by
  have hsome : (impl.tryInsert B [node] hash).isSome := by
    simpa [hasPlace, Impl.tryInsert, insertDup, insertBucket, insertBfs, Option.isSome_or, or_assoc] using h
  obtain ⟨new, hnew⟩ := Option.isSome_iff_exists.1 hsome
  rw [Impl.insertLoop, hnew]
  exact ⟨_, rfl⟩

theorem cmapRehash_of_rebuilt {old new : Impl α} {bits : Nat} (hn : old.n < calcMaxN B bits) {bases : List UInt32}
    (h : old.rebuilt B bits bases = some new) : ∃ rest, old.cmapRehash B bits bases = .ok (new, rest) := by
  obtain ⟨t, ht, rfl⟩ := Option.map_eq_some_iff.1 h
  clear h
  rw [Impl.cmapRehash, if_pos hn]
  induction bases with
  | nil => cases ht
  | cons basis bases ih =>
    rw [rehashLoop]
    rw [findSome?_cons] at ht
    split at ht
    · simp [*]
    · simp [*]

/-- The random numbers suffice for an insertion: there is room for one more node and a place for its hash, or the first
basis that rebuilds the table makes one. -/
def luckyInsert (B : Build) (impl : Impl α) (hash : UInt32) (bases : List UInt32) : Bool :=
  if impl.n < calcMaxN B impl.bits then impl.hasPlace B hash || (impl.rebuilt B impl.bits bases).any (hasPlace B hash)
  else (impl.rebuilt B (impl.bits + 1) bases).any (hasPlace B hash)

theorem cmapInsert_succeeds (hload : impl.n ≤ calcMaxN B impl.bits) (node : α) {bases : List UInt32}
    (h : impl.luckyInsert B hash bases) : (impl.cmapInsert B node hash bases).Succeeds := by
  rw [Impl.cmapInsert]
  rw [luckyInsert] at h
  split at h
  · next hroom =>
    rw [if_neg hroom.not_ge, Except.ok_bind]
    rcases Bool.or_eq_true_iff.1 h with h | h
    · exact insertLoop_succeeds h node _ bases
    obtain ⟨new, hnew, hplaces⟩ := (Option.any_eq_true _ _).1 h
    obtain ⟨rest, hrest⟩ := cmapRehash_of_rebuilt hroom hnew
    cases bases with
    | nil => cases hnew
    | cons basis bases =>
      show (Impl.insertLoop B node hash (bases.length + 1 + 1) impl (basis :: bases)).Succeeds
      rw [Impl.insertLoop]
      split
      · exact ⟨_, rfl⟩
      · rw [hrest]
        exact insertLoop_succeeds hplaces node _ rest
  · next hfull =>
    obtain ⟨new, hnew, hplaces⟩ := (Option.any_eq_true _ _).1 h
    obtain ⟨rest, hrest⟩ := cmapRehash_of_rebuilt (hload.trans_lt (calcMaxN_lt_succ B impl.bits)) hnew
    rw [if_pos (Nat.le_of_not_lt hfull), hrest]
    exact insertLoop_succeeds hplaces node _ rest

/-! ## Removal and replacement -/

/-- Only the chain in one live slot changes; it may become empty. -/
theorem WF.setChain (h : impl.WF B) (hlive : impl.LiveAt hash b i) (chain : List α) :
    (impl.setBucket b i { hash := (impl.slot b i).hash, chain := chain }).WF B ∧
      ∀ g, (impl.setBucket b i { hash := (impl.slot b i).hash, chain := chain }).find B g
        = if g = hash then chain else impl.find B g := by
  obtain ⟨hchain, rfl⟩ := hlive
  by_cases hnil : chain = []
  · -- nothing new is live, and no slot has another hash than before
    subst hnil
    have hhash : ∀ b' i', ((impl.setBucket b i { hash := (impl.slot b i).hash, chain := [] }).slot b' i').hash
        = (impl.slot b' i').hash := by
      intro b' i'
      rw [slot_setBucket]
      grind
    have hlive : ∀ {g b' i'}, (impl.setBucket b i { hash := (impl.slot b i).hash, chain := [] }).LiveAt g b' i' →
        ¬(b' = b ∧ i' = i) ∧ impl.LiveAt g b' i' := by
      intro g b' i' hl
      have hat : ¬(b' = b ∧ i' = i) := by
        rintro ⟨rfl, rfl⟩
        exact hl.1 (by rw [slot_setBucket_self])
      rw [LiveAt, slot_setBucket_of_ne _ hat] at hl
      exact ⟨hat, hl⟩
    have hwf : (impl.setBucket b i { hash := (impl.slot b i).hash, chain := [] }).WF B := by
      refine ⟨fun hl => h.slots (hlive hl).2, fun hl => h.placed (hlive hl).2, fun hl hlt => ?_, fun hl hne hlt => ?_⟩
      · rw [hhash]
        exact h.first (hlive hl).2 hlt
      · rw [hhash]
        exact h.only (hlive hl).2 hne hlt
    refine ⟨hwf, fun g => ?_⟩
    split
    · next hg =>
      subst hg
      refine find_eq_nil fun b' i' hl => ?_
      obtain ⟨rfl, rfl⟩ := h.unique (hlive hl).2 ⟨hchain, rfl⟩
      exact (hlive hl).1 ⟨rfl, rfl⟩
    next hg =>
    refine find_congr h hwf (fun b' i' hl => ?_) fun b' i' hl => ⟨b', i', (hlive hl).2⟩
    have hat : ¬(b' = b ∧ i' = i) := by
      rintro ⟨rfl, rfl⟩
      exact hg hl.2.symm
    refine ⟨b', i', ?_, slot_setBucket_of_ne _ hat⟩
    rw [LiveAt, slot_setBucket_of_ne _ hat]
    exact hl
  · exact h.put chain hnil (h.slots ⟨hchain, rfl⟩) (h.placed ⟨hchain, rfl⟩) (fun i' hi' => h.first ⟨hchain, rfl⟩ hi')
      (fun hne i' hi' => h.only ⟨hchain, rfl⟩ hne hi') (fun g hg => hg.2.symm)
      fun b' i' hl => h.unique hl ⟨hchain, rfl⟩

/-- Shrinking keeps what lookups find, and the new table is not too full. -/
theorem WF.shrinkIfSparse (h : impl.WF B) (hload : impl.n ≤ calcMaxN B impl.bits) (bases : List UInt32) :
    (impl.shrinkIfSparse B bases).Meets Unlucky fun new => Rebuilt B impl new.bits new ∧ new.n ≤ calcMaxN B new.bits := by
  rw [Impl.shrinkIfSparse]
  split
  · next hsmall =>
    have hroom : impl.n < calcMaxN B (impl.bits - 1) := hsmall.trans_le (calcMinN_le_calcMaxN_pred B _)
    refine (h.cmapRehash hroom bases).bind fun r hr => ⟨⟨hr.1.wf, hr.1.n, rfl, hr.1.find⟩, ?_⟩
    rw [hr.1.n, hr.1.bits]
    exact hroom.le
  · exact ⟨⟨h, rfl, rfl, fun _ => rfl⟩, hload⟩

variable [DecidableEq α]

variable {node : α}

theorem replaceNode_of_mem (replacement : Option α) : ∀ {l : List α}, node ∈ l →
    ∃ l', replaceNode node replacement l = some l' ∧ l'.Perm (replacement.toList ++ l.erase node)
  | x :: xs, hmem => by
    rw [replaceNode]
    by_cases hx : x = node
    · simp [*]
    · obtain ⟨l', hl', hperm⟩ := replaceNode_of_mem replacement ((mem_cons.1 hmem).resolve_left (Ne.symm hx))
      grind

/-- In the bucket of the chain the node is found and replaced. -/
theorem WF.replaceIn_of_live (h : impl.WF B) (hlive : impl.LiveAt hash b i) (replacement : Option α)
    (hnode : node ∈ impl.find B hash) :
    ∃ chain, chain.Perm (replacement.toList ++ (impl.find B hash).erase node) ∧
      impl.replaceIn B node replacement hash b =
        .ok (some (impl.setBucket b i { hash := (impl.slot b i).hash, chain := chain })) := by
  have hslot : impl.findSlotProtected B b hash = some i := by
    cases hcase : impl.findSlotProtected B b hash with
    | none => exact absurd hlive (findSlotProtected_eq_none.1 hcase i (h.slots hlive))
    | some i' => rw [(h.unique (findSlotProtected_some hcase) hlive).2]
  rw [h.find_of_live hlive] at hnode ⊢
  obtain ⟨chain, hchain, hperm⟩ := replaceNode_of_mem replacement hnode
  refine ⟨chain, hperm, ?_⟩
  rw [replaceIn, hslot]
  dsimp only
  rw [hchain]

/-- `impl'` is `impl` with a node replaced, or removed. -/
structure Replaced (B : Build) (impl : Impl α) (node : α) (replacement : Option α) (hash : UInt32) (impl' : Impl α) :
    Prop where
  wf : impl'.WF B
  n : impl'.n + 1 = impl.n + replacement.toList.length
  load : impl'.n ≤ calcMaxN B impl'.bits
  find : (impl'.find B hash).Perm (replacement.toList ++ (impl.find B hash).erase node)
  others : ∀ g, g ≠ hash → impl'.find B g = impl.find B g

theorem WF.replaceInBuckets (h : impl.WF B) (replacement : Option α) (hnode : node ∈ impl.find B hash) :
    ∃ impl', impl.replaceInBuckets B node replacement hash = .ok (some impl') ∧ impl'.WF B ∧ impl'.n = impl.n ∧
      impl'.bits = impl.bits ∧ (impl'.find B hash).Perm (replacement.toList ++ (impl.find B hash).erase node) ∧
      ∀ g, g ≠ hash → impl'.find B g = impl.find B g := by
  obtain ⟨b, i, hlive⟩ := live_of_mem_find hnode
  obtain ⟨chain, hperm, hreplace⟩ := h.replaceIn_of_live hlive replacement hnode
  obtain ⟨hwf, hfind⟩ := h.setChain hlive chain
  refine ⟨_, ?_, hwf, rfl, rfl, ?_, fun g hg => ?_⟩
  · rw [Impl.replaceInBuckets]
    by_cases hb : b = impl.bucket1 B hash
    · simp_all
    have hb2 := (h.placed hlive).resolve_left hb
    have hnone : ∀ i' < B.k, ¬impl.LiveAt hash (impl.bucket1 B hash) i' :=
      fun i' _ hl => hb (h.unique hlive hl).1
    rw [replaceIn, findSlotProtected_eq_none.2 hnone, ← hb2]
    exact hreplace
  · simp [*]
  · rw [hfind, if_neg hg]

/-- `cmap_replace` finds the node, and fails no assertion. -/
theorem WF.cmapReplace (h : impl.WF B) (hload : impl.n ≤ calcMaxN B impl.bits) (hn : 0 < impl.n)
    (replacement : Option α) (hnode : node ∈ impl.find B hash) (bases : List UInt32) :
    (impl.cmapReplace B node replacement hash bases).Meets Unlucky (Replaced B impl node replacement hash) := by
  obtain ⟨impl', hbuckets, hwf, hn', hbits, hperm, hothers⟩ := h.replaceInBuckets replacement hnode
  rw [Impl.cmapReplace, hbuckets, Except.ok_bind]
  split
  · next heq => cases heq
  · next heq =>
    cases heq
    exact ⟨hwf, congrArg (· + 1) hn', by rw [hn', hbits]; exact hload, hperm, hothers⟩
  next heq =>
  cases heq
  have hwf' : ({ impl' with n := impl'.n - 1 } : Impl α).WF B := ⟨hwf.slots, hwf.placed, hwf.first, hwf.only⟩
  have hload' : impl'.n - 1 ≤ calcMaxN B impl'.bits := by
    rw [hbits]
    omega
  refine (hwf'.shrinkIfSparse hload' bases).mono fun new hnew => ⟨hnew.1.wf, ?_, hnew.2, ?_, fun g hg => ?_⟩
  · rw [hnew.1.n]
    show impl'.n - 1 + 1 = impl.n
    omega
  · rw [hnew.1.find]
    exact hperm
  · rw [hnew.1.find]
    exact hothers g hg

end Impl

/-! ## What is stored -/

def withHash (stored : List (UInt32 × α)) (hash : UInt32) : List α :=
  (stored.filter fun s => s.1 = hash).map Prod.snd

theorem withHash_cons (g : UInt32) (x : α) (stored : List (UInt32 × α)) (hash : UInt32) :
    withHash ((g, x) :: stored) hash = if g = hash then x :: withHash stored hash else withHash stored hash := by
  by_cases hg : g = hash <;> simp [hg, withHash]

theorem mem_withHash {stored : List (UInt32 × α)} {hash : UInt32} {x : α} :
    x ∈ withHash stored hash ↔ (hash, x) ∈ stored := by
  simp [withHash]

section

variable [DecidableEq α]

theorem withHash_erase (g : UInt32) (x : α) (hash : UInt32) : ∀ stored : List (UInt32 × α),
    withHash (stored.erase (g, x)) hash = if g = hash then (withHash stored hash).erase x else withHash stored hash
  | [] => by simp [withHash]
  | (g', x') :: stored => by
    by_cases heq : (g', x') = (g, x)
    · cases heq
      rw [erase_cons_head, withHash_cons]
      simp_all
    rw [erase_cons_tail (by simpa using heq), withHash_cons, withHash_cons, withHash_erase g x hash stored]
    grind

def Op.apply (stored : List (UInt32 × α)) : Op α → List (UInt32 × α)
  | .insert node hash => (hash, node) :: stored
  | .remove node hash => stored.erase (hash, node)
  | .replace oldNode newNode hash => (hash, newNode) :: stored.erase (hash, oldNode)

/-- A node is inserted only while it is not in the map, and removed or replaced only while it is. -/
def Op.Legal (stored : List (UInt32 × α)) : Op α → Prop
  | .insert node _ => node ∉ stored.map Prod.snd
  | .remove node hash => (hash, node) ∈ stored
  | .replace oldNode newNode hash =>
    (hash, oldNode) ∈ stored ∧ newNode ∉ (stored.erase (hash, oldNode)).map Prod.snd

/-- Each operation of the run is legal when its turn comes. -/
def LegalRun (stored : List (UInt32 × α)) : List (Op α) → Prop
  | [] => True
  | op :: ops => op.Legal stored ∧ LegalRun (op.apply stored) ops

/-- The table holds just what is stored. -/
structure Represents (B : Build) (stored : List (UInt32 × α)) (impl : Impl α) : Prop where
  wf : impl.WF B
  load : impl.n ≤ calcMaxN B impl.bits
  count : impl.n = stored.length
  nodes : (stored.map Prod.snd).Nodup
  find : ∀ hash, (impl.find B hash).Perm (withHash stored hash)

omit [DecidableEq α] in
theorem represents_init (basis : UInt32) : Represents B [] (cmapInit basis : Impl α) := by
  refine ⟨Impl.wf_create 0 basis, Nat.zero_le _, rfl, nodup_nil, fun hash => ?_⟩
  rw [cmapInit, Impl.find_create]
  exact List.Perm.refl _

variable {stored : List (UInt32 × α)}

theorem Represents.erase_nodes {impl : Impl α} (h : Represents B stored impl) (s : UInt32 × α) :
    ((stored.erase s).map Prod.snd).Nodup :=
  h.nodes.sublist (erase_sublist.map _)

theorem Represents.replaced {impl impl' : Impl α} (h : Represents B stored impl)
    {node : α} {replacement : Option α} {hash : UInt32} (hnode : (hash, node) ∈ stored)
    (hnew : ∀ x ∈ replacement, x ∉ (stored.erase (hash, node)).map Prod.snd)
    (hr : Impl.Replaced B impl node replacement hash impl') :
    Represents B (replacement.toList.map (hash, ·) ++ stored.erase (hash, node)) impl' := by
  have hfind : ∀ g, (impl'.find B g).Perm (withHash (replacement.toList.map (hash, ·) ++ stored.erase (hash, node)) g) := by
    intro g
    have hrest : withHash (replacement.toList.map (hash, ·) ++ stored.erase (hash, node)) g =
        if hash = g then replacement.toList ++ (withHash stored g).erase node else withHash stored g := by
      cases replacement with
      | none => exact withHash_erase hash node g stored
      | some x =>
        rw [Option.toList_some, map_singleton, singleton_append, withHash_cons, withHash_erase]
        split <;> rfl
    rw [hrest]
    split
    · next hg =>
      subst hg
      exact hr.find.trans (((h.find hash).erase node).append_left _)
    · next hg =>
      rw [hr.others g (Ne.symm hg)]
      exact h.find g
  refine ⟨hr.wf, hr.load, ?_, ?_, hfind⟩
  · have hlength := length_erase_of_mem hnode
    have hpos := length_pos_of_mem hnode
    have hn := hr.n
    rw [h.count] at hn
    rw [length_append, length_map]
    omega
  · cases replacement with
    | none => exact h.erase_nodes _
    | some x => exact nodup_cons.2 ⟨hnew x rfl, h.erase_nodes _⟩

/-- One legal operation keeps the table in step with what is stored. -/
theorem Represents.step {impl : Impl α} (h : Represents B stored impl) (op : Op α)
    (hop : op.Legal stored) (bases : List UInt32) :
    (step B impl (op, bases)).Meets Impl.Unlucky (Represents B (op.apply stored)) := by
  have hstored : ∀ {hash node}, (hash, node) ∈ stored → node ∈ impl.find B hash ∧ 0 < impl.n := by
    intro hash node hmem
    refine ⟨(h.find hash).mem_iff.2 (mem_withHash.2 hmem), ?_⟩
    rw [h.count]
    exact length_pos_of_mem hmem
  cases op with
  | insert node hash =>
    refine (h.wf.cmapInsert h.load node hash bases).mono fun impl' hadd => ?_
    refine ⟨hadd.wf, hadd.load, ?_, nodup_cons.2 ⟨hop, h.nodes⟩, fun g => ?_⟩
    · rw [hadd.n, h.count]
      rfl
    · rw [hadd.find, Op.apply, withHash_cons]
      by_cases hg : g = hash
      · subst hg
        rw [if_pos rfl, if_pos rfl]
        exact (h.find g).cons node
      · rw [if_neg hg, if_neg (Ne.symm hg)]
        exact h.find g
  | remove node hash =>
    obtain ⟨hnode, hn⟩ := hstored hop
    exact (h.wf.cmapReplace h.load hn none hnode bases).mono fun impl' hr =>
      h.replaced hop (fun x hx => by cases hx) hr
  | replace oldNode newNode hash =>
    obtain ⟨hnode, hn⟩ := hstored hop.1
    refine (h.wf.cmapReplace h.load hn (some newNode) hnode bases).mono fun impl' hr =>
      h.replaced hop.1 (fun x hx => ?_) hr
    cases hx
    exact hop.2

/-- The random numbers suffice for the operation. -/
def Op.lucky (B : Build) (impl : Impl α) (bases : List UInt32) : Op α → Bool
  | .insert _ hash => impl.luckyInsert B hash bases
  | .remove node hash => match impl.replaceInBuckets B node none hash with
    | .ok (some new) => calcMinN B new.bits ≤ new.n - 1 ||
        (Impl.rebuilt B { new with n := new.n - 1 } (new.bits - 1) bases).isSome
    | _ => true
  | .replace .. => true

/-- They suffice for each operation of the run. -/
def luckyRun (B : Build) (impl : Impl α) : List (Op α × List UInt32) → Bool
  | [] => true
  | op :: ops => op.1.lucky B impl op.2 && match step B impl op with
    | .ok impl => luckyRun B impl ops
    | .error _ => true

theorem Represents.step_succeeds {impl : Impl α} (h : Represents B stored impl) {op : Op α}
    (hop : op.Legal stored) {bases : List UInt32} (hlucky : op.lucky B impl bases) :
    (Cmap.step B impl (op, bases)).Succeeds := by
  have hfind : ∀ {hash node}, (hash, node) ∈ stored → node ∈ impl.find B hash := fun hmem =>
    (h.find _).mem_iff.2 (mem_withHash.2 hmem)
  cases op with
  | insert node hash => exact Impl.cmapInsert_succeeds h.load node hlucky
  | remove node hash =>
    obtain ⟨new, hnew, -⟩ := h.wf.replaceInBuckets none (hfind hop)
    simp only [Op.lucky, hnew, Bool.or_eq_true, decide_eq_true_eq] at hlucky
    rw [Cmap.step, Impl.cmapReplace, hnew, Except.ok_bind]
    dsimp only
    rw [Impl.shrinkIfSparse]
    split
    · next hsparse =>
      obtain ⟨t, ht⟩ := Option.isSome_iff_exists.1 (hlucky.resolve_left hsparse.not_ge)
      obtain ⟨rest, hrest⟩ := Impl.cmapRehash_of_rebuilt (hsparse.trans_le (calcMinN_le_calcMaxN_pred B _)) ht
      simp [*]
    · exact ⟨_, rfl⟩
  | replace oldNode newNode hash =>
    obtain ⟨new, hnew, -⟩ := h.wf.replaceInBuckets (some newNode) (hfind hop.1)
    rw [Cmap.step, Impl.cmapReplace, hnew]
    exact ⟨_, rfl⟩

theorem Represents.run : ∀ (ops : List (Op α × List UInt32)) {stored : List (UInt32 × α)} {impl : Impl α},
    Represents B stored impl → LegalRun stored (ops.map Prod.fst) →
    (ops.foldlM (Cmap.step B) impl).Meets Impl.Unlucky
      (Represents B ((ops.map Prod.fst).foldl Op.apply stored))
  | [], _, _, h, _ => h
  | (op, bases) :: ops, stored, impl, h, hlegal => by
    exact (h.step op hlegal.1 bases).bind fun impl' h' => Represents.run ops h' hlegal.2

theorem Represents.run_succeeds : ∀ (ops : List (Op α × List UInt32)) {stored : List (UInt32 × α)} {impl : Impl α},
    Represents B stored impl → LegalRun stored (ops.map Prod.fst) → luckyRun B impl ops →
    (ops.foldlM (Cmap.step B) impl).Succeeds
  | [], _, impl, _, _, _ => ⟨impl, rfl⟩
  | (op, bases) :: ops, stored, impl, h, hlegal, hlucky => by
    obtain ⟨hop, hlucky⟩ := Bool.and_eq_true_iff.1 hlucky
    obtain ⟨impl', hstep⟩ := h.step_succeeds hlegal.1 hop
    have h' := h.step op hlegal.1 bases
    rw [hstep] at h' hlucky
    rw [foldlM_cons, hstep]
    exact Represents.run_succeeds ops h' hlegal.2 hlucky

/-- The map as its clients see it: lookups find what is stored, each node once, the count is right, and what is
stored under one hash is one chain in one of the two buckets of the hash. -/
structure IsMultimap (B : Build) (stored : List (UInt32 × α)) (impl : Impl α) : Prop where
  find : ∀ hash node, node ∈ impl.find B hash ↔ (hash, node) ∈ stored
  once : ∀ hash, (impl.find B hash).Nodup
  count : impl.n = stored.length
  oneChain : ∀ hash, impl.find B hash ≠ [] → ∃ b i, (b = impl.bucket1 B hash ∨ b = impl.bucket2 B hash) ∧ i < B.k ∧
    impl.slot b i = { hash := hash, chain := impl.find B hash } ∧
    ∀ b' i', impl.LiveAt hash b' i' → b' = b ∧ i' = i

omit [DecidableEq α] in
theorem Represents.isMultimap {impl : Impl α} (h : Represents B stored impl) : IsMultimap B stored impl := by
  constructor
  · intro hash node
    rw [(h.find hash).mem_iff, mem_withHash]
  · intro hash
    exact (h.find hash).nodup_iff.2 (h.nodes.sublist (filter_sublist.map _))
  · exact h.count
  · intro hash hne
    obtain ⟨node, hnode⟩ := exists_mem_of_ne_nil _ hne
    obtain ⟨b, i, hlive⟩ := Impl.live_of_mem_find hnode
    refine ⟨b, i, h.wf.placed hlive, h.wf.slots hlive, ?_, fun b' i' hlive' => h.wf.unique hlive' hlive⟩
    rw [h.wf.find_of_live hlive, ← hlive.2]

/-- However the writer uses the map, and whatever random numbers rebuilding draws, the map is a multimap of
what is stored after the run. No assertion fails, and the run ends where the random numbers suffice. -/
theorem run_isMultimap (B : Build) (basis : UInt32) (ops : List (Op α × List UInt32))
    (hlegal : LegalRun [] (ops.map Prod.fst)) :
    (ops.foldlM (step B) (cmapInit basis)).Meets (fun fault => fault = .outOfBases)
      (IsMultimap B ((ops.map Prod.fst).foldl Op.apply [])) ∧
    (luckyRun B (cmapInit basis) ops → ∃ impl, ops.foldlM (step B) (cmapInit basis) = .ok impl) :=
  ⟨(Represents.run ops (represents_init basis) hlegal).mono fun _ h => h.isMultimap,
    Represents.run_succeeds ops (represents_init basis) hlegal⟩

/-- After every run, the writer's lookup returns the node that the readers' lookup returns just for the hashes whose
chain is not in a second bucket that it takes for another one. -/
theorem run_findProtected_iff (B : Build) (basis : UInt32) (ops : List (Op α × List UInt32))
    (hlegal : LegalRun [] (ops.map Prod.fst)) :
    (ops.foldlM (step B) (cmapInit basis)).Meets (fun fault => fault = .outOfBases) fun impl =>
      ∀ hash, (impl.findProtected B hash).head? = (impl.find B hash).head? ↔
        ∀ i, impl.LiveAt hash (impl.bucket2 B hash) i →
          impl.bucket2 B hash = impl.bucket1 B hash ∨ impl.index (otherHash hash) = impl.bucket2 B hash :=
  (Represents.run ops (represents_init basis) hlegal).mono fun _ h _ => h.wf.findProtected_iff

end

/-- A build with pointers of 64 bits and the portable hash. -/
def portable : Build := ⟨.bits64, hashFinish⟩

/-- The fifth node makes the table grow to two buckets with basis zero. All have the first bucket as their first one, so
the sixth is put into its second. -/
def crowdedOps : List (Op Nat × List UInt32) :=
  [(.insert 1 2, []), (.insert 2 6, []), (.insert 3 7, []), (.insert 4 10, []), (.insert 5 11, [0]), (.insert 6 13, [])]

/-- Then that node is replaced, another one removed, and two get the hash of an unused slot. -/
def sampleOps : List (Op Nat × List UInt32) :=
  crowdedOps ++ [(.replace 6 7 13, []), (.remove 1 2, []), (.insert 8 0, []), (.insert 9 0, [])]

theorem sampleOps_legal : LegalRun [] (sampleOps.map Prod.fst) := by
  simp [sampleOps, crowdedOps, LegalRun, Op.Legal, Op.apply]

theorem run_isMultimap_sampleOps : ∃ impl, sampleOps.foldlM (step portable) (cmapInit 0) = .ok impl ∧
    IsMultimap portable [(0, 9), (0, 8), (13, 7), (11, 5), (10, 4), (7, 3), (6, 2)] impl := by
  obtain ⟨hmeets, hok⟩ := run_isMultimap portable 0 sampleOps sampleOps_legal
  obtain ⟨impl, himpl⟩ := hok (by decide +kernel)
  rw [himpl] at hmeets
  exact ⟨impl, himpl, hmeets⟩

theorem run_findProtected_iff_sampleOps : ∃ impl, sampleOps.foldlM (step portable) (cmapInit 0) = .ok impl ∧
    impl.bits = 1 ∧ ∀ hash, (impl.findProtected portable hash).head? = (impl.find portable hash).head? ↔
      ∀ i, impl.LiveAt hash (impl.bucket2 portable hash) i →
        impl.bucket2 portable hash = impl.bucket1 portable hash ∨
          impl.index (otherHash hash) = impl.bucket2 portable hash := by
  have hmeets := run_findProtected_iff portable 0 sampleOps sampleOps_legal
  have hbits : (sampleOps.foldlM (step portable) (cmapInit 0)).map Impl.bits = .ok 1 := by decide +kernel
  cases himpl : sampleOps.foldlM (step portable) (cmapInit 0) with
  | error e =>
    rw [himpl] at hbits
    cases hbits
  | ok impl =>
    rw [himpl] at hmeets hbits
    exact ⟨impl, rfl, Except.ok.inj hbits, hmeets⟩

theorem crowdedOps_findProtected : LegalRun [] (crowdedOps.map Prod.fst) ∧
    ((crowdedOps.foldlM (step portable) (cmapInit 0)).map fun impl =>
      ((impl.findProtected portable 13).head?, (impl.find portable 13).head?)) =
      .ok (none, some 6) := by
  constructor
  · simp [crowdedOps, LegalRun, Op.Legal, Op.apply]
  · decide +kernel

end LinkerOvs.Cmap
