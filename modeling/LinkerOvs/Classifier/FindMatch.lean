/-
The lookup in one subtable. Whatever stages, tries and wildcards do, it finds the chain whose match the
flow meets, and in it the first match that is visible. And the wildcards it leaves are enough: a flow that
agrees on them gets the same result, unless a stage hash collides in a way that `NoFalseCandidate` excludes,
or the final stage has other bits than the ports.
-/
import LinkerOvs.Classifier.Operations
import LinkerOvs.Classifier.Lookup

namespace LinkerOvs.Cls

open List

variable {env : Env} {H : FlowHash} {S : ClsSubtable} {c c' : Chain} {v : Version} {f f' wc mask : Flow}

/-! ## The chain that a flow matches -/

namespace ClsSubtable

/-- The matches that a flow meets in a subtable, from the first visible one on. -/
def firstMatch (S : ClsSubtable) (v : Version) (f : Flow) : List ClsMatch :=
  match S.rules.find? fun c => S.mask.Agrees c.flow f with
  | some c => visibleFrom v c.list
  | none => []

theorem WF.flow_and_mask (h : S.WF H) (hc : c ∈ S.rules) (i : Fin flowU64s) : c.flow i &&& S.mask i = c.flow i := by
  obtain ⟨-, hmask⟩ := (h.chains c hc).same _ c.head_mem
  rw [← hmask]
  exact c.head.rule.masked i

theorem WF.eq_of_agrees (h : S.WF H) (hc : c ∈ S.rules) (hc' : c' ∈ S.rules) (hf : S.mask.Agrees c.flow f)
    (hf' : S.mask.Agrees c'.flow f) : c = c' := by
  apply h.eq_of_flow hc hc'
  funext i
  rw [← h.flow_and_mask hc i, ← h.flow_and_mask hc' i]
  exact (hf.trans hf'.symm).and_eq i

theorem WF.firstMatch_eq (h : S.WF H) (hc : c ∈ S.rules) (hf : S.mask.Agrees c.flow f) :
    S.firstMatch v f = visibleFrom v c.list := by
  unfold firstMatch
  cases hfind : S.rules.find? fun c => S.mask.Agrees c.flow f with
  | none => exact absurd hf (by simpa using find?_eq_none.1 hfind c hc)
  | some x =>
    have hx : S.mask.Agrees x.flow f := by simpa using find?_some hfind
    rw [h.eq_of_agrees (mem_of_find?_eq_some hfind) hc hx hf]

theorem firstMatch_eq_nil (h : ∀ c ∈ S.rules, ¬S.mask.Agrees c.flow f) : S.firstMatch v f = [] := by
  unfold firstMatch
  rw [find?_eq_none.2 fun c hc => by simpa using h c hc]

theorem firstMatch_congr (h : S.mask.Agrees f f') : S.firstMatch v f' = S.firstMatch v f := by
  have hiff : ∀ c : Chain, S.mask.Agrees c.flow f' ↔ S.mask.Agrees c.flow f :=
    fun c => ⟨fun hc => hc.trans h.symm, fun hc => hc.trans h⟩
  unfold firstMatch
  simp only [hiff]

end ClsSubtable

/-! ## The loop over the chains with a hash -/

theorem findMatchLoop_eq_nil : ∀ {cs : List Chain}, (∀ c ∈ cs, ¬mask.Agrees c.flow f) → findMatchLoop mask v f cs = []
  | [], _ => rfl
  | c :: cs, h => by
    rw [findMatchLoop, if_neg, findMatchLoop_eq_nil fun x hx => h x (mem_cons_of_mem _ hx)]
    rintro ⟨hc, -⟩
    exact h c mem_cons_self (of_decide_eq_true hc)

theorem findMatchLoop_eq (hc : mask.Agrees c.flow f) : ∀ {cs : List Chain}, c ∈ cs →
    (∀ x ∈ cs, mask.Agrees x.flow f → x = c) → findMatchLoop mask v f cs = visibleFrom v c.list
  | x :: cs, hmem, huniq => by
    have huniq' : ∀ y ∈ cs, mask.Agrees y.flow f → y = c := fun y hy => huniq y (mem_cons_of_mem _ hy)
    have hin : c ∈ cs → findMatchLoop mask v f cs = visibleFrom v c.list := fun hcs => findMatchLoop_eq hc hcs huniq'
    have hout : c ∉ cs → findMatchLoop mask v f cs = [] :=
      fun hcs => findMatchLoop_eq_nil fun y hy hagrees => hcs (huniq' y hy hagrees ▸ hy)
    rw [findMatchLoop]
    by_cases hx : mask.Agrees x.flow f
    · obtain rfl := huniq x mem_cons_self hx
      by_cases hvisible : visibleFrom v x.list ≠ []
      · rw [if_pos ⟨decide_eq_true hx, hvisible⟩]
      -- a chain without a visible match is as good as none
      push Not at hvisible
      grind
    · rw [if_neg fun h => hx (of_decide_eq_true h.1)]
      grind

theorem ClsSubtable.WF.findMatch_eq (h : S.WF H) :
    findMatch S v f (flowHashInMinimask H f S.mask) = S.firstMatch v f := by
  by_cases hmatch : ∃ c ∈ S.rules, S.mask.Agrees c.flow f
  · obtain ⟨c, hc, hf⟩ := hmatch
    rw [h.firstMatch_eq hc hf]
    refine findMatchLoop_eq hf (mem_filter.2 ⟨hc, decide_eq_true ?_⟩) ?_
    · rw [(h.chains c hc).hash, flowHashInMinimask, hashRange_of_agrees hf]
      rfl
    · intro x hx hxf
      exact h.eq_of_agrees (mem_of_mem_filter hx) hc hxf hf
  · push Not at hmatch
    rw [ClsSubtable.firstMatch_eq_nil hmatch]
    exact findMatchLoop_eq_nil fun c hc => hmatch c (mem_of_mem_filter hc)

/-! ## Tries -/

/-- Flows that agree on the bits of a prefix of a field have the same prefix; there are no bits behind the end of a
flow. -/
theorem take_bits_eq {field : MfField} {n : Nat} (h : wc.Agrees f f')
    (hbits : ∀ k < n, (32 * field.be32ofs + k) / 64 < flowU64s → wc.bit (32 * field.be32ofs + k) = true) :
    (field.bits f).take n = (field.bits f').take n := by
  refine take_fieldBits_eq fun k hk => ?_
  by_cases hlt : (32 * field.be32ofs + k) / 64 < flowU64s
  · exact h.bit_eq (hbits k hk hlt)
  · rw [Flow.bit, Flow.bit, dif_neg hlt, dif_neg hlt]

/-- No chain matches a flow whose prefix of the length of the subtable is not among those in a trie. -/
theorem not_agrees_of_not_mem {t : ClsTrie} {l : List (List Bool)} (ht : t.root.Holds l)
    (hsub : ∀ p ∈ S.prefixes t.field, p ∈ l) (hlen : t.field.prefixLen S.mask ≠ 0)
    (hnot : t.field.prefixLen S.mask ∉ (trieLookupValue t.root (t.field.bits f)).2) :
    ∀ c ∈ S.rules, ¬S.mask.Agrees c.flow f := by
  intro c hc hagrees
  refine hnot (ht.mem_lookup.2 ⟨?_, hsub _ ?_⟩)
  · rw [MfField.bits, length_fieldBits]
    exact minimaskGetPrefixLen_le ..
  · unfold ClsSubtable.prefixes
    rw [if_pos hlen]
    have htake : (t.field.bits c.flow).take (t.field.prefixLen S.mask) = (t.field.bits f).take (t.field.prefixLen S.mask) :=
      take_fieldBits_of_agrees hagrees ..
    grind

/-- What a trie says when a subtable can be skipped: nothing matches a flow with the same `maskbits` bits. -/
theorem not_agrees_of_trieLookup {t : ClsTrie} {l : List (List Bool)} (ht : t.root.Holds l)
    (hsub : ∀ p ∈ S.prefixes t.field, p ∈ l) (hlen : t.field.prefixLen S.mask ≠ 0)
    (hlookup : (trieLookup env t f).2 (t.field.prefixLen S.mask) = false)
    (htake : (t.field.bits f).take (trieLookup env t f).1 = (t.field.bits f').take (trieLookup env t f).1) :
    ∀ c ∈ S.rules, ¬S.mask.Agrees c.flow f' := by
  unfold trieLookup at hlookup htake
  split at hlookup
  · rename_i hprereqs
    rw [if_pos hprereqs] at htake
    have hsame := trieLookupValue_congr ht.wf (by simp [MfField.bits]) htake
    refine not_agrees_of_not_mem ht hsub hlen ?_
    simp_all
  · cases hlookup

/-- What `check_tries` does to the wildcards, and what it knows when it says that a subtable can be skipped. -/
theorem checkTries_spec (env : Env) (f wc : Flow) (rangeMap : Flowmap) : ∀ {tries : List ClsTrie},
    (∀ t ∈ tries, ∃ l, t.root.Holds l ∧ ∀ p ∈ S.prefixes t.field, p ∈ l) →
    let r := checkTries env f rangeMap tries (tries.map fun t => t.field.prefixLen S.mask) wc
    wc.Sub r.2 ∧ (r.1 = false → r.2 = wc) ∧
      (r.1 = true → ∀ f', r.2.Agrees f f' → ∀ c ∈ S.rules, ¬S.mask.Agrees c.flow f')
  | [], _ => ⟨.refl wc, fun _ => rfl, nofun⟩
  | t :: tries, h => by
    have htries : ∀ x ∈ tries, ∃ l, x.root.Holds l ∧ ∀ p ∈ S.prefixes x.field, p ∈ l :=
      fun x hx => h x (mem_cons_of_mem _ hx)
    have ih := checkTries_spec env f wc rangeMap htries
    obtain ⟨l, ht, hsub⟩ := h t mem_cons_self
    rw [map_cons, checkTries]
    dsimp only
    split
    · rename_i hskip
      split
      · refine ⟨sub_maskSetPrefixBits _ _ _, nofun, fun _ f' hagrees => ?_⟩
        exact not_agrees_of_trieLookup ht hsub hskip.1 hskip.2.2
          (take_bits_eq hagrees fun k hk hlt => bit_maskSetPrefixBits wc hk hlt)
      split
      · rename_i hset
        refine ⟨.refl wc, nofun, fun _ f' hagrees => ?_⟩
        exact not_agrees_of_trieLookup ht hsub hskip.1 hskip.2.2
          (take_bits_eq hagrees fun k hk hlt => bit_of_maskPrefixBitsSet hset hk hlt)
      · exact ih
    · exact ih

/-! ## A single candidate -/

theorem exists_rightmost1bit {x : BitVec 64} (h : x ≠ 0) :
    ∃ j, x.getLsbD j = true ∧ (rightmost1bit x).getLsbD j = true := by
  have hexists : ∃ j, x.getLsbD j = true := by
    by_contra hnone
    push Not at hnone
    exact h (BitVec.eq_of_getLsbD_eq fun j _ => by simpa using hnone j)
  -- the lowest bit of `x` is the one where `-x` has its lowest bit
  obtain ⟨j, hj, hlow⟩ : ∃ j, x.getLsbD j = true ∧ ¬∃ i < j, x.getLsbD i = true :=
    ⟨Nat.find hexists, Nat.find_spec hexists, fun ⟨_, hi, hxi⟩ => Nat.find_min hexists hi hxi⟩
  refine ⟨j, hj, ?_⟩
  rw [rightmost1bit, BitVec.getLsbD_and, BitVec.getLsbD_neg, hj, decide_eq_true (BitVec.lt_of_getLsbD hj),
    decide_eq_false hlow]
  rfl

/-- The check of a single candidate: it matches exactly if no word differs, and then the wildcards have all the bits
of the mask in those words; else they have them for the words before some word, and a bit of the mask there in which
the candidate differs. -/
theorem matchesFlowWcLoop_spec (flow mask target : Flow) : ∀ (is : Flowmap) (wc : Flow),
    let r := matchesFlowWcLoop flow mask target is wc
    wc.Sub r.2 ∧
    ((r.1 = true ∧ ∀ i ∈ is, (flow i ^^^ target i) &&& mask i = 0 ∧
        ∀ j, (mask i).getLsbD j = true → (r.2 i).getLsbD j = true) ∨
      r.1 = false ∧ ∃ pre i post, is = pre ++ i :: post ∧
        (∀ k ∈ pre, ∀ j, (mask k).getLsbD j = true → (r.2 k).getLsbD j = true) ∧
        ∃ j, ((flow i ^^^ target i) &&& mask i).getLsbD j = true ∧ (r.2 i).getLsbD j = true)
  | [], wc => ⟨.refl wc, .inl ⟨rfl, nofun⟩⟩
  | i :: is, wc => by
    rw [matchesFlowWcLoop]
    split
    · rename_i hdiff
      obtain ⟨hsub, hcases⟩ := matchesFlowWcLoop_spec flow mask target is
        (Function.update wc i (wc i ||| mask i))
      have hbits : ∀ j, (mask i).getLsbD j = true →
          ((matchesFlowWcLoop flow mask target is (Function.update wc i (wc i ||| mask i))).2 i).getLsbD j = true :=
        fun j hj => hsub i j (by simp [hj])
      refine ⟨(Flow.sub_update_or wc i _).trans hsub, ?_⟩
      rcases hcases with ⟨htrue, hall⟩ | ⟨hfalse, pre, k, post, rfl, hpre, hdiffers⟩
      · grind
      · grind
    · rename_i hdiff
      split
      · obtain ⟨j, hj, hright⟩ := exists_rightmost1bit hdiff
        refine ⟨Flow.sub_update_or wc i _, .inr ⟨rfl, [], i, is, rfl, nofun, j, hj, ?_⟩⟩
        simp [hright]
      rename_i hset
      have hexists : ∃ j, (wc i &&& ((flow i ^^^ target i) &&& mask i)).getLsbD j = true := by
        by_contra hnone
        push Not at hnone
        exact hset (BitVec.eq_of_getLsbD_eq fun j _ => by simpa using hnone j)
      obtain ⟨j, hj⟩ := hexists
      rw [BitVec.getLsbD_and, Bool.and_eq_true] at hj
      exact ⟨.refl wc, .inr ⟨rfl, [], i, is, rfl, nofun, j, hj.2, hj.1⟩⟩

/-! ## Stages -/

namespace ClsSubtable

/-- The words of the first `k` stages. -/
def stageWords (S : ClsSubtable) (k : Nat) : Flowmap := (S.stages.take k).flatMap Stage.map

/-- The chains that have the hash of the flow over some words. -/
def candidates (H : FlowHash) (S : ClsSubtable) (words : Flowmap) (f : Flow) : List Chain :=
  S.rules.filter fun c => (hashRange c.flow S.mask H {} words).hash H = (hashRange f S.mask H {} words).hash H

/-- If a single chain has the hash of the flow over some words, it has the bits of the flow in them. -/
def HashFaithful (H : FlowHash) (S : ClsSubtable) (words : Flowmap) (f : Flow) : Prop :=
  (S.candidates H words f).length = 1 →
    ∀ c ∈ S.candidates H words f, ∀ i ∈ words, c.flow i &&& S.mask i = f i &&& S.mask i

/-- No stage hash singles out a chain that differs from the flow in the bits of the stages up to it. -/
def NoFalseCandidate (H : FlowHash) (S : ClsSubtable) (f : Flow) : Prop :=
  ∀ k ≤ S.stages.length, S.HashFaithful H (S.stageWords k) f

/-- The final stage of a subtable with ports has bits of the ports only. -/
def FinalPortsOnly (S : ClsSubtable) : Prop :=
  S.portsMaskLen ≠ 0 → ∀ i ∈ S.lastMap, i.val = 68 ∧ S.mask i &&& 0xffffffff00000000#64 = 0

instance (H : FlowHash) (S : ClsSubtable) (words : Flowmap) (f : Flow) : Decidable (S.HashFaithful H words f) :=
  inferInstanceAs (Decidable (_ → _))

instance (H : FlowHash) (S : ClsSubtable) (f : Flow) : Decidable (S.NoFalseCandidate H f) :=
  inferInstanceAs (Decidable (∀ k ≤ S.stages.length, S.HashFaithful H (S.stageWords k) f))

instance (S : ClsSubtable) : Decidable S.FinalPortsOnly := inferInstanceAs (Decidable (_ → _))

theorem mem_candidates_of_agrees (H : FlowHash) (words : Flowmap) (hc : c ∈ S.rules) (hf : S.mask.Agrees c.flow f) :
    c ∈ S.candidates H words f :=
  mem_filter.2 ⟨hc, decide_eq_true (by rw [hashRange_of_agrees hf])⟩

theorem candidates_congr {words : Flowmap} (h : ∀ i ∈ words, f i &&& S.mask i = f' i &&& S.mask i) :
    S.candidates H words f' = S.candidates H words f := by
  unfold candidates
  rw [hashRange_congr h]

theorem filter_index_eq (words : Flowmap) :
    ((S.rules.map (Chain.indexNode H S.mask words)).filter fun n => n.hash = (hashRange f S.mask H {} words).hash H) =
      (S.candidates H words f).map (Chain.indexNode H S.mask words) := by
  rw [filter_map]
  rfl

theorem WF.find_head (h : S.WF H) (hc : c ∈ S.rules) : (S.rules.find? fun x => x.head.rule.id = c.head.rule.id) = some c := by
  cases hfind : S.rules.find? fun x => x.head.rule.id = c.head.rule.id with
  | none => exact absurd (decide_eq_true rfl) (find?_eq_none.1 hfind c hc)
  | some x =>
    have hid : x.head.rule.id = c.head.rule.id := by simpa using find?_some hfind
    rw [h.eq_of_id (mem_of_find?_eq_some hfind) hc x.head_id_mem (hid ▸ c.head_id_mem)]

theorem mask_eq_zero {i : Fin flowU64s} (hi : i ∉ minimaskMap mask) : mask i = 0 := by
  simpa [minimaskMap] using hi

theorem agrees_of_words (h : ∀ i ∈ minimaskMap mask, f i &&& mask i = f' i &&& mask i) : mask.Agrees f f' := by
  rw [Flow.agrees_iff]
  intro i j hj
  by_cases hi : i ∈ minimaskMap mask
  · have hbit := congrArg (BitVec.getLsbD · j) (h i hi)
    simpa [hj] using hbit
  · simp [mask_eq_zero hi] at hj

/-- A single candidate that was checked: the result is right for the flow, and for every other one that agrees on the
wildcards, if the candidate has the bits of the flow in the words that it was found by. -/
theorem WF.singleCandidate_spec (h : S.WF H) {done rest : Flowmap} (hcover : done ++ rest = minimaskMap S.mask)
    (hsingle : S.candidates H done f = [c]) (wc : Flow) :
    let r := miniflowAndMaskMatchesFlowWc c.flow S.mask f wc
    (if r.1 then visibleFrom v c.list else []) = S.firstMatch v f ∧ wc.Sub r.2 ∧
      (S.HashFaithful H done f → ∀ f', r.2.Agrees f f' → S.firstMatch v f' = S.firstMatch v f) := by
  have hc : c ∈ S.rules := mem_of_mem_filter (hsingle ▸ mem_singleton_self c)
  -- a chain that matches is the candidate
  have honly : ∀ x ∈ S.rules, S.mask.Agrees x.flow f → x = c := by
    intro x hx hagrees
    have hmem := mem_candidates_of_agrees H done hx hagrees
    simp_all
  obtain ⟨hsub, ⟨htrue, hall⟩ | ⟨hfalse, pre, i, post, hsplit, hpre, j, hdiff, hset⟩⟩ :=
    matchesFlowWcLoop_spec c.flow S.mask f (minimaskMap S.mask) wc
  · have hagrees : S.mask.Agrees c.flow f := by
      intro i
      by_cases hi : i ∈ minimaskMap S.mask
      · exact (hall i hi).1
      · rw [mask_eq_zero hi]
        exact BitVec.and_zero
    have hmask : S.mask.Sub (miniflowAndMaskMatchesFlowWc c.flow S.mask f wc).2 := by
      intro i j hj
      by_cases hi : i ∈ minimaskMap S.mask
      · exact (hall i hi).2 j hj
      · simp [mask_eq_zero hi] at hj
    refine ⟨?_, hsub, fun _ f' hf' => firstMatch_congr (hf'.mono hmask)⟩
    rw [miniflowAndMaskMatchesFlowWc, if_pos htrue, h.firstMatch_eq hc hagrees]
  · -- the candidate differs from the flow in bit `j` of word `i`
    rw [BitVec.getLsbD_and, BitVec.getLsbD_xor, Bool.and_eq_true, bne_iff_ne] at hdiff
    have hnot : ∀ g : Flow, (g i).getLsbD j = (f i).getLsbD j → ¬S.mask.Agrees c.flow g := by
      intro g hg hagrees
      exact hdiff.1 ((Flow.agrees_iff.1 hagrees i j hdiff.2).trans hg)
    have hnone : ∀ x ∈ S.rules, ¬S.mask.Agrees x.flow f :=
      fun x hx hagrees => hnot f rfl (honly x hx hagrees ▸ hagrees)
    refine ⟨?_, hsub, fun hfaithful f' hf' => ?_⟩
    · rw [miniflowAndMaskMatchesFlowWc, if_neg (by rw [hfalse]; decide), firstMatch_eq_nil hnone]
    · -- the words that found the candidate come before word `i`
      have hwords := hfaithful (by rw [hsingle]; rfl) c (by rw [hsingle]; simp)
      have hdone : ∀ k ∈ done, k ∈ pre := by
        have hi : i ∉ done := by
          intro hi
          have hbit := congrArg (BitVec.getLsbD · j) (hwords i hi)
          grind
        rw [← hcover] at hsplit
        rcases append_eq_append_iff.1 hsplit with ⟨as, hpre', -⟩ | ⟨bs, hdone', hrest⟩
        · grind
        rcases bs with _ | ⟨b, bs⟩
        · simp [*]
        · grind
      have hsame : ∀ k ∈ done, f k &&& S.mask k = f' k &&& S.mask k := by
        intro k hk
        refine BitVec.eq_of_getLsbD_eq fun b _ => ?_
        rw [BitVec.getLsbD_and, BitVec.getLsbD_and]
        cases hb : (S.mask k).getLsbD b with
        | false => rw [Bool.and_false, Bool.and_false]
        | true => rw [Flow.agrees_iff.1 hf' k b (hpre k (hdone k hk) b hb)]
      have hnone' : ∀ x ∈ S.rules, ¬S.mask.Agrees x.flow f' := by
        intro x hx hagrees
        have hmem := mem_candidates_of_agrees H done hx hagrees
        rw [candidates_congr hsame, hsingle] at hmem
        obtain rfl := mem_singleton.1 hmem
        exact hnot f' (Flow.agrees_iff.1 hf' i j hset).symm hagrees
      rw [firstMatch_eq_nil hnone', firstMatch_eq_nil hnone]

/-! ## The final stage and the ports -/

theorem WF.portsPrefix_mem (h : S.WF H) (hlen : S.portsMaskLen ≠ 0) (hc : c ∈ S.rules) (hf : S.mask.Agrees c.flow f) :
    S.portsMaskLen ∈ (trieLookupValue S.portsTrie (maskedPorts f S.mask)).2 := by
  refine h.ports.mem_lookup.2 ⟨?_, ?_⟩
  · rw [length_maskedPorts, h.portsLen, Cls.portsMaskLen]
    omega
  · unfold portsPrefixes
    rw [if_pos hlen]
    have hports : S.portsPrefix c.flow = (maskedPorts f S.mask).take S.portsMaskLen :=
      take_maskedPorts_eq fun k _ _ hbit => hf.bit_eq hbit
    grind

/-- No match in the final stage of a subtable with ports: the bits that the ports trie looked at are enough. -/
theorem WF.portsLookup_spec (h : S.WF H) (hlen : S.portsMaskLen ≠ 0) (hports : S.FinalPortsOnly) {done : Flowmap}
    (hcover : done ++ S.lastMap = minimaskMap S.mask) {mbits : Nat}
    (hmbits : (trieLookupValue S.portsTrie (maskedPorts f S.mask)).1 = mbits)
    (hagrees : (flowWildcardsFoldMinimaskInMap
      (wc.orBe32 tpPortsOfs32 (S.mask.be32 tpPortsOfs32 &&& be32PrefixMask mbits)) S.mask done).Agrees f f') :
    S.firstMatch v f' = S.firstMatch v f := by
  -- the flows agree on the first `mbits` bits of the masked ports
  have hbits : ∀ k < 32, k < mbits → S.mask.bit (32 * tpPortsOfs32 + k) = true →
      f.bit (32 * tpPortsOfs32 + k) = f'.bit (32 * tpPortsOfs32 + k) := by
    intro k hk hkm hbit
    exact hagrees.bit_eq ((Flow.sub_fold _ _ _).bit (bit_orBe32_ports wc S.mask hk hkm hbit))
  by_cases hmem : S.portsMaskLen ∈ (trieLookupValue S.portsTrie (maskedPorts f S.mask)).2
  · -- the trie looked at all of the ports, so the flows agree on the whole mask
    have hle : S.portsMaskLen ≤ mbits := hmbits ▸ le_of_mem_trieLookupLoop hmem
    apply firstMatch_congr
    apply agrees_of_words
    intro i hi
    rw [← hcover] at hi
    rcases mem_append.1 hi with hi | hi
    · exact Flow.and_eq_of_fold hagrees hi
    obtain ⟨hword, hhigh⟩ := hports hlen i hi
    refine BitVec.eq_of_getLsbD_eq fun j hj64 => ?_
    rw [BitVec.getLsbD_and, BitVec.getLsbD_and]
    cases hj : (S.mask i).getLsbD j with
    | false => rw [Bool.and_false, Bool.and_false]
    | true =>
      have hj32 : j < 32 := by
        by_contra hge
        have hones : ∀ j < 64, ¬j < 32 → (0xffffffff00000000#64).getLsbD j = true := by decide
        have hzero := congrArg (BitVec.getLsbD · j) hhigh
        grind
      rw [getLsbD_ports _ hword hj32] at hj ⊢
      rw [getLsbD_ports _ hword hj32, hbits _ (by omega) ?_ hj]
      exact (h.portsLen ▸ lt_portsMaskLen (by omega) hj).trans_le hle
  · -- no chain has the ports of either flow
    have hsame : trieLookupValue S.portsTrie (maskedPorts f' S.mask) = trieLookupValue S.portsTrie (maskedPorts f S.mask) := by
      apply trieLookupValue_congr h.ports.wf (by simp)
      rw [hmbits]
      exact take_maskedPorts_eq fun k hkm hk hbit => hbits k hk hkm hbit
    rw [firstMatch_eq_nil fun c hc hf => hmem (h.portsPrefix_mem hlen hc hf),
      firstMatch_eq_nil fun c hc hf => hmem (hsame ▸ h.portsPrefix_mem hlen hc hf)]

section Loop

variable {tries : List ClsTrie}

/-- What a lookup knows of a subtable and of the tries. -/
structure Ready (H : FlowHash) (tries : List ClsTrie) (S : ClsSubtable) : Prop where
  wf : S.WF H
  plen : S.triePlen = tries.map fun t => t.field.prefixLen S.mask
  holds : ∀ t ∈ tries, ∃ l, t.root.Holds l ∧ ∀ p ∈ S.prefixes t.field, p ∈ l

/-- The result of a lookup and its wildcards: it is the right one, and so it is for every flow that agrees on the
wildcards, under a condition `P` on the hashes. -/
def Certified (S : ClsSubtable) (v : Version) (f wc : Flow) (P : Prop) (r : List ClsMatch × Flow) : Prop :=
  r.1 = S.firstMatch v f ∧ wc.Sub r.2 ∧ (P → ∀ f', r.2.Agrees f f' → S.firstMatch v f' = S.firstMatch v f)

section

variable (h : S.Ready env.hash tries)
include h

theorem Ready.checkTries_skip {rangeMap : Flowmap} {wc' : Flow} (words : Flowmap) (P : Prop)
    (hcheck : checkTries env f rangeMap tries S.triePlen wc = (true, wc')) :
    S.Certified v f wc P ([], flowWildcardsFoldMinimaskInMap wc' S.mask words) := by
  obtain ⟨hsub, -, hskip⟩ := checkTries_spec env f wc rangeMap h.holds
  rw [← h.plen, hcheck] at hsub hskip
  have hnone := hskip rfl
  refine ⟨(firstMatch_eq_nil (hnone f (.refl _ f))).symm, hsub.trans (Flow.sub_fold _ _ _), fun _ f' hf' => ?_⟩
  rw [firstMatch_eq_nil (hnone f' (hf'.mono (Flow.sub_fold _ _ _))), firstMatch_eq_nil (hnone f (.refl _ f))]

theorem Ready.checkTries_go_on {rangeMap : Flowmap} {wc' : Flow}
    (hcheck : checkTries env f rangeMap tries S.triePlen wc = (false, wc')) : wc' = wc := by
  obtain ⟨-, hsame, -⟩ := checkTries_spec env f wc rangeMap h.holds
  rw [← h.plen, hcheck] at hsame
  exact hsame rfl

theorem Ready.finalStage_spec {done : Flowmap}
    (hcover : done ++ S.lastMap = minimaskMap S.mask) (wc : Flow) :
    S.Certified v f wc S.FinalPortsOnly
      (finalStage env tries S v f done (hashRange f S.mask env.hash {} done) wc) := by
  unfold finalStage
  split
  · rename_i wc' hcheck
    exact h.checkTries_skip done _ hcheck
  rename_i wc' hcheck
  obtain rfl := h.checkTries_go_on hcheck
  have hfind : findMatch S v f ((hashRange f S.mask env.hash (hashRange f S.mask env.hash {} done) S.lastMap).hash env.hash) =
      S.firstMatch v f := by
    rw [← hashRange_append, hcover]
    exact h.wf.findMatch_eq
  dsimp only
  rw [hfind]
  split
  · rename_i hports
    refine ⟨hports.1.symm, (Flow.sub_orBe32 _ _ _).trans (Flow.sub_fold _ _ _), fun hfinal f' hf' => ?_⟩
    exact h.wf.portsLookup_spec hports.2 hfinal hcover rfl hf'
  · refine ⟨rfl, Flow.sub_fold _ _ _, fun _ f' hf' => ?_⟩
    exact firstMatch_congr (hf'.mono (Flow.mask_sub_fold _ _))

/-- The loop over the stages. The induction goes over the stages that are left, with the words of those before. -/
theorem Ready.stagesLoop_spec : ∀ {stages : List Stage} {done : Flowmap} (wc : Flow),
    IndicesOk env.hash S.mask S.rules done stages →
    done ++ stages.flatMap Stage.map ++ S.lastMap = minimaskMap S.mask →
    S.Certified v f wc
      ((∀ k ≤ stages.length, S.HashFaithful env.hash (done ++ (stages.take k).flatMap Stage.map) f) ∧ S.FinalPortsOnly)
      (stagesLoop env tries S v f stages done (hashRange f S.mask env.hash {} done) wc)
  | [], done, wc, _, hcover => by
    obtain ⟨hfst, hsub, hcert⟩ := h.finalStage_spec (v := v) (f := f) (by simpa using hcover) wc
    exact ⟨hfst, hsub, fun hP => hcert hP.2⟩
  | stage :: stages, done, wc, ⟨hindex, hrest⟩, hcover => by
    rw [stagesLoop]
    split
    · rename_i wc' hcheck
      exact h.checkTries_skip done _ hcheck
    rename_i wc' hcheck
    obtain rfl := h.checkTries_go_on hcheck
    dsimp only
    rw [← hashRange_append, hindex, filter_index_eq]
    rcases hcand : S.candidates env.hash (done ++ stage.map) f with _ | ⟨c, _ | ⟨c', cs⟩⟩
    · -- no chain has the hash of the flow, nor that of a flow with the same bits
      have hnone : ∀ g, S.candidates env.hash (done ++ stage.map) g = [] → S.firstMatch v g = [] := by
        intro g hg
        refine firstMatch_eq_nil fun c hc hagrees => ?_
        have hmem := mem_candidates_of_agrees env.hash (done ++ stage.map) hc hagrees
        simp_all
      refine ⟨(hnone f hcand).symm, Flow.sub_fold _ _ _, fun _ f' hf' => ?_⟩
      rw [hnone f hcand, hnone f']
      rw [candidates_congr fun i hi => Flow.and_eq_of_fold hf' hi, hcand]
    · have hc : c ∈ S.rules := mem_of_mem_filter (hcand ▸ mem_singleton_self c)
      have hsplit : done ++ stage.map ++ (stages.flatMap Stage.map ++ S.lastMap) = minimaskMap S.mask := by
        simp_all
      obtain ⟨hfst, hsub, hcert⟩ := h.wf.singleCandidate_spec (v := v) hsplit hcand wc'
      simp only [map_cons, map_nil, Chain.indexNode, h.wf.find_head hc]
      refine ⟨hfst, hsub, fun hP => hcert ?_⟩
      have hone := hP.1 1 (by simp)
      simpa using hone
    · have hcover' : done ++ stage.map ++ stages.flatMap Stage.map ++ S.lastMap = minimaskMap S.mask := by
        simp_all
      obtain ⟨hfst, hsub, hcert⟩ := Ready.stagesLoop_spec wc' hrest hcover'
      refine ⟨hfst, hsub, fun hP => hcert ⟨fun k hk => ?_, hP.2⟩⟩
      have hnext := hP.1 (k + 1) (by simpa using hk)
      simpa [append_assoc] using hnext

theorem Ready.findMatchWc_fst (wc : Option Flow) :
    (findMatchWc env tries S v f wc).1 = S.firstMatch v f := by
  cases wc with
  | none => exact h.wf.findMatch_eq
  | some wc => exact (h.stagesLoop_spec wc h.wf.indices (by simpa using h.wf.cover)).1

theorem Ready.findMatchWc_cert (wc : Flow) :
    ∃ wc', (findMatchWc env tries S v f (some wc)).2 = some wc' ∧ wc.Sub wc' ∧
      (S.NoFalseCandidate env.hash f → S.FinalPortsOnly → ∀ f', wc'.Agrees f f' →
        S.firstMatch v f' = S.firstMatch v f) := by
  obtain ⟨-, hsub, hcert⟩ := h.stagesLoop_spec (v := v) (f := f) wc h.wf.indices (by simpa using h.wf.cover)
  exact ⟨_, rfl, hsub, fun hfaithful hports => hcert ⟨fun k hk => hfaithful k hk, hports⟩⟩

end

end Loop

end ClsSubtable

end LinkerOvs.Cls
