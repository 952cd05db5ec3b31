/-
The keys of the userspace datapath's classifier (`lib/dpif-netdev.c`): the mask and the masked flow that
`dp_netdev_flow_add` makes of a flow and its wildcards, and how a packet's key is matched against them. The mask keeps
only the words that `flow_wc_map` has for the flow.
-/
import LinkerOvs.Dpcls.Miniflow
import LinkerOvs.Flows.ExtractRuns

namespace LinkerOvs.Dpcls

open Cls Flows

/-! ## Masks and masked flows -/

structure NetdevFlowKey where
  hash : UInt32
  len : Nat
  mf : Miniflow

def netdevFlowKeySize (flowU64s : Nat) : Nat := 8 * flowmapUnits + 8 * flowU64s

/-- A unit of a map as the number it is. -/
def mapWord (map : Flowmap) (unit : Nat) : BitVec 64 :=
  (unitBits map unit).foldl (fun word i => word ||| 1#64 <<< (i.val % 64)) 0

theorem ordered_flowmapSet (map : Flowmap) (idx n : Nat) : (flowmapSet map idx n).Pairwise (· < ·) :=
  (List.pairwise_lt_finRange _).filter _

theorem ordered_foldl_flowmapSetField : ∀ (xs : List Field) {map : Flowmap}, map.Pairwise (· < ·) →
    (xs.foldl flowmapSetField map).Pairwise (· < ·)
  | [], _, h => h
  | _ :: xs, _, _ => ordered_foldl_flowmapSetField xs (ordered_flowmapSet _ _ _)

theorem ordered_flowWcMap (f : Flow) : (flowWcMap f).Pairwise (· < ·) := by
  refine ordered_foldl_flowmapSetField _ ?_
  rw [wcMapCommonFields, List.foldl_cons]
  exact ordered_foldl_flowmapSetField _ (ordered_flowmapSet _ _ _)

section

variable (H : FlowHash)

/-- For the flow and the wildcards of a match. -/
def netdevFlowMaskInit (flow wc : Flow) : NetdevFlowKey :=
  let map := (flowWcMap flow).filter fun idx => wc idx ≠ 0
  let values := map.map wc
  let hash := (List.range flowmapUnits).foldl (fun hash unit => H.add64 hash (mapWord map unit))
    (values.foldl H.add64 0)
  ⟨H.finish hash (8 * values.length), netdevFlowKeySize values.length, map, values, (ordered_flowWcMap flow).filter _⟩

def netdevFlowKeyInitMasked (flow : Flow) (mask : NetdevFlowKey) : NetdevFlowKey :=
  let values := List.zipWith (· &&& ·) (mask.mf.map.map flow) mask.mf.values
  ⟨H.finish (values.foldl H.add64 0) (8 * values.length), mask.len, mask.mf.map, values, mask.mf.ordered⟩

end

/-! ## Matching -/

structure DpclsRule where
  flow : NetdevFlowKey
  mask : NetdevFlowKey

/-- The loop of `dpcls_rule_matches_key`, over the target's values, with `maskp` and `keyp`. -/
def matchesKeyLoop : List (BitVec 64) → List (BitVec 64) → List (BitVec 64) → Bool
  | [], _, _ => true
  | value :: values, maskp, keyp =>
    if value &&& maskp.headD 0 ≠ keyp.headD 0 then false else matchesKeyLoop values maskp.tail keyp.tail

def dpclsRuleMatchesKey (rule : DpclsRule) (target : Miniflow) : Bool :=
  matchesKeyLoop (miniflowForEachInFlowmap target rule.flow.mf.map) rule.mask.mf.values rule.flow.mf.values

/-- The rule that `dp_netdev_flow_add` puts in the classifier. -/
def dpNetdevFlowAddRule (H : FlowHash) (flow wc : Flow) : DpclsRule :=
  let mask := netdevFlowMaskInit H flow wc
  ⟨netdevFlowKeyInitMasked H flow mask, mask⟩

theorem matchesKeyLoop_map (f w k : Flow) : ∀ map : Flowmap,
    matchesKeyLoop (map.map k) (map.map w) (List.zipWith (· &&& ·) (map.map f) (map.map w)) = true ↔
      ∀ i ∈ map, k i &&& w i = f i &&& w i
  | [] => by simp [matchesKeyLoop]
  | i :: is => by
    have ih := matchesKeyLoop_map f w k is
    show (if k i &&& w i ≠ f i &&& w i then false else matchesKeyLoop (is.map k) (is.map w)
      (List.zipWith (· &&& ·) (is.map f) (is.map w))) = true ↔ _
    simp_all

/-- A rule is matched by the keys that have the flow's bits in the words of the map. -/
theorem dpclsRuleMatchesKey_iff (H : FlowHash) (f w : Flow) (k : Miniflow) :
    dpclsRuleMatchesKey (dpNetdevFlowAddRule H f w) k = true ↔
      ∀ i ∈ flowWcMap f, w i ≠ 0 → miniflowExpand k i &&& w i = f i &&& w i := by
  have hordered : ((flowWcMap f).filter fun i => w i ≠ 0).Pairwise (· < ·) := (ordered_flowWcMap f).filter _
  have hloop := matchesKeyLoop_map f w (miniflowExpand k) ((flowWcMap f).filter fun i => w i ≠ 0)
  rw [← miniflowForEachInFlowmap_eq k hordered] at hloop
  refine hloop.trans ?_
  simp

variable {w f : Flow} {i : Fin flowU64s}

theorem agrees_iff_and_eq {f' : Flow} : w.Agrees f f' ↔ ∀ i, w i ≠ 0 → f' i &&& w i = f i &&& w i := by
  constructor
  · intro h i _
    exact (h.and_eq i).symm
  · intro h
    refine Flow.agrees_iff.2 fun i j hj => ?_
    have hw : w i ≠ 0 := by
      intro hzero
      simp_all
    have hbit := congrArg (BitVec.getLsbD · j) (h i hw)
    grind

theorem Sub.ne_zero {w' : Flow} (h : w.Sub w') (hi : w i ≠ 0) : w' i ≠ 0 := by
  intro hzero
  refine hi (BitVec.eq_of_getLsbD_eq fun j hj => ?_)
  rw [BitVec.ofNat_eq_ofNat, BitVec.getLsbD_zero]
  refine Bool.eq_false_iff.2 fun hbit => ?_
  have hbit' := h i j hbit
  simp_all

/-- With all the words in the map, a rule matches the keys that agree with the flow. -/
theorem dpclsRuleMatchesKey_of_covered (H : FlowHash) (hcovered : WcCovered f)
    (hw : w.Sub (flowWildcardsInitForPacket f)) (k : Miniflow) :
    dpclsRuleMatchesKey (dpNetdevFlowAddRule H f w) k = true ↔ w.Agrees f (miniflowExpand k) := by
  rw [dpclsRuleMatchesKey_iff, agrees_iff_and_eq]
  constructor
  · intro h i hi
    exact h i (hcovered.mem_flowWcMap (Sub.ne_zero hw hi)) hi
  · simp_all

/-! ## Keys of packets -/

/-- The 64-bit word at an offset, as the machine word it is. -/
def loadU64 (bs : List UInt8) (ofs : Nat) : BitVec 64 :=
  (List.range 8).foldl (fun word k => word ||| (bs.getD (ofs + k) 0).toBitVec.setWidth 64 <<< (8 * k)) 0

theorem ordered_run (p : Push) {mf : MfCtx} (h : mf.map.Pairwise (· < ·)) : (p.run mf).map.Pairwise (· < ·) := by
  cases p <;> simp only [Push.run] <;> (repeat' split) <;> first | exact ordered_flowmapSet _ _ _ | exact h

theorem ordered_foldl_run : ∀ (ps : List Push) {mf : MfCtx}, mf.map.Pairwise (· < ·) →
    (ps.foldl Push.run mf).map.Pairwise (· < ·)
  | [], _, h => h
  | p :: ps, _, h => ordered_foldl_run ps (ordered_run p h)

/-- The miniflow that `miniflow_extract` leaves in a destination. -/
def extractKey (pkt : List UInt8) (md : PktMetadata) (dst : List UInt8) : Except Fault Miniflow :=
  match parsePacket pkt md with
  | .error e => .error e
  | .ok s =>
    let mf := s.pushes.foldl Push.run ⟨[], 0, dst⟩
    .ok ⟨mf.map, (List.range (mf.buf.length / 8)).map fun k => loadU64 mf.buf (8 * k), ordered_foldl_run _ .nil⟩

/-- A UDP packet over IPv4 from port 1. -/
def udpPacket : List UInt8 :=
  [2, 0, 0, 0, 0, 1, 2, 0, 0, 0, 0, 2, 8, 0,
    0x45, 0, 0, 28, 0, 0, 0, 0, 64, 17, 0, 0, 10, 0, 0, 1, 10, 0, 0, 2,
    0, 1, 0, 2, 0, 8, 0, 0]

/-- An ICMPv6 packet of a type, with a target address as in neighbor discovery. -/
def icmpv6Packet (type : UInt8) : List UInt8 :=
  [2, 0, 0, 0, 0, 1, 2, 0, 0, 0, 0, 2, 0x86, 0xdd, 0x60, 0, 0, 0, 0, 24, 58, 255] ++ List.replicate 32 1 ++
    [type, 0, 0, 0, 0, 0, 0, 0] ++ List.replicate 16 1

/-- A mask all of whose bits are in a word that is not in the map is lost. -/
theorem dpclsRuleMatchesKey_dropped (H : FlowHash) {x : Field} (hi : i ∉ flowWcMap f) (k : Miniflow) :
    dpclsRuleMatchesKey (dpNetdevFlowAddRule H f (fieldInWord x i)) k = true := by
  rw [dpclsRuleMatchesKey_iff]
  intro j hj hne
  have hji : j = i := by
    by_contra hji
    exact hne (if_neg hji)
  exact absurd (hji ▸ hj) hi

/-- A rule for the flow matches exactly the packets that agree with it, whatever its mask. -/
def RuleExact (H : FlowHash) (f : Flow) : Prop :=
  ∀ w : Flow, w.Sub (flowWildcardsInitForPacket f) → ∀ pkt md dst k, extractKey pkt md dst = .ok k →
    (dpclsRuleMatchesKey (dpNetdevFlowAddRule H f w) k = true ↔ w.Agrees f (miniflowExpand k))

/-- The map of a flow has every word of its wildcards, and so a rule matches exactly the packets that agree with the
flow on its mask, for the flows without a tunnel ID outside a tunnel and other than ICMPv6 packets. -/
theorem dpNetdevFlowAddRule_exact_iff (H : FlowHash) (f : Flow) :
    ((∀ i, flowWildcardsInitForPacket f i ≠ 0 → i ∈ flowWcMap f) ↔ WcCovered f) ∧
    ((∀ w : Flow, w.Sub (flowWildcardsInitForPacket f) → ∀ pkt md dst k, extractKey pkt md dst = .ok k →
      (dpclsRuleMatchesKey (dpNetdevFlowAddRule H f w) k = true ↔ w.Agrees f (miniflowExpand k))) ↔ WcCovered f) := by
  -- a lost word, of which two packets have different bits, or of which one packet has none of the flow's
  have hlost : ∀ {x : Field} {i : Fin flowU64s}, (fieldInWord x i).Sub (flowWildcardsInitForPacket f) ∧ i ∉ flowWcMap f →
      bytesMask i.val x.ofs x.size ≠ 0 →
      (¬ ∀ i, flowWildcardsInitForPacket f i ≠ 0 → i ∈ flowWcMap f) ∧
      (RuleExact H f → ∀ pkt k, extractKey pkt PktMetadata.zero (List.replicate 480 0) = .ok k →
        f i &&& bytesMask i.val x.ofs x.size = miniflowExpand k i &&& bytesMask i.val x.ofs x.size) := by
    rintro x i ⟨hsub, hi⟩ hmask
    refine ⟨fun hall => hi (hall i (Sub.ne_zero hsub ?_)), fun hexact pkt k hk => ?_⟩
    · rwa [fieldInWord, if_pos rfl]
    · have hand := ((hexact _ hsub pkt _ _ k hk).1 (dpclsRuleMatchesKey_dropped H hi k)).and_eq i
      rwa [fieldInWord, if_pos rfl] at hand
  have hbad : ¬ WcCovered f → (¬ ∀ i, flowWildcardsInitForPacket f i ≠ 0 → i ∈ flowWcMap f) ∧ ¬ RuleExact H f := by
    intro huncovered
    by_cases htunnel : flowTnlDstIsSet f = false → tunId f = 0
    · have hicmpv6 : ¬ (dlTypeIsIpAny (load16 f .dlType) = true → byte f Field.nwProto.ofs = ipprotoIcmpv6 →
          byte f Field.nwFrag.ofs &&& flowNwFragLater ≠ 0) := fun h => huncovered ⟨htunnel, h⟩
      simp only [Classical.not_imp, not_not] at hicmpv6
      obtain ⟨hip, hproto, hfrag⟩ := hicmpv6
      rw [dlTypeIsIpAny, Bool.or_eq_true] at hip
      rcases hip with hip | hip
      · obtain ⟨hwords, hkeys⟩ := hlost (ndTarget_dropped hfrag hproto (of_decide_eq_true hip)) (by decide)
        refine ⟨hwords, fun hexact => ?_⟩
        have hzero := hkeys hexact [] _ rfl
        have htarget := hkeys hexact (icmpv6Packet 135) _ rfl
        exact absurd (hzero.symm.trans htarget) (by decide +kernel)
      · obtain ⟨hwords, hkeys⟩ := hlost (tpSrc_dropped hfrag hproto (of_decide_eq_true hip)) (by decide)
        refine ⟨hwords, fun hexact => ?_⟩
        have hzero := hkeys hexact [] _ rfl
        have hport := hkeys hexact udpPacket _ rfl
        exact absurd (hzero.symm.trans hport) (by decide +kernel)
    · rw [Classical.not_imp] at htunnel
      obtain ⟨hwords, hkeys⟩ := hlost (tunId_dropped htunnel.1 htunnel.2) (by decide)
      refine ⟨hwords, fun hexact => htunnel.2 ?_⟩
      have hzero := hkeys hexact [] _ rfl
      have hall : bytesMask tunIdWord.val Field.tunId.ofs Field.tunId.size = BitVec.allOnes 64 := by decide
      rw [hall, BitVec.and_allOnes] at hzero
      refine Eq.trans hzero ?_
      decide +kernel
  refine ⟨⟨fun h => ?_, fun h i hi => h.mem_flowWcMap hi⟩, ⟨fun h => ?_, fun h w hw pkt md dst k _ => ?_⟩⟩
  · exact by_contra fun huncovered => (hbad huncovered).1 h
  · exact by_contra fun huncovered => (hbad huncovered).2 h
  · exact dpclsRuleMatchesKey_of_covered H h hw k

/-- A rule for ICMPv6 packets of type 128 matches one of type 129. -/
theorem icmpv6_type_lost : ∃ k k', extractKey (icmpv6Packet 128) PktMetadata.zero (List.replicate 480 0) = .ok k ∧
    extractKey (icmpv6Packet 129) PktMetadata.zero (List.replicate 480 0) = .ok k' ∧
    (fieldInWord .tpSrc tpSrcWord).Sub (flowWildcardsInitForPacket (miniflowExpand k)) ∧
    dpclsRuleMatchesKey (dpNetdevFlowAddRule ⟨fun h _ => h, fun h _ => h⟩ (miniflowExpand k)
      (fieldInWord .tpSrc tpSrcWord)) k' = true ∧
    ¬ (fieldInWord .tpSrc tpSrcWord).Agrees (miniflowExpand k) (miniflowExpand k') := by
  refine ⟨_, _, rfl, rfl, ?_, ?_, ?_⟩
  · exact (tpSrc_dropped (by decide +kernel) (by decide +kernel) (by decide +kernel)).1
  · exact dpclsRuleMatchesKey_dropped _ (tpSrc_dropped (by decide +kernel) (by decide +kernel) (by decide +kernel)).2 _
  · decide +kernel

end LinkerOvs.Dpcls
