/-
Roles and states of the ports of a spanning tree bridge agree after every call: there is a root port unless the bridge
is the root, the root port leads to a better bridge, and just the ports that are neither root port nor designated are
blocking. It holds in every run without path costs that wrap around, path costs of 0 and priorities that make a port
designated which has heard of its own bridge.
-/
import LinkerOvs.Lib.Loop
import LinkerOvs.Lib.Run
import LinkerOvs.L2.Stp

namespace LinkerOvs.SpanningTree

open Bytes List

/-! ## Loops over the ports -/

/-- The rule of a loop over the enabled ports. `I` says what holds when the ports in the list have had their turn. -/
theorem forEachEnabledPort_visits {I : List PortNo → Stp → Prop} {f : PortNo → Stp → Stp} {s : Stp} (h : I [] s)
    (hf : ∀ done p t, p ∉ done → I done t → t.enabled p → I (done ++ [p]) (f p t))
    (hskip : ∀ done p t, p ∉ done → I done t → ¬ t.enabled p → I (done ++ [p]) t) :
    I allPorts (forEachEnabledPort f s) := by
  rw [forEachEnabledPort, forEachFrom_eq_foldl]
  refine foldl_visits (fun done p t hfresh ht => ?_) allPorts [] s nodup_allPorts h
  grind

theorem forEachEnabledPort_invariant {I : Stp → Prop} {f : PortNo → Stp → Stp}
    (hf : ∀ p s, I s → s.enabled p → I (f p s)) {s : Stp} (h : I s) : I (forEachEnabledPort f s) :=
  forEachEnabledPort_visits (I := fun _ => I) h (fun _ p t _ => hf p t) fun _ _ _ _ ht _ => ht

/-- A loop whose body reads the bridge and changes its own port. -/
theorem forEachEnabledPort_eq {s : Stp} {body : PortNo → Stp → Stp} (g : PortNo → StpPort → StpPort)
    (hbody : ∀ p ports, body p { s with ports := ports } =
      { s with ports := Function.update ports p (g p (ports p)) }) :
    forEachEnabledPort body s =
      { s with ports := fun p => if s.enabled p then g p (s.ports p) else s.ports p } := by
  let visited (done : List PortNo) (p : PortNo) : StpPort :=
    if p ∈ done ∧ s.enabled p then g p (s.ports p) else s.ports p
  have hown {done : List PortNo} {p : PortNo} (hfresh : p ∉ done) : visited done p = s.ports p :=
    if_neg fun h => hfresh h.1
  have henabled {done : List PortNo} {p : PortNo} (hfresh : p ∉ done) :
      Stp.enabled { s with ports := visited done } p ↔ s.enabled p := by
    simp only [Stp.enabled, hown hfresh]
  have hloop := forEachEnabledPort_visits (I := fun done t => t = { s with ports := visited done }) (f := body)
    (s := s) (by simp [visited]) ?_ ?_
  · rw [hloop]
    simp [visited, mem_allPorts]
  · rintro done p _ hfresh rfl hp
    rw [henabled hfresh] at hp
    rw [hbody]
    congr 1
    grind
  · grind

/-! ## What most functions leave alone -/

def StpPort.core (q : StpPort) : StpPort :=
  { q with topologyChangeAck := false, configPending := false, changeDetectionEnabled := true, holdTimer := ⟨false, 0⟩ }

/-- A bridge without its times and timers, without what it knows of topology changes and without what it has sent. -/
def Stp.core (s : Stp) : Stp :=
  { s with
    maxAge := 0, helloTime := 0, forwardDelay := 0, bridgeMaxAge := 0, bridgeHelloTime := 0, bridgeForwardDelay := 0
    rqMaxAge := 0, rqHelloTime := 0, rqForwardDelay := 0, topologyChangeDetected := false, topologyChange := false
    helloTimer := ⟨false, 0⟩, tcnTimer := ⟨false, 0⟩, topologyChangeTimer := ⟨false, 0⟩
    ports := fun p => (s.ports p).core, fdbNeedsFlush := false, sent := [] }

theorem Stp.core_setPort {s : Stp} {p : PortNo} {f : StpPort → StpPort} (h : (f (s.ports p)).core = (s.ports p).core) :
    (s.setPort p f).core = s.core := by
  have hports : (fun q => ((s.setPort p f).ports q).core) = fun q => (s.ports q).core := by
    funext q
    by_cases hq : q = p
    · simp [*]
    · rw [setPort_ports_of_ne hq]
  unfold Stp.core
  rw [hports]
  rfl

theorem state_of_core {s t : Stp} (h : t.core = s.core) (p : PortNo) : (t.ports p).state = (s.ports p).state :=
  congrArg (fun u => (u.ports p).state) h

theorem core_forEachEnabledPort {body : PortNo → Stp → Stp} (hbody : ∀ p s, (body p s).core = s.core) (s : Stp) :
    (forEachEnabledPort body s).core = s.core :=
  forEachEnabledPort_invariant (I := fun t => t.core = s.core) (fun p t ht _ => (hbody p t).trans ht) rfl

variable (p : PortNo) (s : Stp)

theorem core_stpSendBpdu (bpdu : StpBpdu) (s : Stp) : (stpSendBpdu p bpdu s).core = s.core := rfl

@[simp] theorem core_stpTransmitConfig : (stpTransmitConfig p s).core = s.core := by
  rw [stpTransmitConfig]
  split
  · rfl
  split
  · exact Stp.core_setPort rfl
  split
  · exact (core_stpSendBpdu p _ _).trans (Stp.core_setPort rfl)
  · rfl

@[simp] theorem core_stpConfigBpduGeneration : (stpConfigBpduGeneration s).core = s.core := by
  refine core_forEachEnabledPort (fun p t => ?_) s
  split
  · exact core_stpTransmitConfig p t
  · rfl

@[simp] theorem core_stpTransmitTcn : (stpTransmitTcn s).core = s.core := by
  rw [stpTransmitTcn]
  split
  · rfl
  · rfl

@[simp] theorem core_stpTopologyChangeDetection : (stpTopologyChangeDetection s).core = s.core := by
  rw [stpTopologyChangeDetection]
  split
  · rfl
  split
  · rfl
  · exact core_stpTransmitTcn s

@[simp] theorem core_stpAcknowledgeTopologyChange :
    (stpAcknowledgeTopologyChange p s).core = s.core :=
  (core_stpTransmitConfig p _).trans (Stp.core_setPort rfl)

@[simp] theorem core_stpBecomeRootBridge : (stpBecomeRootBridge s).core = s.core :=
  (core_stpConfigBpduGeneration _).trans (core_stpTopologyChangeDetection _)

@[simp] theorem core_loseRoot : (loseRoot s).core = s.core := by
  rw [loseRoot]
  split
  · exact core_stpTransmitTcn _
  · rfl

@[simp] theorem core_followRoot (config : StpConfigBpdu) (s : Stp) : (followRoot config s).core = s.core := by
  have hgeneration : (stpConfigBpduGeneration (stpRecordConfigTimeoutValues config s)).core = s.core :=
    core_stpConfigBpduGeneration _
  rw [followRoot]
  split
  · split
    · exact hgeneration
    · exact hgeneration
  · split
    · exact hgeneration
    · exact hgeneration

@[simp] theorem core_tickBridge (elapsed : Int) (s : Stp) : (tickBridge elapsed s).core = s.core := by
  have hhello (t : Stp) : (stpHelloTimerExpiry t).core = t.core := core_stpConfigBpduGeneration t
  have htcn (t : Stp) : (stpTcnTimerExpiry t).core = t.core := core_stpTransmitTcn t
  have hchange (t : Stp) : (stpTopologyChangeTimerExpiry t).core = t.core := rfl
  have hstep (b : Bool) (f : Stp → Stp) (hf : ∀ t, (f t).core = t.core) (t : Stp) :
      (if b then f t else t).core = t.core := by
    split
    · exact hf t
    · rfl
  rw [tickBridge]
  rw [hstep _ _ hchange]
  refine (hstep _ _ htcn _).trans ?_
  exact hstep _ _ hhello _

@[simp] theorem core_tickHold (elapsed : Int) (p : PortNo) (s : Stp) : (tickHold elapsed p s).core = s.core := by
  rw [tickHold]
  dsimp only
  split
  · rw [stpHoldTimerExpiry]
    split
    · exact (core_stpTransmitConfig p _).trans (Stp.core_setPort rfl)
    · exact Stp.core_setPort rfl
  · exact Stp.core_setPort rfl

@[simp] theorem core_stpUpdateBridgeTimers : (stpUpdateBridgeTimers s).core = s.core := by
  rw [stpUpdateBridgeTimers]
  split
  · rfl
  · rfl

/-! ### What depends on no more than the core -/

section

variable {P Q : Stp → Prop} {s : Stp} {p : PortNo} (hcore : ∀ {s t : Stp}, t.core = s.core → P s → P t)
include hcore

theorem stpBecomeRootBridge_of {c : Prop} [Decidable c] (h : P s) : P (if c then stpBecomeRootBridge s else s) := by
  split
  · exact hcore (core_stpBecomeRootBridge s) h
  · exact h

/-- All that `stp_received_bpdu` does beyond that is to record a configuration and to select roles and states anew. -/
theorem stpReceivedBpdu_of {bpdu : List UInt8} (h : P s)
    (hconfig : configBpduLen ≤ bpdu.length → num (read bpdu 3 1) = stpTypeConfig →
      P (stpPortStateSelection (stpConfigurationUpdate (stpRecordConfigInformation p (.ofBytes bpdu) s)))) :
    P (stpReceivedBpdu p bpdu s) := by
  rw [stpReceivedBpdu]
  split
  · exact h
  split
  · exact h
  split
  · exact h
  split
  next htype =>
    split
    · exact h
    next hlen =>
    rw [stpReceivedConfigBpdu]
    split
    · exact h
    split
    · have hfollow {t : Stp} (ht : P t) :
          P (if t.rootPort = some p then followRoot (.ofBytes bpdu) t else t) := by
        split
        · exact hcore (core_followRoot _ t) ht
        · exact ht
      have hselected := hconfig (not_lt.1 hlen) htype
      dsimp only
      split
      · exact hfollow (hcore (core_loseRoot _) hselected)
      · exact hfollow hselected
    split
    · exact hcore (core_stpTransmitConfig p s) h
    · exact h
  split
  · split
    · exact h
    rw [stpReceivedTcnBpdu]
    split
    · exact h
    split
    · exact hcore (by simp) h
    · exact h
  · exact h

/-- What `stp_port_state_selection` does to a port: it may stop its message age timer, let it listen and block it. -/
theorem selectState_of (h : P s) (hkeep : ∀ {t}, P t → Q t)
    (hstop : P (s.setPort p fun q => { q with messageAgeTimer := stpStopTimer q.messageAgeTimer }))
    (hlisten : ∀ {t}, P t → (t.ports p).state = .blocking → Q ((stpSetPortState p .listening t).setPort p fun q =>
      { q with forwardDelayTimer := stpStartTimer 0 }))
    (hblock : ∀ {t}, P t → (t.ports p).state ≠ .blocking → Q ((stpSetPortState p .blocking t).setPort p fun q =>
      { q with forwardDelayTimer := stpStopTimer q.forwardDelayTimer })) : Q (selectState p s) := by
  have hforwarding {t : Stp} (ht : P t) : Q (stpMakeForwarding p t) := by
    rw [stpMakeForwarding]
    split
    next hstate => exact hlisten ht hstate
    · exact hkeep ht
  have hblocking {t : Stp} (ht : P t) : Q (stpMakeBlocking p t) := by
    rw [stpMakeBlocking]
    split
    next hstate =>
      split
      · have hdetected := core_stpTopologyChangeDetection t
        exact hblock (hcore hdetected ht) fun hb => hstate.2 ((state_of_core hdetected p).symm.trans hb)
      · exact hblock ht hstate.2
    · exact hkeep ht
  rw [selectState]
  split
  · exact hforwarding (hcore (Stp.core_setPort rfl) h)
  split
  · exact hforwarding hstop
  · exact hblocking (hcore (Stp.core_setPort rfl) h)

end

/-! ## The priority vectors -/

/-- The fields of a port that its role depends on. -/
def StpPort.vector (q : StpPort) : Nat × Nat × Nat × Int × Nat × Nat × Bool :=
  (q.portId, q.pathCost, q.designatedRoot, q.designatedCost, q.designatedBridge, q.designatedPort, q.state ≠ .disabled)

/-- Two states of a bridge with the same roles: they may differ in what the ports do. -/
structure SameVector (s t : Stp) : Prop where
  bridgeId : t.bridgeId = s.bridgeId
  designatedRoot : t.designatedRoot = s.designatedRoot
  rootPathCost : t.rootPathCost = s.rootPathCost
  rootPort : t.rootPort = s.rootPort
  ports : ∀ p, (t.ports p).vector = (s.ports p).vector

section

variable {s t : Stp} {p : PortNo}

theorem SameVector.refl (s : Stp) : SameVector s s := ⟨rfl, rfl, rfl, rfl, fun _ => rfl⟩

theorem SameVector.trans {u : Stp} (h : SameVector s t) (h' : SameVector t u) : SameVector s u :=
  ⟨h'.bridgeId.trans h.bridgeId, h'.designatedRoot.trans h.designatedRoot, h'.rootPathCost.trans h.rootPathCost,
    h'.rootPort.trans h.rootPort, fun p => (h'.ports p).trans (h.ports p)⟩

theorem SameVector.of_core (h : t.core = s.core) : SameVector s t where
  bridgeId := congrArg (fun u => u.bridgeId) h
  designatedRoot := congrArg (fun u => u.designatedRoot) h
  rootPathCost := congrArg (fun u => u.rootPathCost) h
  rootPort := congrArg (fun u => u.rootPort) h
  ports p := congrArg (fun u => (u.ports p).vector) h

theorem SameVector.setPort {f : StpPort → StpPort} (h : (f (s.ports p)).vector = (s.ports p).vector) :
    SameVector s (s.setPort p f) := by
  refine ⟨rfl, rfl, rfl, rfl, fun q => ?_⟩
  by_cases hq : q = p
  · simp [*]
  · rw [Stp.setPort_ports_of_ne hq]

theorem SameVector.enabled_iff (h : SameVector s t) : t.enabled p ↔ s.enabled p := by
  have hstate := congrArg (fun v => v.2.2.2.2.2.2) (h.ports p)
  rw [Stp.enabled, Stp.enabled]
  simpa [StpPort.vector, not_iff_not] using hstate

theorem SameVector.pathCost (h : SameVector s t) (p : PortNo) : (t.ports p).pathCost = (s.ports p).pathCost :=
  congrArg (fun v => v.2.1) (h.ports p)

theorem SameVector.designatedCost (h : SameVector s t) (p : PortNo) :
    (t.ports p).designatedCost = (s.ports p).designatedCost :=
  congrArg (fun v => v.2.2.2.1) (h.ports p)

theorem SameVector.isDesignatedPort (h : SameVector s t) (p : PortNo) :
    stpIsDesignatedPort t p = stpIsDesignatedPort s p := by
  have hid : (t.ports p).portId = (s.ports p).portId := congrArg (fun v => v.1) (h.ports p)
  have hbridge : (t.ports p).designatedBridge = (s.ports p).designatedBridge :=
    congrArg (fun v => v.2.2.2.2.1) (h.ports p)
  have hport : (t.ports p).designatedPort = (s.ports p).designatedPort := congrArg (fun v => v.2.2.2.2.2.1) (h.ports p)
  rw [stpIsDesignatedPort, stpIsDesignatedPort, hid, hbridge, hport, h.bridgeId]

end

/-! ## The states follow the roles -/

/-- The port `r` can be the root port. -/
structure IsRootPort (s : Stp) (r : PortNo) : Prop where
  enabled : s.enabled r
  notDesignated : stpIsDesignatedPort s r = false
  better : (s.ports r).designatedRoot < s.bridgeId
  cost : (s.rootPathCost : Int) = (s.ports r).designatedCost + (s.ports r).pathCost

/-- The root port and what the bridge knows of the root bridge agree. -/
structure RootAgrees (s : Stp) : Prop where
  none_iff : s.rootPort = none ↔ s.designatedRoot = s.bridgeId
  no_cost : s.rootPort = none → s.rootPathCost = 0
  root : ∀ r, s.rootPort = some r → IsRootPort s r

structure RolesAgree (s : Stp) : Prop extends RootAgrees s where
  blocking_iff : ∀ p, s.enabled p →
    ((s.ports p).state = .blocking ↔ s.rootPort ≠ some p ∧ stpIsDesignatedPort s p = false)

/-- The costs that a bridge adds up: the path costs are not 0, and the sums fit into an `int`. -/
structure CostsFit (s : Stp) : Prop where
  pos : ∀ p, 0 < (s.ports p).pathCost
  lt : ∀ p, (s.ports p).pathCost < 2 ^ 16
  heard : ∀ p, s.enabled p → stpIsDesignatedPort s p = false →
    0 ≤ (s.ports p).designatedCost ∧ (s.ports p).designatedCost + 65535 < 2 ^ 31

section

variable {s t : Stp} {p : PortNo}

/-- What `CostsFit` asks of one port. -/
def StpPort.Fits (bridgeId : Nat) (q : StpPort) : Prop :=
  (0 < q.pathCost ∧ q.pathCost < 2 ^ 16) ∧ (q.state ≠ .disabled →
    decide (q.designatedBridge = bridgeId ∧ q.designatedPort = q.portId) = false →
      0 ≤ q.designatedCost ∧ q.designatedCost + 65535 < 2 ^ 31)

theorem costsFit_iff : CostsFit s ↔ ∀ p, (s.ports p).Fits s.bridgeId :=
  ⟨fun h p => ⟨⟨h.pos p, h.lt p⟩, h.heard p⟩, fun h => ⟨fun p => (h p).1.1, fun p => (h p).1.2, fun p => (h p).2⟩⟩

/-- The root port agrees with the bridge as long as its vector stays. -/
theorem RootAgrees.of_vector (h : RootAgrees s) (hid : t.bridgeId = s.bridgeId)
    (hroot : t.designatedRoot = s.designatedRoot) (hcost : t.rootPathCost = s.rootPathCost)
    (hport : t.rootPort = s.rootPort) (hv : ∀ r, s.rootPort = some r → (t.ports r).vector = (s.ports r).vector) :
    RootAgrees t where
  none_iff := by rw [hport, hroot, hid, h.none_iff]
  no_cost := by
    rw [hport, hcost]
    exact h.no_cost
  root r hr := by
    rw [hport] at hr
    obtain ⟨henabled, hnot, hbetter, hsum⟩ := h.root r hr
    have hfields := hv r hr
    simp only [StpPort.vector, Prod.mk.injEq, decide_eq_decide] at hfields
    obtain ⟨hportId, hpath, hdroot, hdcost, hdbridge, hdport, hstate⟩ := hfields
    refine ⟨hstate.2 henabled, ?_, ?_, ?_⟩
    · rw [stpIsDesignatedPort, hdbridge, hdport, hportId, hid]
      exact hnot
    · omega
    · omega

theorem RootAgrees.of_sameVector (h : RootAgrees s) (hv : SameVector s t) : RootAgrees t :=
  h.of_vector hv.bridgeId hv.designatedRoot hv.rootPathCost hv.rootPort fun r _ => hv.ports r

theorem CostsFit.of_sameVector (h : CostsFit s) (hv : SameVector s t) : CostsFit t where
  pos p := hv.pathCost p ▸ h.pos p
  lt p := hv.pathCost p ▸ h.lt p
  heard p henabled hnot := by
    rw [hv.designatedCost]
    exact h.heard p (hv.enabled_iff.1 henabled) (hv.isDesignatedPort p ▸ hnot)

theorem RolesAgree.of_sameVector (h : RolesAgree s) (hv : SameVector s t)
    (hstate : ∀ p, (t.ports p).state = .blocking ↔ (s.ports p).state = .blocking) : RolesAgree t := by
  refine ⟨h.toRootAgrees.of_sameVector hv, fun p henabled => ?_⟩
  rw [hstate, hv.rootPort, hv.isDesignatedPort]
  exact h.blocking_iff p (hv.enabled_iff.1 henabled)

/-! ### One port -/

/-- Nothing that roles depend on has changed outside the port `p`. -/
structure OnlyPort (p : PortNo) (s t : Stp) : Prop where
  bridgeId : t.bridgeId = s.bridgeId
  designatedRoot : t.designatedRoot = s.designatedRoot
  rootPathCost : t.rootPathCost = s.rootPathCost
  rootPort : t.rootPort = s.rootPort
  ports : ∀ {q}, q ≠ p → t.ports q = s.ports q

theorem OnlyPort.trans {u : Stp} (h : OnlyPort p s t) (h' : OnlyPort p t u) : OnlyPort p s u :=
  ⟨h'.bridgeId.trans h.bridgeId, h'.designatedRoot.trans h.designatedRoot, h'.rootPathCost.trans h.rootPathCost,
    h'.rootPort.trans h.rootPort, fun hq => (h'.ports hq).trans (h.ports hq)⟩

theorem onlyPort_setPort (p : PortNo) (s : Stp) (f : StpPort → StpPort) : OnlyPort p s (s.setPort p f) :=
  ⟨rfl, rfl, rfl, rfl, fun hq => Stp.setPort_ports_of_ne hq s f⟩

theorem OnlyPort.isDesignatedPort (h : OnlyPort p s t) {q : PortNo} (hq : q ≠ p) :
    stpIsDesignatedPort t q = stpIsDesignatedPort s q := by
  rw [stpIsDesignatedPort, stpIsDesignatedPort, h.ports hq, h.bridgeId]

theorem OnlyPort.enabled_iff (h : OnlyPort p s t) {q : PortNo} (hq : q ≠ p) : t.enabled q ↔ s.enabled q := by
  rw [Stp.enabled, h.ports hq]
  rfl

theorem CostsFit.of_onlyPort (h : CostsFit s) (honly : OnlyPort p s t) (hp : (t.ports p).Fits s.bridgeId) :
    CostsFit t := by
  rw [costsFit_iff, honly.bridgeId]
  intro q
  by_cases hq : q = p
  · exact hq ▸ hp
  · exact honly.ports hq ▸ costsFit_iff.1 h q

theorem RootAgrees.of_onlyPort (h : RootAgrees s) (honly : OnlyPort p s t) (hp : s.rootPort ≠ some p) :
    RootAgrees t := by
  refine h.of_vector honly.bridgeId honly.designatedRoot honly.rootPathCost honly.rootPort fun r hr => ?_
  rw [honly.ports fun heq : r = p => hp (heq ▸ hr)]

@[simp] theorem stpSetPortState_ports_self (p : PortNo) (state : StpState) (s : Stp) :
    (stpSetPortState p state s).ports p = { s.ports p with state := state } := by
  rw [stpSetPortState, Stp.setPort_ports_self]
  split
  · rfl
  · rfl

theorem stpSetPortState_ports_of_ne {q : PortNo} (h : q ≠ p) (state : StpState) (s : Stp) :
    (stpSetPortState p state s).ports q = s.ports q := by
  rw [stpSetPortState, Stp.setPort_ports_of_ne h]
  split
  · rfl
  · rfl

theorem onlyPort_stpSetPortState (p : PortNo) (state : StpState) (s : Stp) : OnlyPort p s (stpSetPortState p state s) := by
  refine ⟨?_, ?_, ?_, ?_, fun hq => stpSetPortState_ports_of_ne hq state s⟩
  all_goals
    rw [stpSetPortState]
    split
    · rfl
    · rfl

theorem sameVector_stpSetPortState {state : StpState} (h : state ≠ .disabled) (henabled : s.enabled p) :
    SameVector s (stpSetPortState p state s) := by
  have hvector : ({ s.ports p with state := state } : StpPort).vector = (s.ports p).vector := by
    have hstate : (s.ports p).state ≠ .disabled := henabled
    simp [StpPort.vector, h, hstate]
  rw [stpSetPortState]
  split
  · have hhistory : SameVector s { s with history := s.history ++ [.entered p state s.forwardDelay] } :=
      ⟨rfl, rfl, rfl, rfl, fun _ => rfl⟩
    exact hhistory.trans (SameVector.setPort hvector)
  · exact SameVector.setPort hvector

/-- The port `p` may be in another state than before, but has the same role. -/
structure Moved (p : PortNo) (s t : Stp) : Prop where
  vector : SameVector s t
  others : ∀ q, q ≠ p → (t.ports q).state = (s.ports q).state

theorem Moved.trans {u : Stp} (h : Moved p s t) (h' : Moved p t u) : Moved p s u :=
  ⟨h.vector.trans h'.vector, fun q hq => (h'.others q hq).trans (h.others q hq)⟩

theorem Moved.setPort {f : StpPort → StpPort} (h : (f (s.ports p)).vector = (s.ports p).vector) :
    Moved p s (s.setPort p f) :=
  ⟨.setPort h, fun q hq => by rw [Stp.setPort_ports_of_ne hq]⟩

theorem Moved.setPortState {state : StpState} (h : state ≠ .disabled) (henabled : s.enabled p) :
    Moved p s (stpSetPortState p state s) :=
  ⟨sameVector_stpSetPortState h henabled, fun q hq => by rw [stpSetPortState_ports_of_ne hq]⟩

theorem stpMakeForwarding_spec (henabled : s.enabled p) :
    Moved p s (stpMakeForwarding p s) ∧ ((stpMakeForwarding p s).ports p).state ≠ .blocking := by
  rw [stpMakeForwarding]
  split
  · exact ⟨(Moved.setPortState (by decide) henabled).trans (.setPort rfl), by simp⟩
  next hstate => exact ⟨⟨.refl s, fun _ _ => rfl⟩, hstate⟩

theorem stpMakeBlocking_spec (henabled : s.enabled p) :
    Moved p s (stpMakeBlocking p s) ∧ ((stpMakeBlocking p s).ports p).state = .blocking := by
  rw [stpMakeBlocking]
  split
  · -- a topology change that is detected on the way is no matter of roles and states
    have hblock (t : Stp) (hcore : t.core = s.core) :
        let u := (stpSetPortState p .blocking t).setPort p fun q =>
          { q with forwardDelayTimer := stpStopTimer q.forwardDelayTimer }
        Moved p s u ∧ (u.ports p).state = .blocking := by
      have hmoved : Moved p s t := ⟨.of_core hcore, fun q _ => state_of_core hcore q⟩
      have henabled' := hmoved.vector.enabled_iff.2 henabled
      exact ⟨(hmoved.trans (.setPortState (by decide) henabled')).trans (.setPort rfl), by simp⟩
    split
    · exact hblock _ (core_stpTopologyChangeDetection s)
    · exact hblock _ rfl
  next hstate =>
    have hdisabled : (s.ports p).state ≠ .disabled := henabled
    refine ⟨⟨.refl s, fun _ _ => rfl⟩, ?_⟩
    simp_all

theorem selectState_spec (henabled : s.enabled p) : Moved p s (selectState p s) ∧
      (((selectState p s).ports p).state = .blocking ↔ s.rootPort ≠ some p ∧ stpIsDesignatedPort s p = false) := by
  -- the flags and the timer that the loop clears first are not part of the vector
  have hclear {f : StpPort → StpPort} (hf : ∀ q, (f q).vector = q.vector) :
      Moved p s (s.setPort p f) ∧ (s.setPort p f).enabled p :=
    ⟨.setPort (hf _), (SameVector.setPort (hf _)).enabled_iff.2 henabled⟩
  have hflags := hclear (f := fun q => { q with configPending := false, topologyChangeAck := false }) fun _ => rfl
  rw [selectState]
  split
  next hroot =>
    obtain ⟨hmoved', hstate⟩ := stpMakeForwarding_spec hflags.2
    exact ⟨hflags.1.trans hmoved', fun h => absurd h hstate, fun h => absurd hroot h.1⟩
  next hroot =>
  split
  next hdesignated =>
    obtain ⟨hmoved, hp⟩ := hclear (f := fun q => { q with messageAgeTimer := stpStopTimer q.messageAgeTimer })
      fun _ => rfl
    obtain ⟨hmoved', hstate⟩ := stpMakeForwarding_spec hp
    refine ⟨hmoved.trans hmoved', fun h => absurd h hstate, fun h => ?_⟩
    simp_all
  next hdesignated =>
    obtain ⟨hmoved', hstate⟩ := stpMakeBlocking_spec hflags.2
    exact ⟨hflags.1.trans hmoved', fun _ => ⟨hroot, Bool.eq_false_iff.2 hdesignated⟩, fun _ => hstate⟩

/-! ### All ports -/

/-- When the root port is right, `stp_port_state_selection` makes the states agree with the roles. -/
theorem stpPortStateSelection_spec (hroot : RootAgrees s) :
    SameVector s (stpPortStateSelection s) ∧ RolesAgree (stpPortStateSelection s) := by
  let Agrees (u : Stp) (p : PortNo) : Prop :=
    u.enabled p → ((u.ports p).state = .blocking ↔ u.rootPort ≠ some p ∧ stpIsDesignatedPort u p = false)
  have hloop := forEachEnabledPort_visits (I := fun done u => SameVector s u ∧ ∀ p ∈ done, Agrees u p)
    (f := selectState) ⟨SameVector.refl s, by simp⟩ ?_ ?_
  · obtain ⟨hv, hagrees⟩ := hloop
    exact ⟨hv, hroot.of_sameVector hv, fun p => hagrees p (mem_allPorts p)⟩
  · rintro done p u hfresh ⟨hv, hdone⟩ henabled
    obtain ⟨⟨hv', hne⟩, hstate⟩ := selectState_spec henabled
    refine ⟨hv.trans hv', fun q hq => ?_⟩
    rcases mem_append.1 hq with hbefore | hq
    · -- a port that was visited before is not touched again
      have hqp : q ≠ p := fun h => hfresh (h ▸ hbefore)
      intro hq'
      rw [hne q hqp, hv'.rootPort, hv'.isDesignatedPort]
      exact hdone q hbefore (hv'.enabled_iff.1 hq')
    · obtain rfl := mem_singleton.1 hq
      intro _
      rw [hstate, hv'.rootPort, hv'.isDesignatedPort]
  · grind

end

/-! ## Selecting the roles -/

theorem asInt_of_fits {x : Int} (h : 0 ≤ x) (h' : x < 2 ^ 31) : asInt x = x :=
  Int.bmod_eq_of_le (by omega) (by omega)

theorem asUnsigned_of_fits {x : Int} (h : 0 ≤ x) (h' : x < 2 ^ 32) : (asUnsigned x : Int) = x := by
  rw [asUnsigned, Int.emod_eq_of_lt h h', Int.toNat_of_nonneg h]

section

variable {s : Stp} {p : PortNo}

/-- The port that the loop of `stp_root_selection` comes out with. -/
theorem selectRoot_spec (s : Stp) : ∀ r, allPorts.foldl (selectRoot s) none = some r →
    s.enabled r ∧ stpIsDesignatedPort s r = false ∧ (s.ports r).designatedRoot < s.bridgeId := by
  refine List.foldlRecOn (motive := fun root => ∀ r, root = some r →
    s.enabled r ∧ stpIsDesignatedPort s r = false ∧ (s.ports r).designatedRoot < s.bridgeId) allPorts (selectRoot s)
    (fun r hr => absurd hr (by simp)) ?_
  intro root hroot p _ r hr
  unfold selectRoot at hr
  split at hr
  · exact hroot r hr
  next henabled =>
  split at hr
  · exact hroot r hr
  next hcandidate =>
  rw [not_or, Bool.not_eq_true, not_le] at hcandidate
  have hp : s.enabled p ∧ stpIsDesignatedPort s p = false ∧ (s.ports p).designatedRoot < s.bridgeId :=
    ⟨not_not.1 henabled, hcandidate.1, hcandidate.2⟩
  split at hr
  · simp_all
  · split at hr
    · simp_all
    · exact hroot r hr

/-- The root port has been told of the root that the bridge follows. -/
def FollowsRoot (s : Stp) : Prop := ∀ r, s.rootPort = some r → (s.ports r).designatedRoot = s.designatedRoot

theorem stpRootSelection_spec (h : CostsFit s) :
    RootAgrees (stpRootSelection s) ∧ CostsFit (stpRootSelection s) ∧ FollowsRoot (stpRootSelection s) := by
  rw [stpRootSelection]
  split
  · refine ⟨⟨by simp, fun _ => rfl, fun r hr => absurd hr (by simp)⟩, ⟨h.pos, h.lt, h.heard⟩, ?_⟩
    exact fun r hr => absurd hr (by simp)
  next root hroot =>
    obtain ⟨henabled, hnot, hbetter⟩ := selectRoot_spec s root hroot
    obtain ⟨hnonneg, hsum⟩ := h.heard root henabled hnot
    have hlt := h.lt root
    refine ⟨⟨by simpa using hbetter.ne, fun hnone => absurd hnone (by simp), ?_⟩, ⟨h.pos, h.lt, h.heard⟩, ?_⟩
    · intro r hr
      obtain rfl := Option.some.inj hr
      refine ⟨henabled, hnot, hbetter, ?_⟩
      rw [asInt_of_fits (by omega) (by omega), asUnsigned_of_fits (by omega) (by omega)]
    · intro r hr
      simp_all

/-! ### Designated ports -/

theorem onlyPort_stpBecomeDesignatedPort (p : PortNo) (s : Stp) : OnlyPort p s (stpBecomeDesignatedPort p s) :=
  onlyPort_setPort p s _

theorem CostsFit.becomeDesignatedPort (h : CostsFit s) (p : PortNo) : CostsFit (stpBecomeDesignatedPort p s) := by
  refine h.of_onlyPort (onlyPort_stpBecomeDesignatedPort p s) ?_
  rw [stpBecomeDesignatedPort, Stp.setPort_ports_self]
  exact ⟨⟨h.pos p, h.lt p⟩, by simp⟩

/-- The root port never takes over the designation from the bridge it leads to: its cost is higher. -/
theorem IsRootPort.not_takesDesignation {r : PortNo} (h : IsRootPort s r) (hfit : CostsFit s)
    (hfollows : (s.ports r).designatedRoot = s.designatedRoot) : ¬ TakesDesignation s r := by
  have hcost := h.cost
  have hpos := hfit.pos r
  obtain ⟨hnonneg, hsum⟩ := hfit.heard r h.enabled h.notDesignated
  have hunsigned := asUnsigned_of_fits hnonneg (by omega)
  rintro (hdesignated | hroot | hlt | ⟨heq, -⟩)
  · rw [h.notDesignated] at hdesignated
    exact absurd hdesignated (by decide)
  · exact hroot hfollows
  · omega
  · omega

theorem stpDesignatedPortSelection_spec (hroot : RootAgrees s) (hfit : CostsFit s) (hfollows : FollowsRoot s) :
    RootAgrees (stpDesignatedPortSelection s) ∧ CostsFit (stpDesignatedPortSelection s) := by
  have hloop := forEachEnabledPort_invariant (I := fun t => RootAgrees t ∧ CostsFit t ∧ FollowsRoot t)
    (f := fun p t => if TakesDesignation t p then stpBecomeDesignatedPort p t else t) ?_ ⟨hroot, hfit, hfollows⟩
  · exact ⟨hloop.1, hloop.2.1⟩
  rintro p t ⟨hroot, hfit, hfollows⟩ -
  by_cases htakes : TakesDesignation t p
  · rw [if_pos htakes]
    have hp : t.rootPort ≠ some p := fun hp => (hroot.root p hp).not_takesDesignation hfit (hfollows p hp) htakes
    have honly := onlyPort_stpBecomeDesignatedPort p t
    refine ⟨hroot.of_onlyPort honly hp, hfit.becomeDesignatedPort p, fun r hr => ?_⟩
    have hrp : r ≠ p := by
      rintro rfl
      exact hp hr
    rw [honly.ports hrp]
    exact hfollows r hr
  · simp [*]

end

/-! ## Calls -/

/-- What holds between calls. -/
structure Settled (s : Stp) : Prop where
  roles : RolesAgree s
  costs : CostsFit s

section

variable {s t : Stp} {p : PortNo}

theorem Settled.of_sameVector (h : Settled s) (hv : SameVector s t)
    (hstate : ∀ p, (t.ports p).state = .blocking ↔ (s.ports p).state = .blocking) : Settled t :=
  ⟨h.roles.of_sameVector hv hstate, h.costs.of_sameVector hv⟩

theorem Settled.of_core (h : Settled s) (hc : t.core = s.core) : Settled t := by
  refine h.of_sameVector (.of_core hc) fun p => ?_
  rw [state_of_core hc]

theorem settled_stpPortStateSelection (hroot : RootAgrees s) (hfit : CostsFit s) : Settled (stpPortStateSelection s) := by
  obtain ⟨hv, hroles⟩ := stpPortStateSelection_spec hroot
  exact ⟨hroles, hfit.of_sameVector hv⟩

/-- Most calls end with a new selection of roles and states, before which only the costs have to be in order. -/
theorem settled_reselect (h : CostsFit s) : Settled (stpPortStateSelection (stpConfigurationUpdate s)) := by
  obtain ⟨hroot, hfit, hfollows⟩ := stpRootSelection_spec h
  obtain ⟨hroot', hfit'⟩ := stpDesignatedPortSelection_spec hroot hfit hfollows
  exact settled_stpPortStateSelection hroot' hfit'

/-! ### Time -/

/-- A timer of a port is no matter of roles. -/
theorem Settled.setPort (h : Settled s) {f : StpPort → StpPort} (hvector : (f (s.ports p)).vector = (s.ports p).vector)
    (hstate : (f (s.ports p)).state = .blocking ↔ (s.ports p).state = .blocking) : Settled (s.setPort p f) := by
  refine h.of_sameVector (.setPort hvector) fun q => ?_
  by_cases hq : q = p
  · simp [*]
  · rw [Stp.setPort_ports_of_ne hq]

theorem Settled.stpSetPortState (h : Settled s) {state : StpState} (henabled : s.enabled p)
    (hold : (s.ports p).state ≠ .blocking) (hnew : state ≠ .disabled) (hnew' : state ≠ .blocking) :
    Settled (stpSetPortState p state s) := by
  refine h.of_sameVector (sameVector_stpSetPortState hnew henabled) fun q => ?_
  by_cases hq : q = p
  · simp [*]
  · rw [stpSetPortState_ports_of_ne hq]

theorem Settled.stpMessageAgeTimerExpiry (h : Settled s) (p : PortNo) : Settled (stpMessageAgeTimerExpiry p s) :=
  stpBecomeRootBridge_of (fun hc ht => ht.of_core hc) (settled_reselect (h.costs.becomeDesignatedPort p))

theorem Settled.stpForwardDelayTimerExpiry (h : Settled s) (p : PortNo) :
    Settled (stpForwardDelayTimerExpiry p s) := by
  rw [SpanningTree.stpForwardDelayTimerExpiry]
  split
  next hstate =>
    have henabled : s.enabled p := by simp [Stp.enabled, hstate]
    exact (h.stpSetPortState henabled (by simp [hstate]) (by decide) (by decide)).setPort rfl Iff.rfl
  split
  next hstate =>
    have henabled : s.enabled p := by simp [Stp.enabled, hstate]
    have hset : Settled (SpanningTree.stpSetPortState p .forwarding s) :=
      h.stpSetPortState henabled (by simp [hstate]) (by decide) (by decide)
    dsimp only
    split
    · exact hset.of_core (core_stpTopologyChangeDetection _)
    · exact hset
  · exact h

theorem Settled.stpTick (h : Settled s) (ms : Int) : Settled (stpTick ms s) := by
  rw [SpanningTree.stpTick]
  have hclock {remainder : Int} {history : List Event} :
      Settled { s with elapsedRemainder := remainder, history := history } :=
    h.of_sameVector ⟨rfl, rfl, rfl, rfl, fun _ => rfl⟩ fun _ => Iff.rfl
  split
  · exact hclock
  refine forEachEnabledPort_invariant (fun p t ht _ => ?_) (forEachEnabledPort_invariant (fun p t ht _ => ?_)
    (hclock.of_core (core_tickBridge _ _)))
  · refine Settled.of_core ?_ (core_tickHold _ p _)
    rw [tickForwardDelay]
    dsimp only
    split
    · exact (ht.setPort rfl Iff.rfl).stpForwardDelayTimerExpiry p
    · exact ht.setPort rfl Iff.rfl
  · rw [tickMessageAge]
    dsimp only
    split
    · exact (ht.setPort rfl Iff.rfl).stpMessageAgeTimerExpiry p
    · exact ht.setPort rfl Iff.rfl

/-! ### BPDUs -/

theorem CostsFit.recordConfigInformation (h : CostsFit s) (p : PortNo) {config : StpConfigBpdu}
    (hcost : config.rootPathCost + 65535 < 2 ^ 31) : CostsFit (stpRecordConfigInformation p config s) := by
  refine h.of_onlyPort (onlyPort_setPort p s _) ?_
  rw [stpRecordConfigInformation, Stp.setPort_ports_self]
  refine ⟨⟨h.pos p, h.lt p⟩, fun _ _ => ?_⟩
  dsimp only
  rw [asInt_of_fits (by omega) (by omega)]
  omega

/-! ### Management -/

/-- What `set_bridge_id` does to a designated port. -/
def StpPort.rename (old new : Nat) (q : StpPort) : StpPort :=
  if q.designatedBridge = old ∧ q.designatedPort = q.portId then { q with designatedBridge := new } else q

theorem renameLoop_eq (newBridgeId : Nat) (s : Stp) : forEachEnabledPort (fun p s =>
      if stpIsDesignatedPort s p then s.setPort p fun q => { q with designatedBridge := newBridgeId } else s) s =
      { s with ports := fun p => if s.enabled p then (s.ports p).rename s.bridgeId newBridgeId else s.ports p } := by
  refine forEachEnabledPort_eq (fun _ q => q.rename s.bridgeId newBridgeId) fun p ports => ?_
  rw [StpPort.rename, stpIsDesignatedPort]
  by_cases hdesignated : (ports p).designatedBridge = s.bridgeId ∧ (ports p).designatedPort = (ports p).portId
  · rw [if_pos (decide_eq_true hdesignated), if_pos hdesignated]
    rfl
  · simp [*]

/-- A port that was designated under the old identifier of the bridge is designated under the new one. -/
theorem StpPort.rename_spec (old new : Nat) (q : StpPort) :
    (q.rename old new).state = q.state ∧ (q.rename old new).pathCost = q.pathCost ∧
      (q.rename old new).designatedCost = q.designatedCost ∧
      (q.designatedBridge = old ∧ q.designatedPort = q.portId →
        (q.rename old new).designatedBridge = new ∧ (q.rename old new).designatedPort = (q.rename old new).portId) := by
  rw [rename]
  grind

theorem CostsFit.rename (h : CostsFit s) (newBridgeId : Nat) :
    CostsFit { s with
      bridgeId := newBridgeId
      ports := fun p => if s.enabled p then (s.ports p).rename s.bridgeId newBridgeId else s.ports p } := by
  refine costsFit_iff.2 fun q => ?_
  obtain ⟨hcosts, hheard⟩ := costsFit_iff.1 h q
  obtain ⟨hstate, hpath, hcost, hdesignated⟩ := (s.ports q).rename_spec s.bridgeId newBridgeId
  dsimp only
  split
  · refine ⟨hpath ▸ hcosts, fun henabled hnot => ?_⟩
    rw [hcost]
    exact hheard (hstate ▸ henabled) (decide_eq_false fun h => of_decide_eq_false hnot (hdesignated h))
  next hdisabled => exact ⟨hcosts, fun henabled => absurd henabled hdisabled⟩

theorem Settled.setBridgeId (h : Settled s) (newBridgeId : Nat) : Settled (setBridgeId newBridgeId s) := by
  rw [SpanningTree.setBridgeId]
  split
  · exact h
  refine stpBecomeRootBridge_of (fun hc ht => ht.of_core hc) (settled_reselect ?_)
  rw [renameLoop_eq]
  exact h.costs.rename newBridgeId

theorem Settled.stpPortDisable (h : Settled s) (p : PortNo) : Settled (stpPortDisable p s) := by
  rw [SpanningTree.stpPortDisable]
  split
  · exact h
  have honly := (onlyPort_stpBecomeDesignatedPort p s).trans (onlyPort_stpSetPortState p .disabled _)
  refine stpBecomeRootBridge_of (fun hc ht => ht.of_core hc)
    (settled_reselect (h.costs.of_onlyPort (honly.trans (onlyPort_setPort p _ _)) ?_))
  rw [Stp.setPort_ports_self, stpSetPortState_ports_self, stpBecomeDesignatedPort, Stp.setPort_ports_self]
  exact ⟨⟨h.costs.pos p, h.costs.lt p⟩, fun henabled => absurd rfl henabled⟩

theorem onlyPort_stpInitializePort (p : PortNo) (state : StpState) (s : Stp) :
    OnlyPort p s (stpInitializePort p state s) :=
  ((onlyPort_stpBecomeDesignatedPort p s).trans (onlyPort_stpSetPortState p state _)).trans (onlyPort_setPort p _ _)

theorem Settled.stpPortEnable (h : Settled s) (p : PortNo) : Settled (stpPortEnable p s) := by
  rw [SpanningTree.stpPortEnable]
  split
  next hdisabled =>
    have honly := onlyPort_stpInitializePort p .blocking s
    have hroot : s.rootPort ≠ some p := fun hr => (h.roles.root p hr).enabled hdisabled
    refine settled_stpPortStateSelection (h.roles.toRootAgrees.of_onlyPort honly hroot) (h.costs.of_onlyPort honly ?_)
    rw [stpInitializePort, Stp.setPort_ports_self, stpSetPortState_ports_self, stpBecomeDesignatedPort,
      Stp.setPort_ports_self]
    exact ⟨⟨h.costs.pos p, h.costs.lt p⟩, by simp⟩
  · exact h

/-- With the identifier `id` the enabled port `p` is designated though nothing selects the roles anew: it has heard of
its own bridge as the designated one. -/
def TakesOver (s : Stp) (p : PortNo) (id : Nat) : Prop :=
  s.enabled p ∧ stpIsDesignatedPort s p = false ∧ (s.ports p).designatedBridge = s.bridgeId ∧
    (id = (s.ports p).designatedPort ∨ s.rootPort = some p ∧ id < (s.ports p).designatedPort)

/-- New identifiers under which an enabled port is designated just when it was before. -/
theorem Settled.setPort_ids (h : Settled s) {f : StpPort → StpPort}
    (hf : ∀ q, f q = { q with portId := (f q).portId, designatedPort := (f q).designatedPort })
    (hp : s.enabled p → stpIsDesignatedPort (s.setPort p f) p = stpIsDesignatedPort s p) : Settled (s.setPort p f) := by
  have honly := onlyPort_setPort p s f
  have henabled (q : PortNo) : (s.setPort p f).enabled q ↔ s.enabled q := by
    by_cases hq : q = p
    · rw [hq, Stp.enabled, Stp.setPort_ports_self, hf]
      rfl
    · exact honly.enabled_iff hq
  have hdesignated (q : PortNo) (hq : s.enabled q) : stpIsDesignatedPort (s.setPort p f) q = stpIsDesignatedPort s q := by
    by_cases hqp : q = p
    · subst hqp
      exact hp hq
    · exact honly.isDesignatedPort hqp
  have hsame (q : PortNo) : ((s.setPort p f).ports q).pathCost = (s.ports q).pathCost ∧
      ((s.setPort p f).ports q).state = (s.ports q).state ∧
      ((s.setPort p f).ports q).designatedRoot = (s.ports q).designatedRoot ∧
      ((s.setPort p f).ports q).designatedCost = (s.ports q).designatedCost := by
    by_cases hq : q = p
    · rw [hq, Stp.setPort_ports_self, hf]
      exact ⟨rfl, rfl, rfl, rfl⟩
    · rw [honly.ports hq]
      exact ⟨rfl, rfl, rfl, rfl⟩
  refine ⟨⟨⟨h.roles.none_iff, h.roles.no_cost, fun r hr => ?_⟩, fun q hq => ?_⟩, h.costs.of_onlyPort honly ?_⟩
  · have hroot := h.roles.root r hr
    refine ⟨(henabled r).2 hroot.enabled, (hdesignated r hroot.enabled).trans hroot.notDesignated, ?_, ?_⟩
    · rw [(hsame r).2.2.1]
      exact hroot.better
    · rw [(hsame r).1, (hsame r).2.2.2]
      exact hroot.cost
  · rw [(hsame q).2.1, hdesignated q ((henabled q).1 hq)]
    exact h.roles.blocking_iff q ((henabled q).1 hq)
  · obtain ⟨hcosts, hheard⟩ := costsFit_iff.1 h.costs p
    refine ⟨(hsame p).1 ▸ hcosts, fun hp' hnot => ?_⟩
    rw [(hsame p).2.2.2]
    exact hheard ((henabled p).1 hp') ((hp ((henabled p).1 hp')).symm.trans hnot)

theorem Settled.stpPortSetPriority (h : Settled s) {newPriority : UInt8}
    (hkeeps : ¬ TakesOver s p (newPortId (s.ports p) newPriority)) : Settled (stpPortSetPriority p newPriority s) := by
  rw [SpanningTree.stpPortSetPriority]
  dsimp only
  split
  · exact h
  by_cases hdesignated : stpIsDesignatedPort s p
  · -- a designated port takes its identifier along
    have hids : Settled (s.setPort p fun q => { q with
        portId := newPortId (s.ports p) newPriority, designatedPort := newPortId (s.ports p) newPriority }) := by
      refine h.setPort_ids (fun _ => rfl) fun _ => ?_
      rw [hdesignated]
      have hbridge : (s.ports p).designatedBridge = s.bridgeId := (of_decide_eq_true hdesignated).1
      simp [stpIsDesignatedPort, Stp.setPort, hbridge]
    rw [if_pos hdesignated, Stp.setPort_setPort, Stp.setPort_ports_self, if_neg (fun hlt => lt_irrefl _ hlt.2)]
    exact hids
  rw [if_neg hdesignated, Stp.setPort_ports_self]
  have hnot := Bool.eq_false_iff.2 hdesignated
  split
  next hlower =>
    have honly := (onlyPort_setPort p s fun q => { q with portId := newPortId (s.ports p) newPriority }).trans
      (onlyPort_stpBecomeDesignatedPort p _)
    have hroot : s.rootPort ≠ some p := fun hr =>
      hkeeps ⟨(h.roles.root p hr).enabled, hnot, hlower.1.symm, .inr ⟨hr, hlower.2⟩⟩
    refine settled_stpPortStateSelection (h.roles.toRootAgrees.of_onlyPort honly hroot) (h.costs.of_onlyPort honly ?_)
    rw [stpBecomeDesignatedPort, Stp.setPort_ports_self, Stp.setPort_ports_self]
    exact ⟨⟨h.costs.pos p, h.costs.lt p⟩, by simp [Stp.setPort]⟩
  next hlower =>
    refine h.setPort_ids (fun _ => rfl) fun henabled => ?_
    rw [hnot, stpIsDesignatedPort, Stp.setPort_ports_self, decide_eq_false_iff_not]
    rintro ⟨hbridge, hport⟩
    exact hkeeps ⟨henabled, hnot, hbridge, .inl hport.symm⟩

theorem Settled.stpPortSetPathCost (h : Settled s) {pathCost : UInt16} (hpos : pathCost ≠ 0) :
    Settled (stpPortSetPathCost p pathCost s) := by
  rw [SpanningTree.stpPortSetPathCost]
  split
  · exact h
  refine settled_reselect (h.costs.of_onlyPort (onlyPort_setPort p s _) ?_)
  rw [Stp.setPort_ports_self]
  exact ⟨⟨Nat.pos_of_ne_zero fun hzero => hpos (UInt16.toNat_inj.1 hzero), pathCost.toNat_lt⟩,
    (costsFit_iff.1 h.costs p).2⟩

end

/-! ## Runs -/

/-- The calls after which roles and states agree: a configuration BPDU's cost plus any path cost fits into an `int`, a
path cost is not 0, and a new priority does not make a port take over. -/
def KeepsRoles (s : Stp) : Call → Prop
  | .receivedBpdu _ bpdu => configBpduLen ≤ bpdu.length → num (read bpdu 3 1) = stpTypeConfig →
      (StpConfigBpdu.ofBytes bpdu).rootPathCost + 65535 < 2 ^ 31
  | .portSetPathCost _ pathCost => pathCost ≠ 0
  | .portSetPriority p newPriority => ¬ TakesOver s p (newPortId (s.ports p) newPriority)
  | _ => True

theorem settled_stpCreate (bridgeId : Nat) : Settled (stpCreate bridgeId) := by
  refine Settled.of_core ?_ (core_stpUpdateBridgeTimers _)
  refine ⟨⟨⟨by simp, fun _ => rfl, fun r hr => absurd hr (by simp)⟩, fun p henabled => absurd rfl henabled⟩,
    ⟨fun p => by simp, fun p => by simp, fun p henabled => absurd rfl henabled⟩⟩

theorem Settled.step {s : Stp} {call : Call} (h : Settled s) (hkeeps : KeepsRoles s call) : Settled (call.run s) := by
  cases call with
  | tick ms => exact h.stpTick ms
  | setBridgeId bridgeId => exact h.setBridgeId _
  | setBridgePriority newPriority => exact h.setBridgeId _
  | setHelloTime ms => exact h.of_core (core_stpUpdateBridgeTimers _)
  | setMaxAge ms => exact h.of_core (core_stpUpdateBridgeTimers _)
  | setForwardDelay ms => exact h.of_core (core_stpUpdateBridgeTimers _)
  | checkAndResetFdbFlush => exact h.of_core rfl
  | receivedBpdu p bpdu =>
    exact stpReceivedBpdu_of (fun hc ht => ht.of_core hc) h fun hlen htype =>
      settled_reselect (h.costs.recordConfigInformation p (hkeeps hlen htype))
  | portDisable p => exact h.stpPortDisable p
  | portEnable p => exact h.stpPortEnable p
  | portSetPriority p newPriority => exact h.stpPortSetPriority hkeeps
  | portSetPathCost p pathCost => exact h.stpPortSetPathCost hkeeps
  | portSetSpeed p speed =>
    refine h.stpPortSetPathCost ?_
    rw [stpConvertSpeedToCost]
    split_ifs <;> decide
  | portSetChangeDetection enabled p => exact h.of_core (Stp.core_setPort rfl)
  | unixctlTcn => exact h.of_core (core_stpTopologyChangeDetection s)

/-- After every call of a run without costs that wrap around, path costs of 0 and ports that take over, roles and states
agree. -/
theorem rolesAgree_of_run {bridgeId : Nat} {calls : List Call} {s : Stp}
    (h : Run.Meets Step KeepsRoles (stpCreate bridgeId) calls s) : RolesAgree s := by
  have hinv : ∀ s call s', Settled s → KeepsRoles s call → Step s call s' → Settled s' := by
    rintro s call _ hs hkeeps rfl
    exact hs.step hkeeps
  exact (h.invariant hinv (settled_stpCreate bridgeId)).roles

/-- The bytes of a configuration BPDU that tells of the root bridge 1. -/
def rootBpdu (rootPathCost bridgeId portId forwardDelay : Nat) : List UInt8 :=
  [0, 0, 0, 0, 0] ++ ofNum 8 1 ++ ofNum 4 rootPathCost ++ ofNum 8 bridgeId ++ ofNum 2 portId ++ [0, 0, 20, 0, 2, 0] ++
    ofNum 2 forwardDelay

/-- A port hears of a better root, and twenty seconds later of none. -/
theorem rolesAgree_after_root_lost : RolesAgree ((Call.tick 20000).run
    ((Call.receivedBpdu 0 (rootBpdu 5 2 0x8001 3840)).run ((Call.portEnable 0).run (stpCreate 7)))) := by
  have hcost : KeepsRoles ((Call.portEnable 0).run (stpCreate 7)) (.receivedBpdu 0 (rootBpdu 5 2 0x8001 3840)) :=
    fun _ _ => by decide +kernel
  have hrun : Run.Meets Step KeepsRoles (stpCreate 7)
      [.portEnable 0, .receivedBpdu 0 (rootBpdu 5 2 0x8001 3840), .tick 20000] _ :=
    .cons trivial rfl (.cons hcost rfl (.cons trivial rfl (.nil _)))
  exact rolesAgree_of_run hrun

def runCalls (s : Stp) (calls : List Call) : Stp := calls.foldl (fun s call => call.run s) s

theorem not_rolesAgree_of_designated {s : Stp} {p : PortNo} (hroot : s.rootPort = some p)
    (hdesignated : stpIsDesignatedPort s p = true) : ¬ RolesAgree s := by
  intro h
  rw [(h.root p hroot).notDesignated] at hdesignated
  exact absurd hdesignated (by decide)

/-- The root port becomes designated when a BPDU's cost is negative as an `int`, when its path cost is 0, and when a new
priority makes its identifier the one it has heard of. -/
theorem rolesDisagree_after_hostile_calls :
    ¬ RolesAgree (runCalls (stpCreate 7) [.portEnable 0, .receivedBpdu 0 (rootBpdu 0xfffffffb 2 0x8001 3840)]) ∧
    ¬ RolesAgree (runCalls (stpCreate 7)
      [.portEnable 0, .portSetPathCost 0 0, .receivedBpdu 0 (rootBpdu 5 0x8000000000000008 0x8001 3840)]) ∧
    ¬ RolesAgree (runCalls (stpCreate 7)
      [.portEnable 0, .receivedBpdu 0 (rootBpdu 5 0x8000000000000007 0x9001 3840), .portSetPriority 0 0x90]) := by
  refine ⟨not_rolesAgree_of_designated (p := 0) ?_ ?_, not_rolesAgree_of_designated (p := 0) ?_ ?_,
    not_rolesAgree_of_designated (p := 0) ?_ ?_⟩
  all_goals decide +kernel

end LinkerOvs.SpanningTree
