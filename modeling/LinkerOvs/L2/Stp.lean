/-
The spanning tree protocol (`lib/stp.c`): the priority vector each port has heard or sends, the selection of the root
port and of the designated ports, the states of the ports, the timers, and the calls that change them. The C integers
of the costs and of the conversions between milliseconds and timer ticks are kept as they are: signed and unsigned
numbers of 32 bits that wrap around.
-/
import Mathlib
import LinkerOvs.Lib.Bytes

namespace LinkerOvs.SpanningTree

open Bytes

/-! ## Integers and timers -/

/-- The value of `x` as an `int`. -/
def asInt (x : Int) : Int := x.bmod (2 ^ 32)

/-- The value of `x` as an `unsigned int`. -/
def asUnsigned (x : Int) : Nat := (x % 2 ^ 32).toNat

/-- The value of `x` as an `uint16_t`. -/
def asUint16 (x : Int) : Nat := (x % 2 ^ 16).toNat

def intMax : Int := 2 ^ 31 - 1

def clamp (x min max : Int) : Int := if x < min then min else if max < x then max else x

def msToTimer (ms : Int) : Int := (asInt (ms * 0x100)).tdiv 1000

def timerToMs (timer : Int) : Int := (asInt (timer * 1000)).tdiv 0x100

structure StpTimer where
  active : Bool
  value : Int
deriving DecidableEq

def stpStartTimer (value : Int) : StpTimer := ⟨true, value⟩

def stpStopTimer (timer : StpTimer) : StpTimer := { timer with active := false }

/-- Whether the timer expires, and the timer afterwards. -/
def stpTimerExpired (timer : StpTimer) (elapsed timeout : Int) : Bool × StpTimer :=
  if timer.active then
    if timeout ≤ timer.value + elapsed then (true, ⟨false, timer.value + elapsed⟩)
    else (false, ⟨true, timer.value + elapsed⟩)
  else (false, timer)

/-! ## Ports and bridges -/

inductive StpState
  | disabled
  | listening
  | learning
  | forwarding
  | blocking
deriving DecidableEq

/-- Without its names and counters. -/
structure StpPort where
  portId : Nat
  state : StpState
  pathCost : Nat
  designatedRoot : Nat
  designatedCost : Int
  designatedBridge : Nat
  designatedPort : Nat
  topologyChangeAck : Bool
  configPending : Bool
  changeDetectionEnabled : Bool
  messageAgeTimer : StpTimer
  forwardDelayTimer : StpTimer
  holdTimer : StpTimer

abbrev stpMaxPorts : Nat := 255

/-- A port, by its index within its bridge. -/
abbrev PortNo := Fin stpMaxPorts

/-- The ports in the order in which loops visit them. -/
@[irreducible] def allPorts : List PortNo := List.finRange stpMaxPorts

variable (p : PortNo) (config : StpConfigBpdu) (s : Stp)

theorem mem_allPorts : p ∈ allPorts := by
  unfold allPorts
  exact List.mem_finRange p

theorem nodup_allPorts : allPorts.Nodup := by
  unfold allPorts
  exact List.nodup_finRange stpMaxPorts

/-- `struct stp_config_bpdu`, behind its header and in host byte order. -/
structure StpConfigBpdu where
  flags : Nat
  rootId : Nat
  rootPathCost : Nat
  bridgeId : Nat
  portId : Nat
  messageAge : Nat
  maxAge : Nat
  helloTime : Nat
  forwardDelay : Nat
deriving DecidableEq

inductive StpBpdu
  | config (config : StpConfigBpdu)
  | tcn
deriving DecidableEq

/-- What is remembered of a bridge's past: the milliseconds that each `stp_tick` was given and, with the forward delay
at that moment, each state that a port has entered. -/
inductive Event
  | ticked (ms : Int)
  | entered (p : PortNo) (state : StpState) (forwardDelay : Int)
deriving DecidableEq

/-- The BPDUs handed to `send_bpdu` are collected in `sent`; `history` is not in the source and nothing reads it. -/
structure Stp where
  bridgeId : Nat
  maxAge : Int
  helloTime : Int
  forwardDelay : Int
  bridgeMaxAge : Int
  bridgeHelloTime : Int
  bridgeForwardDelay : Int
  rqMaxAge : Int
  rqHelloTime : Int
  rqForwardDelay : Int
  elapsedRemainder : Int
  designatedRoot : Nat
  rootPathCost : Nat
  rootPort : Option PortNo
  topologyChangeDetected : Bool
  topologyChange : Bool
  helloTimer : StpTimer
  tcnTimer : StpTimer
  topologyChangeTimer : StpTimer
  ports : PortNo → StpPort
  fdbNeedsFlush : Bool
  sent : List (PortNo × StpBpdu)
  history : List Event

/-- An assignment to fields of the port `p`. -/
def Stp.setPort (p : PortNo) (f : StpPort → StpPort) : Stp :=
  { s with ports := Function.update s.ports p (f (s.ports p)) }

@[simp] theorem Stp.setPort_ports_self (p : PortNo) (f : StpPort → StpPort) :
    (s.setPort p f).ports p = f (s.ports p) := Function.update_self _ _ _

theorem Stp.setPort_ports_of_ne {p q : PortNo} (h : q ≠ p) (s : Stp) (f : StpPort → StpPort) :
    (s.setPort p f).ports q = s.ports q := Function.update_of_ne h _ _

theorem Stp.setPort_setPort (p : PortNo) (f g : StpPort → StpPort) :
    (s.setPort p f).setPort p g = s.setPort p fun q => g (f q) := by
  unfold setPort
  simp

def Stp.enabled (p : PortNo) : Prop := (s.ports p).state ≠ .disabled

instance (s : Stp) (p : PortNo) : Decidable (s.enabled p) := inferInstanceAs (Decidable (_ ≠ _))

/-- `FOR_EACH_ENABLED_PORT` from a port on, where the body changes the bridge. -/
def forEachFrom (body : PortNo → Stp → Stp) : List PortNo → Stp → Stp
  | [], s => s
  | p :: left, s => if s.enabled p then forEachFrom body left (body p s) else forEachFrom body left s

def forEachEnabledPort (body : PortNo → Stp → Stp) (s : Stp) : Stp := forEachFrom body allPorts s

theorem forEachFrom_eq_foldl (body : PortNo → Stp → Stp) : ∀ (left : List PortNo) (s : Stp),
    forEachFrom body left s = left.foldl (fun s p => if s.enabled p then body p s else s) s
  | [], _ => rfl
  | p :: left, s => by
    rw [forEachFrom, List.foldl_cons]
    split
    · exact forEachFrom_eq_foldl body left (body p s)
    · exact forEachFrom_eq_foldl body left s

def stpIsRootBridge : Bool := s.bridgeId = s.designatedRoot

def stpIsDesignatedPort (p : PortNo) : Bool :=
  (s.ports p).designatedBridge = s.bridgeId ∧ (s.ports p).designatedPort = (s.ports p).portId

/-! ## Sending BPDUs -/

def messageAgeIncrement : Int := 1

def stpConfigTopologyChangeAck : Nat := 0x80
def stpConfigTopologyChange : Nat := 0x01

def stpSendBpdu (bpdu : StpBpdu) (s : Stp) : Stp := { s with sent := s.sent ++ [(p, bpdu)] }

/-- The BPDU that `stp_transmit_config` builds. -/
def configBpdu : StpConfigBpdu where
  flags := (if (s.ports p).topologyChangeAck then stpConfigTopologyChangeAck else 0) |||
    (if s.topologyChange then stpConfigTopologyChange else 0)
  rootId := s.designatedRoot
  rootPathCost := s.rootPathCost
  bridgeId := s.bridgeId
  portId := (s.ports p).portId
  messageAge :=
    match stpIsRootBridge s, s.rootPort with
    | false, some root => asUint16 ((s.ports root).messageAgeTimer.value + messageAgeIncrement)
    | _, _ => 0
  maxAge := asUint16 s.maxAge
  helloTime := asUint16 s.helloTime
  forwardDelay := asUint16 s.forwardDelay

def stpTransmitConfig : Stp :=
  if ¬ stpIsRootBridge s ∧ s.rootPort = none then s
  else if (s.ports p).holdTimer.active then s.setPort p fun q => { q with configPending := true }
  else if ((configBpdu p s).messageAge : Int) < s.maxAge then
    stpSendBpdu p (.config (configBpdu p s)) (s.setPort p fun q =>
      { q with topologyChangeAck := false, configPending := false, holdTimer := stpStartTimer 0 })
  else s

def stpConfigBpduGeneration : Stp :=
  forEachEnabledPort (fun p s => if stpIsDesignatedPort s p then stpTransmitConfig p s else s) s

def stpTransmitTcn : Stp :=
  match s.rootPort with
  | none => s
  | some p => stpSendBpdu p .tcn s

/-! ## Topology changes -/

def stpTopologyChangeDetection : Stp :=
  let s :=
    if stpIsRootBridge s then { s with topologyChange := true, topologyChangeTimer := stpStartTimer 0 }
    else if s.topologyChangeDetected then s
    else { stpTransmitTcn s with tcnTimer := stpStartTimer 0 }
  { s with fdbNeedsFlush := true, topologyChangeDetected := true }

def stpTopologyChangeAcknowledged : Stp :=
  { s with topologyChangeDetected := false, tcnTimer := stpStopTimer s.tcnTimer }

def stpAcknowledgeTopologyChange : Stp :=
  stpTransmitConfig p (s.setPort p fun q => { q with topologyChangeAck := true })

def stpBecomeRootBridge : Stp :=
  let s := { s with
    maxAge := s.bridgeMaxAge, helloTime := s.bridgeHelloTime, forwardDelay := s.bridgeForwardDelay }
  let s := stpTopologyChangeDetection s
  let s := { s with tcnTimer := stpStopTimer s.tcnTimer }
  let s := stpConfigBpduGeneration s
  { s with helloTimer := stpStartTimer 0 }

/-! ## Roles -/

def stpBecomeDesignatedPort : Stp :=
  s.setPort p fun q => { q with
    designatedRoot := s.designatedRoot, designatedCost := asInt s.rootPathCost, designatedBridge := s.bridgeId,
    designatedPort := q.portId }

def stpSupersedesPortInfo (p : PortNo) (config : StpConfigBpdu) : Bool :=
  let q := s.ports p
  if config.rootId ≠ q.designatedRoot then config.rootId < q.designatedRoot
  else if config.rootPathCost ≠ asUnsigned q.designatedCost then config.rootPathCost < asUnsigned q.designatedCost
  else if config.bridgeId ≠ q.designatedBridge then config.bridgeId < q.designatedBridge
  else config.bridgeId ≠ s.bridgeId ∨ config.portId ≤ q.designatedPort

def stpSupersedesRoot (root q : StpPort) : Bool :=
  let cost := asInt (q.designatedCost + q.pathCost)
  let rootCost := asInt (root.designatedCost + root.pathCost)
  if q.designatedRoot ≠ root.designatedRoot then q.designatedRoot < root.designatedRoot
  else if cost ≠ rootCost then cost < rootCost
  else if q.designatedBridge ≠ root.designatedBridge then q.designatedBridge < root.designatedBridge
  else if q.designatedPort ≠ root.designatedPort then q.designatedPort < root.designatedPort
  else q.portId < root.portId

/-- One turn of the loop of `stp_root_selection`, with the root port so far. -/
def selectRoot (root : Option PortNo) (p : PortNo) : Option PortNo :=
  if ¬ s.enabled p then root
  else if stpIsDesignatedPort s p ∨ s.bridgeId ≤ (s.ports p).designatedRoot then root
  else
    match root with
    | none => some p
    | some r => if stpSupersedesRoot (s.ports r) (s.ports p) then some p else root

def stpRootSelection : Stp :=
  match allPorts.foldl (selectRoot s) none with
  | none => { s with rootPort := none, designatedRoot := s.bridgeId, rootPathCost := 0 }
  | some root => { s with
      rootPort := some root
      designatedRoot := (s.ports root).designatedRoot
      rootPathCost := asUnsigned (asInt ((s.ports root).designatedCost + (s.ports root).pathCost)) }

/-- The condition on which `stp_designated_port_selection` makes a port designated. -/
def TakesDesignation (p : PortNo) : Prop :=
  let q := s.ports p
  stpIsDesignatedPort s p ∨ q.designatedRoot ≠ s.designatedRoot ∨ s.rootPathCost < asUnsigned q.designatedCost ∨
    s.rootPathCost = asUnsigned q.designatedCost ∧
      (s.bridgeId < q.designatedBridge ∨ s.bridgeId = q.designatedBridge ∧ q.portId ≤ q.designatedPort)

instance (s : Stp) (p : PortNo) : Decidable (TakesDesignation s p) := by
  unfold TakesDesignation
  infer_instance

def stpDesignatedPortSelection : Stp :=
  forEachEnabledPort (fun p s => if TakesDesignation s p then stpBecomeDesignatedPort p s else s) s

def stpConfigurationUpdate : Stp := stpDesignatedPortSelection (stpRootSelection s)

/-! ## States -/

def stpSetPortState (state : StpState) (s : Stp) : Stp :=
  let s := if state ≠ (s.ports p).state then { s with history := s.history ++ [.entered p state s.forwardDelay] } else s
  s.setPort p fun q => { q with state := state }

def stpMakeForwarding : Stp :=
  if (s.ports p).state = .blocking then
    (stpSetPortState p .listening s).setPort p fun q => { q with forwardDelayTimer := stpStartTimer 0 }
  else s

def stpMakeBlocking : Stp :=
  if (s.ports p).state ≠ .disabled ∧ (s.ports p).state ≠ .blocking then
    let s :=
      if ((s.ports p).state = .forwarding ∨ (s.ports p).state = .learning) ∧ (s.ports p).changeDetectionEnabled then
        stpTopologyChangeDetection s
      else s
    (stpSetPortState p .blocking s).setPort p fun q => { q with forwardDelayTimer := stpStopTimer q.forwardDelayTimer }
  else s

/-- The body of the loop of `stp_port_state_selection`. -/
def selectState : Stp :=
  if s.rootPort = some p then
    stpMakeForwarding p (s.setPort p fun q => { q with configPending := false, topologyChangeAck := false })
  else if stpIsDesignatedPort s p then
    stpMakeForwarding p (s.setPort p fun q => { q with messageAgeTimer := stpStopTimer q.messageAgeTimer })
  else
    stpMakeBlocking p (s.setPort p fun q => { q with configPending := false, topologyChangeAck := false })

def stpPortStateSelection : Stp := forEachEnabledPort selectState s

/-- The state of a port of a new bridge is set without `stp_set_port_state`. -/
def stpInitializePort (state : StpState) (s : Stp) : Stp :=
  (stpSetPortState p state (stpBecomeDesignatedPort p s)).setPort p fun q => { q with
    topologyChangeAck := false, configPending := false, changeDetectionEnabled := true,
    messageAgeTimer := stpStopTimer q.messageAgeTimer, forwardDelayTimer := stpStopTimer q.forwardDelayTimer,
    holdTimer := stpStopTimer q.holdTimer }

/-! ## Received BPDUs -/

def stpRecordConfigInformation : Stp :=
  s.setPort p fun q => { q with
    designatedRoot := config.rootId, designatedCost := asInt config.rootPathCost, designatedBridge := config.bridgeId,
    designatedPort := config.portId, messageAgeTimer := stpStartTimer config.messageAge }

def stpRecordConfigTimeoutValues : Stp :=
  { s with
    maxAge := config.maxAge, helloTime := config.helloTime, forwardDelay := config.forwardDelay
    topologyChange := config.flags &&& stpConfigTopologyChange ≠ 0 }

/-- What `stp_received_config_bpdu` does when the bridge is not the root bridge any more. -/
def loseRoot : Stp :=
  let s := { s with helloTimer := stpStopTimer s.helloTimer }
  if s.topologyChangeDetected then
    { stpTransmitTcn { s with topologyChangeTimer := stpStopTimer s.topologyChangeTimer } with
      tcnTimer := stpStartTimer 0 }
  else s

/-- What `stp_received_config_bpdu` does with a BPDU from the root port. -/
def followRoot : Stp :=
  let s := stpConfigBpduGeneration (stpRecordConfigTimeoutValues config s)
  let s := if config.flags &&& stpConfigTopologyChangeAck ≠ 0 then stpTopologyChangeAcknowledged s else s
  if config.flags &&& stpConfigTopologyChange ≠ 0 then { s with fdbNeedsFlush := true } else s

def stpReceivedConfigBpdu : Stp :=
  if config.maxAge ≤ config.messageAge then s
  else if (s.ports p).state = .disabled then s
  else if stpSupersedesPortInfo s p config then
    let root := stpIsRootBridge s
    let s := stpPortStateSelection (stpConfigurationUpdate (stpRecordConfigInformation p config s))
    let s := if ¬ stpIsRootBridge s ∧ root then loseRoot s else s
    if s.rootPort = some p then followRoot config s else s
  else if stpIsDesignatedPort s p then stpTransmitConfig p s
  else s

def stpReceivedTcnBpdu : Stp :=
  if (s.ports p).state = .disabled then s
  else if stpIsDesignatedPort s p then stpAcknowledgeTopologyChange p (stpTopologyChangeDetection s)
  else s

def stpProtocolId : Nat := 0x0000
def stpTypeConfig : Nat := 0x00
def stpTypeTcn : Nat := 0x80

def bpduHeaderLen : Nat := 4
def configBpduLen : Nat := 35

/-- The fields of a configuration BPDU in the bytes it is received in. -/
def StpConfigBpdu.ofBytes (bpdu : List UInt8) : StpConfigBpdu where
  flags := num (read bpdu 4 1)
  rootId := num (read bpdu 5 8)
  rootPathCost := num (read bpdu 13 4)
  bridgeId := num (read bpdu 17 8)
  portId := num (read bpdu 25 2)
  messageAge := num (read bpdu 27 2)
  maxAge := num (read bpdu 29 2)
  helloTime := num (read bpdu 31 2)
  forwardDelay := num (read bpdu 33 2)

def stpReceivedBpdu (bpdu : List UInt8) (s : Stp) : Stp :=
  if (s.ports p).state = .disabled then s
  else if bpdu.length < bpduHeaderLen then s
  else if num (read bpdu 0 2) ≠ stpProtocolId then s
  else if num (read bpdu 3 1) = stpTypeConfig then
    if bpdu.length < configBpduLen then s else stpReceivedConfigBpdu p (.ofBytes bpdu) s
  else if num (read bpdu 3 1) = stpTypeTcn then
    if bpdu.length ≠ bpduHeaderLen then s else stpReceivedTcnBpdu p s
  else s

/-! ## Time -/

def stpHelloTimerExpiry : Stp := { stpConfigBpduGeneration s with helloTimer := stpStartTimer 0 }

def stpTcnTimerExpiry : Stp := { stpTransmitTcn s with tcnTimer := stpStartTimer 0 }

def stpTopologyChangeTimerExpiry : Stp := { s with topologyChangeDetected := false, topologyChange := false }

def stpMessageAgeTimerExpiry : Stp :=
  let root := stpIsRootBridge s
  let s := stpPortStateSelection (stpConfigurationUpdate (stpBecomeDesignatedPort p s))
  if stpIsRootBridge s ∧ ¬ root then stpBecomeRootBridge s else s

def stpIsDesignatedForSomePort : Bool :=
  allPorts.any fun p => s.enabled p ∧ (s.ports p).designatedBridge = s.bridgeId

def stpForwardDelayTimerExpiry : Stp :=
  if (s.ports p).state = .listening then
    (stpSetPortState p .learning s).setPort p fun q => { q with forwardDelayTimer := stpStartTimer 0 }
  else if (s.ports p).state = .learning then
    let s := stpSetPortState p .forwarding s
    if stpIsDesignatedForSomePort s ∧ (s.ports p).changeDetectionEnabled then stpTopologyChangeDetection s else s
  else s

def stpHoldTimerExpiry : Stp :=
  if (s.ports p).configPending then stpTransmitConfig p s else s

/-- The first part of `stp_tick`: the timers of the bridge. -/
def tickBridge (elapsed : Int) (s : Stp) : Stp :=
  let (expired, timer) := stpTimerExpired s.helloTimer elapsed s.helloTime
  let s := { s with helloTimer := timer }
  let s := if expired then stpHelloTimerExpiry s else s
  let (expired, timer) := stpTimerExpired s.tcnTimer elapsed s.bridgeHelloTime
  let s := { s with tcnTimer := timer }
  let s := if expired then stpTcnTimerExpiry s else s
  let (expired, timer) := stpTimerExpired s.topologyChangeTimer elapsed (s.maxAge + s.forwardDelay)
  let s := { s with topologyChangeTimer := timer }
  if expired then stpTopologyChangeTimerExpiry s else s

/-- The body of the first loop of `stp_tick` over the ports. -/
def tickMessageAge (elapsed : Int) (p : PortNo) (s : Stp) : Stp :=
  let (expired, timer) := stpTimerExpired (s.ports p).messageAgeTimer elapsed s.maxAge
  let s := s.setPort p fun q => { q with messageAgeTimer := timer }
  if expired then stpMessageAgeTimerExpiry p s else s

def tickForwardDelay (elapsed : Int) (p : PortNo) (s : Stp) : Stp :=
  let (expired, timer) := stpTimerExpired (s.ports p).forwardDelayTimer elapsed s.forwardDelay
  let s := s.setPort p fun q => { q with forwardDelayTimer := timer }
  if expired then stpForwardDelayTimerExpiry p s else s

def tickHold (elapsed : Int) (p : PortNo) (s : Stp) : Stp :=
  let (expired, timer) := stpTimerExpired (s.ports p).holdTimer elapsed (msToTimer 1000)
  let s := s.setPort p fun q => { q with holdTimer := timer }
  if expired then stpHoldTimerExpiry p s else s

/-- What `stp_tick` adds up: what it is given and what the call before left over. -/
def Stp.sinceTick (ms : Int) : Int := asInt (clamp ms 0 (intMax - 1000) + s.elapsedRemainder)

/-- The timer ticks that pass in a call of `stp_tick`. -/
def Stp.elapsed (ms : Int) : Int := msToTimer (s.sinceTick ms)

def stpTick (ms : Int) (s : Stp) : Stp :=
  let elapsed := s.elapsed ms
  let s := { s with
    elapsedRemainder := asInt (s.sinceTick ms - timerToMs elapsed), history := s.history ++ [.ticked ms] }
  if elapsed = 0 then s
  else
    let s := tickBridge elapsed s
    let s := forEachEnabledPort (tickMessageAge elapsed) s
    forEachEnabledPort (fun p s => tickHold elapsed p (tickForwardDelay elapsed p s)) s

/-! ## Management -/

def setBridgeId (newBridgeId : Nat) (s : Stp) : Stp :=
  if newBridgeId = s.bridgeId then s
  else
    let root := stpIsRootBridge s
    let s := forEachEnabledPort (fun p s =>
      if stpIsDesignatedPort s p then s.setPort p fun q => { q with designatedBridge := newBridgeId } else s) s
    let s := stpPortStateSelection (stpConfigurationUpdate { s with bridgeId := newBridgeId })
    if stpIsRootBridge s ∧ ¬ root then stpBecomeRootBridge s else s

/-- The low 48 bits of the identifier. -/
def stpSetBridgeId (bridgeId : Nat) (s : Stp) : Stp :=
  setBridgeId (s.bridgeId / 2 ^ 48 * 2 ^ 48 + bridgeId % 2 ^ 48) s

/-- The high 16 bits of the identifier. -/
def stpSetBridgePriority (newPriority : UInt16) (s : Stp) : Stp :=
  setBridgeId (newPriority.toNat * 2 ^ 48 + s.bridgeId % 2 ^ 48) s

def stpUpdateBridgeTimers : Stp :=
  let ht := clamp s.rqHelloTime 1000 10000
  let ma := clamp s.rqMaxAge (max (2 * (ht + 1000)) 6000) 40000
  let fd := clamp s.rqForwardDelay (ma.tdiv 2 + 1000) 30000
  let s := { s with
    bridgeHelloTime := msToTimer ht, bridgeMaxAge := msToTimer ma, bridgeForwardDelay := msToTimer fd }
  if stpIsRootBridge s then
    { s with maxAge := s.bridgeMaxAge, helloTime := s.bridgeHelloTime, forwardDelay := s.bridgeForwardDelay }
  else s

def stpSetHelloTime (ms : Int) (s : Stp) : Stp := stpUpdateBridgeTimers { s with rqHelloTime := ms }

def stpSetMaxAge (ms : Int) (s : Stp) : Stp := stpUpdateBridgeTimers { s with rqMaxAge := ms }

def stpSetForwardDelay (ms : Int) (s : Stp) : Stp := stpUpdateBridgeTimers { s with rqForwardDelay := ms }

def stpPortDisable : Stp :=
  if (s.ports p).state = .disabled then s
  else
    let root := stpIsRootBridge s
    let s := stpSetPortState p .disabled (stpBecomeDesignatedPort p s)
    let s := s.setPort p fun q => { q with
      topologyChangeAck := false, configPending := false, messageAgeTimer := stpStopTimer q.messageAgeTimer,
      forwardDelayTimer := stpStopTimer q.forwardDelayTimer }
    let s := stpPortStateSelection (stpConfigurationUpdate s)
    if stpIsRootBridge s ∧ ¬ root then stpBecomeRootBridge s else s

def stpPortEnable : Stp :=
  if (s.ports p).state = .disabled then stpPortStateSelection (stpInitializePort p .blocking s) else s

/-- The port identifier that `stp_port_set_priority` gives a port. -/
def newPortId (q : StpPort) (newPriority : UInt8) : Nat := newPriority.toNat * 256 + q.portId % 256

def stpPortSetPriority (newPriority : UInt8) (s : Stp) : Stp :=
  let id := newPortId (s.ports p) newPriority
  if (s.ports p).portId = id then s
  else
    let s := if stpIsDesignatedPort s p then s.setPort p fun q => { q with designatedPort := id } else s
    let s := s.setPort p fun q => { q with portId := id }
    if s.bridgeId = (s.ports p).designatedBridge ∧ (s.ports p).portId < (s.ports p).designatedPort then
      stpPortStateSelection (stpBecomeDesignatedPort p s)
    else s

def stpPortSetPathCost (pathCost : UInt16) (s : Stp) : Stp :=
  if (s.ports p).pathCost = pathCost.toNat then s
  else stpPortStateSelection (stpConfigurationUpdate (s.setPort p fun q => { q with pathCost := pathCost.toNat }))

def stpConvertSpeedToCost (speed : Nat) : UInt16 :=
  if 10000 ≤ speed then 2
  else if 1000 ≤ speed then 4
  else if 100 ≤ speed then 19
  else if 16 ≤ speed then 62
  else if 10 ≤ speed then 100
  else if 4 ≤ speed then 250
  else 19

def stpPortSetSpeed (speed : Nat) (s : Stp) : Stp := stpPortSetPathCost p (stpConvertSpeedToCost speed) s

def stpPortSetChangeDetection (enabled : Bool) (p : PortNo) (s : Stp) : Stp :=
  s.setPort p fun q => { q with changeDetectionEnabled := enabled }

def stpDefaultBridgePriority : Nat := 32768
def stpDefaultPortPriority : Nat := 128

/-- Only the fields that are not zero are interesting; the times are set by `stp_update_bridge_timers`. -/
def stpCreate (bridgeId : Nat) : Stp :=
  let id := if bridgeId / 2 ^ 48 = 0 then bridgeId + stpDefaultBridgePriority * 2 ^ 48 else bridgeId
  let timer : StpTimer := ⟨false, 0⟩
  stpUpdateBridgeTimers {
    bridgeId := id, maxAge := 0, helloTime := 0, forwardDelay := 0, bridgeMaxAge := 0, bridgeHelloTime := 0
    bridgeForwardDelay := 0, rqMaxAge := 20000, rqHelloTime := 2000, rqForwardDelay := 15000, elapsedRemainder := 0
    designatedRoot := id, rootPathCost := 0, rootPort := none, topologyChangeDetected := false
    topologyChange := false, helloTimer := stpStartTimer 0, tcnTimer := timer, topologyChangeTimer := timer
    ports := fun p => {
      portId := stpDefaultPortPriority * 256 + (p.val + 1), state := .disabled, pathCost := 19, designatedRoot := id
      designatedCost := 0, designatedBridge := id, designatedPort := stpDefaultPortPriority * 256 + (p.val + 1)
      topologyChangeAck := false, configPending := false, changeDetectionEnabled := true, messageAgeTimer := timer
      forwardDelayTimer := timer, holdTimer := timer }
    fdbNeedsFlush := false, sent := [], history := [] }

/-! ## Calls -/

/-- The calls on a bridge that change it. -/
inductive Call
  | tick (ms : Int)
  | setBridgeId (bridgeId : Nat)
  | setBridgePriority (newPriority : UInt16)
  | setHelloTime (ms : Int)
  | setMaxAge (ms : Int)
  | setForwardDelay (ms : Int)
  | checkAndResetFdbFlush
  | receivedBpdu (p : PortNo) (bpdu : List UInt8)
  | portDisable (p : PortNo)
  | portEnable (p : PortNo)
  | portSetPriority (p : PortNo) (newPriority : UInt8)
  | portSetPathCost (p : PortNo) (pathCost : UInt16)
  | portSetSpeed (p : PortNo) (speed : Nat)
  | portSetChangeDetection (enabled : Bool) (p : PortNo)
  | unixctlTcn

def Call.run : Call → Stp → Stp
  | .tick ms => stpTick ms
  | .setBridgeId bridgeId => stpSetBridgeId bridgeId
  | .setBridgePriority newPriority => stpSetBridgePriority newPriority
  | .setHelloTime ms => stpSetHelloTime ms
  | .setMaxAge ms => stpSetMaxAge ms
  | .setForwardDelay ms => stpSetForwardDelay ms
  | .checkAndResetFdbFlush => fun s => { s with fdbNeedsFlush := false }
  | .receivedBpdu p bpdu => stpReceivedBpdu p bpdu
  | .portDisable p => stpPortDisable p
  | .portEnable p => stpPortEnable p
  | .portSetPriority p newPriority => stpPortSetPriority p newPriority
  | .portSetPathCost p pathCost => stpPortSetPathCost p pathCost
  | .portSetSpeed p speed => stpPortSetSpeed p speed
  | .portSetChangeDetection enabled p => stpPortSetChangeDetection enabled p
  | .unixctlTcn => stpTopologyChangeDetection

def Step (call : Call) (s' : Stp) : Prop := s' = call.run s

end LinkerOvs.SpanningTree
