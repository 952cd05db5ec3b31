/-
No port of a spanning tree bridge forwards early: before it enters the forwarding state it has been listening and then
learning, each for the forward delay. It holds in every run in which `stp_tick` loses no fraction of a millisecond and
does not start the delay of a port and let its own time pass for it in one call.
-/
import LinkerOvs.L2.StpRoles

namespace LinkerOvs.SpanningTree

open Bytes List

/-! ## Histories -/

/-- The milliseconds that `stp_tick` was given in a stretch of a bridge's history. -/
def passed : List Event → Int
  | [] => 0
  | .ticked ms :: history => ms + passed history
  | .entered _ _ _ :: history => passed history

variable (p : PortNo) (history : List Event) (forwardDelay : Int)

/-- The port `p` enters no state in this stretch. -/
def Quiet : Prop := ∀ state fd, .entered p state fd ∉ history

/-- The port `p` has entered `state` when the forward delay was `fd`, and is in it since then. -/
def Entered (state : StpState) (fd : Int) (before since history : List Event) : Prop :=
  history = before ++ .entered p state fd :: since ∧ Quiet p since

/-- A stretch of at least `forwardDelay` timer ticks, up to one of them. There are 256 timer ticks in a second. -/
def LastsFor (since : List Event) : Prop := (forwardDelay - 1) * 1000 ≤ passed since * 256

def Blocked : Prop := ∃ fd before since, Entered p .blocking fd before since history

/-- The port `p` has come from blocking to listening, and has been listening for the forward delay. -/
def Listened : Prop :=
  ∃ fd before since, Entered p .listening fd before since history ∧ Blocked p before ∧ LastsFor forwardDelay since

/-- The port `p` has been listening and then learning, each for the forward delay at the end of it. -/
def Delayed : Prop :=
  ∃ fd before since, Entered p .learning fd before since history ∧ Listened p before fd ∧ LastsFor forwardDelay since

/-- Whenever a port enters the forwarding state it has been delayed. -/
def NoEarlyForwarding : Prop :=
  ∀ p before fd after, history = before ++ .entered p .forwarding fd :: after → Delayed p before fd

section

variable {p : PortNo} {history ext : List Event}

theorem passed_append : ∀ (h h' : List Event), passed (h ++ h') = passed h + passed h'
  | [], h' => by simp [passed]
  | .ticked ms :: h, h' => by
    rw [cons_append, passed, passed, passed_append h h', Int.add_assoc]
  | .entered _ _ _ :: h, h' => by
    rw [cons_append, passed, passed, passed_append h h']

theorem Quiet.append (h : Quiet p history) (h' : Quiet p ext) : Quiet p (history ++ ext) := by
  intro state fd hmem
  rcases mem_append.1 hmem with hmem | hmem
  · exact h state fd hmem
  · exact h' state fd hmem

theorem quiet_nil : Quiet p [] := fun _ _ h => absurd h not_mem_nil

theorem quiet_ticked (ms : Int) : Quiet p [.ticked ms] := by
  intro state fd hmem
  simp at hmem

theorem quiet_entered {q : PortNo} (hq : p ≠ q) (state : StpState) (fd : Int) : Quiet p [.entered q state fd] := by
  intro state' fd' hmem
  simp_all

theorem Entered.append {state : StpState} {fd : Int} {before since : List Event}
    (h : Entered p state fd before since history) (hext : Quiet p ext) :
    Entered p state fd before (since ++ ext) (history ++ ext) := by
  obtain ⟨rfl, hquiet⟩ := h
  exact ⟨by simp, hquiet.append hext⟩

theorem entered_snoc (p : PortNo) (state : StpState) (fd : Int) (history : List Event) :
    Entered p state fd history [] (history ++ [.entered p state fd]) := ⟨rfl, quiet_nil⟩

/-- A history may grow by anything but by a port that forwards early. -/
theorem NoEarlyForwarding.snoc (h : NoEarlyForwarding history) {event : Event}
    (hevent : ∀ p fd, event = .entered p .forwarding fd → Delayed p history fd) :
    NoEarlyForwarding (history ++ [event]) := by
  intro p before fd after heq
  rcases eq_nil_or_concat after with rfl | ⟨rest, last, rfl⟩
  · simp_all
  · have heq' : history ++ [event] = (before ++ .entered p .forwarding fd :: rest) ++ [last] := by simpa using heq
    exact h p before fd rest (append_inj' heq' rfl).1

end

/-! ## The delay of one port -/

/-- The port `p` is in `state` since some time, which is not less than `ticks` timer ticks and the remainder. -/
def Since (p : PortNo) (state : StpState) (P : List Event → Int → Prop) (history : List Event) (remainder ticks : Int) :
    Prop :=
  ∃ fd before since, Entered p state fd before since history ∧ P before fd ∧
    ticks * 1000 + remainder * 256 ≤ (passed since + 3) * 256

/-- How far a port has come, from its state and the timer ticks it has waited in it. -/
def Progress (p : PortNo) (history : List Event) (remainder : Int) (state : StpState) (ticks : Int) : Prop :=
  match state with
  | .blocking => Blocked p history
  | .listening => Since p .listening (fun before _ => Blocked p before) history remainder ticks
  | .learning => Since p .learning (Listened p) history remainder ticks
  | .disabled => True
  | .forwarding => True

section

variable {p : PortNo} {state : StpState} {P : List Event → Int → Prop} {history ext : List Event}
  {remainder remainder' ticks ticks' : Int}

theorem Blocked.append (h : Blocked p history) (hext : Quiet p ext) : Blocked p (history ++ ext) := by
  obtain ⟨fd, before, since, hentered⟩ := h
  exact ⟨fd, before, since ++ ext, hentered.append hext⟩

theorem Since.append (h : Since p state P history remainder ticks) (hext : Quiet p ext)
    (hticks : ticks' * 1000 + remainder' * 256 ≤ ticks * 1000 + remainder * 256 + passed ext * 256) :
    Since p state P (history ++ ext) remainder' ticks' := by
  obtain ⟨fd, before, since, hentered, hbefore, htime⟩ := h
  refine ⟨fd, before, since ++ ext, hentered.append hext, hbefore, ?_⟩
  rw [passed_append]
  omega

/-- A port keeps its progress while it stays in its state and its timer counts no more than the time that passes. -/
theorem Progress.append (h : Progress p history remainder state ticks) (hext : Quiet p ext)
    (hticks : ticks' * 1000 + remainder' * 256 ≤ ticks * 1000 + remainder * 256 + passed ext * 256) :
    Progress p (history ++ ext) remainder' state ticks' := by
  cases state with
  | disabled => trivial
  | listening => exact Since.append h hext hticks
  | learning => exact Since.append h hext hticks
  | forwarding => trivial
  | blocking => exact Blocked.append h hext

theorem since_snoc (fd : Int) (hbefore : P history fd) (hremainder : remainder ≤ 3) :
    Since p state P (history ++ [.entered p state fd]) remainder 0 := by
  refine ⟨fd, history, [], entered_snoc p state fd history, hbefore, ?_⟩
  rw [passed]
  omega

/-- When the timer has counted the forward delay, the time has passed. -/
theorem Since.lastsFor (h : Since p state P history remainder ticks) (hremainder : 0 ≤ remainder) {forwardDelay : Int}
    (hexpired : forwardDelay ≤ ticks) :
    ∃ fd before since, Entered p state fd before since history ∧ P before fd ∧ LastsFor forwardDelay since := by
  obtain ⟨fd, before, since, hentered, hbefore, htime⟩ := h
  refine ⟨fd, before, since, hentered, hbefore, ?_⟩
  rw [LastsFor]
  omega

end

/-! ## All ports -/

/-- What the delays of the ports depend on. -/
def Stp.clock (s : Stp) : List Event × Int × (PortNo → StpState × Int) :=
  (s.history, s.elapsedRemainder, fun p => ((s.ports p).state, (s.ports p).forwardDelayTimer.value))

/-- Every port has waited as long as its timer says, and for `pending p` timer ticks more. -/
structure OnTime (pending : PortNo → Int) (s : Stp) : Prop where
  remainder_nonneg : 0 ≤ s.elapsedRemainder
  remainder_le : s.elapsedRemainder ≤ 3
  history : NoEarlyForwarding s.history
  progress : ∀ p, Progress p s.history s.elapsedRemainder (s.ports p).state
    ((s.ports p).forwardDelayTimer.value + pending p)

section

variable {s t : Stp} {p : PortNo} {pending : PortNo → Int}

theorem OnTime.of_clock (h : OnTime pending s) (hc : t.clock = s.clock) : OnTime pending t := by
  have hhistory : t.history = s.history := congrArg (fun c => c.1) hc
  have hremainder : t.elapsedRemainder = s.elapsedRemainder := congrArg (fun c => c.2.1) hc
  refine ⟨hremainder ▸ h.remainder_nonneg, hremainder ▸ h.remainder_le, hhistory ▸ h.history, fun p => ?_⟩
  have hstate : (t.ports p).state = (s.ports p).state := congrArg (fun c => (c.2.2 p).1) hc
  have hvalue : (t.ports p).forwardDelayTimer.value = (s.ports p).forwardDelayTimer.value :=
    congrArg (fun c => (c.2.2 p).2) hc
  rw [hhistory, hremainder, hstate, hvalue]
  exact h.progress p

theorem clock_of_core (h : t.core = s.core) : t.clock = s.clock := by
  have hclock : t.core.clock = s.core.clock := by rw [h]
  exact hclock

theorem OnTime.of_core (h : OnTime pending s) (hc : t.core = s.core) : OnTime pending t := h.of_clock (clock_of_core hc)

variable {f : StpPort → StpPort} {elapsed ms : Int}

theorem clock_setPort (hstate : (f (s.ports p)).state = (s.ports p).state)
    (htimer : (f (s.ports p)).forwardDelayTimer.value = (s.ports p).forwardDelayTimer.value) :
    (s.setPort p f).clock = s.clock := by
  have hports : (fun q => (((s.setPort p f).ports q).state, ((s.setPort p f).ports q).forwardDelayTimer.value)) =
      fun q => ((s.ports q).state, (s.ports q).forwardDelayTimer.value) := by
    funext q
    by_cases hq : q = p
    · simp [*]
    · rw [Stp.setPort_ports_of_ne hq]
  unfold Stp.clock
  rw [hports]
  rfl

theorem clock_forEachEnabledPort {f : PortNo → Stp → Stp} (hf : ∀ p s, (f p s).clock = s.clock) (s : Stp) :
    (forEachEnabledPort f s).clock = s.clock :=
  forEachEnabledPort_invariant (I := fun t => t.clock = s.clock) (fun p t ht _ => (hf p t).trans ht) rfl

theorem clock_stpConfigurationUpdate (s : Stp) : (stpConfigurationUpdate s).clock = s.clock := by
  have hroot : (stpRootSelection s).clock = s.clock := by
    rw [stpRootSelection]
    split
    · rfl
    · rfl
  refine (clock_forEachEnabledPort (fun p t => ?_) _).trans hroot
  split
  · exact clock_setPort rfl rfl
  · rfl

/-! ### Changes of state -/

section

variable (h : OnTime pending s)
include h

/-- A port enters a state, with its timers as `f` sets them, and the others stay as they are. -/
theorem OnTime.enter {state : StpState} (hne : state ≠ (s.ports p).state)
    (hforwarding : state = .forwarding → Delayed p s.history s.forwardDelay) (hf : ∀ q, (f q).state = q.state)
    (hp : Progress p (s.history ++ [.entered p state s.forwardDelay]) s.elapsedRemainder state
      ((f { s.ports p with state := state }).forwardDelayTimer.value + pending p)) :
    OnTime pending ((stpSetPortState p state s).setPort p f) := by
  have hhistory : ((stpSetPortState p state s).setPort p f).history =
      s.history ++ [.entered p state s.forwardDelay] := by
    rw [stpSetPortState, if_pos hne]
    rfl
  have hremainder : ((stpSetPortState p state s).setPort p f).elapsedRemainder = s.elapsedRemainder := by
    rw [stpSetPortState, if_pos hne]
    rfl
  refine ⟨hremainder ▸ h.remainder_nonneg, hremainder ▸ h.remainder_le, ?_, fun q => ?_⟩
  · rw [hhistory]
    refine h.history.snoc fun q fd heq => ?_
    grind
  · rw [hhistory, hremainder]
    by_cases hq : q = p
    · simp [*]
    · rw [Stp.setPort_ports_of_ne hq, stpSetPortState_ports_of_ne hq]
      exact (h.progress q).append (quiet_entered hq state s.forwardDelay) (by simp [passed])

theorem OnTime.enter_untimed {state : StpState} (hne : state ≠ (s.ports p).state)
    (hforwarding : state = .forwarding → Delayed p s.history s.forwardDelay)
    (hp : ∀ history remainder ticks, Progress p history remainder state ticks) :
    OnTime pending (stpSetPortState p state s) :=
  (h.enter (f := id) hne hforwarding (fun _ => rfl) (hp _ _ _)).of_clock (clock_setPort rfl rfl).symm

theorem OnTime.block (hne : (s.ports p).state ≠ .blocking) (hf : ∀ q, (f q).state = q.state) :
    OnTime pending ((stpSetPortState p .blocking s).setPort p f) :=
  h.enter hne.symm (by rintro ⟨⟩) hf ⟨_, _, _, entered_snoc p .blocking s.forwardDelay s.history⟩

/-- A blocked port may start to listen when no time is pending for it. -/
theorem OnTime.selectState (hp : pending p = 0 ∨ (s.ports p).state ≠ .blocking) :
    OnTime pending (selectState p s) := by
  refine selectState_of (P := fun t => OnTime pending t ∧ (t.ports p).state = (s.ports p).state) ?_ ⟨h, rfl⟩
    (fun ht => ht.1) ⟨h.of_clock (clock_setPort rfl rfl), by rw [Stp.setPort_ports_self]⟩ ?_
    fun ht hstate => ht.1.block hstate fun _ => rfl
  · rintro t u hc ⟨ht, hstate⟩
    exact ⟨ht.of_core hc, (state_of_core hc p).trans hstate⟩
  · rintro t ⟨ht, hstate⟩ hblocking
    have hblocked : Blocked p t.history := by
      have hprogress := ht.progress p
      rw [hblocking] at hprogress
      exact hprogress
    refine ht.enter (by rw [hblocking]; decide) (by rintro ⟨⟩) (fun _ => rfl) ?_
    rw [hp.resolve_right (not_not.2 (hstate.symm.trans hblocking))]
    exact since_snoc t.forwardDelay hblocked ht.remainder_le

theorem OnTime.portStateSelection
    (hp : ∀ p, s.enabled p → pending p = 0 ∨ (s.ports p).state ≠ .blocking) :
    OnTime pending (stpPortStateSelection s) := by
  refine (forEachEnabledPort_visits (I := fun done u => OnTime pending u ∧
    ∀ p, p ∉ done → u.enabled p → pending p = 0 ∨ (u.ports p).state ≠ .blocking) ⟨h, fun p _ => hp p⟩ ?_ ?_).1
  · rintro done p u hfresh ⟨hu, hleft⟩ henabled
    have hothers := (selectState_spec henabled).1.others
    refine ⟨hu.selectState (hleft p hfresh henabled), fun q hq hq' => ?_⟩
    rw [mem_append, not_or, mem_singleton] at hq
    rw [Stp.enabled, hothers q hq.2] at hq'
    rw [hothers q hq.2]
    exact hleft q hq.1 hq'
  · grind

end

/-- Without pending time, roles and states may be selected anew at any moment. -/
theorem OnTime.reselect (h : OnTime 0 s) : OnTime 0 (stpPortStateSelection (stpConfigurationUpdate s)) :=
  (h.of_clock (clock_stpConfigurationUpdate s)).portStateSelection fun _ _ => .inl rfl

theorem onTime_ite {c : Prop} [Decidable c] (h : OnTime pending s) (h' : OnTime pending t) :
    OnTime pending (if c then s else t) := by
  split
  · exact h
  · exact h'

/-! ## Calls other than `stp_tick` -/

theorem OnTime.becomeRootBridge_of {c : Prop} [Decidable c] (h : OnTime pending s) :
    OnTime pending (if c then stpBecomeRootBridge s else s) := stpBecomeRootBridge_of (fun hc ht => ht.of_core hc) h

theorem OnTime.setBridgeId (h : OnTime 0 s) (newBridgeId : Nat) : OnTime 0 (setBridgeId newBridgeId s) := by
  rw [SpanningTree.setBridgeId]
  split
  · exact h
  refine (OnTime.reselect ?_).becomeRootBridge_of
  refine h.of_clock (clock_forEachEnabledPort (fun p t => ?_) s)
  split
  · exact clock_setPort rfl rfl
  · rfl

theorem OnTime.portDisable (h : OnTime 0 s) (p : PortNo) : OnTime 0 (stpPortDisable p s) := by
  rw [stpPortDisable]
  split
  · exact h
  next hstate =>
    have hdesignated : (stpBecomeDesignatedPort p s).clock = s.clock := clock_setPort rfl rfl
    have hdisabled : OnTime 0 (stpSetPortState p .disabled (stpBecomeDesignatedPort p s)) := by
      refine (h.of_clock hdesignated).enter_untimed (Ne.symm ?_) (by rintro ⟨⟩) fun _ _ _ => trivial
      rw [stpBecomeDesignatedPort, Stp.setPort_ports_self]
      exact hstate
    exact (hdisabled.of_clock (clock_setPort rfl rfl)).reselect.becomeRootBridge_of

theorem OnTime.portEnable (h : OnTime 0 s) (p : PortNo) : OnTime 0 (stpPortEnable p s) := by
  rw [stpPortEnable]
  split
  next hstate =>
    have hdesignated : (stpBecomeDesignatedPort p s).clock = s.clock := clock_setPort rfl rfl
    refine OnTime.portStateSelection ((h.of_clock hdesignated).block ?_ fun _ => rfl) fun _ _ => .inl rfl
    rw [stpBecomeDesignatedPort, Stp.setPort_ports_self, hstate]
    decide
  · exact h

theorem OnTime.portSetPriority (h : OnTime 0 s) (p : PortNo) (newPriority : UInt8) :
    OnTime 0 (stpPortSetPriority p newPriority s) := by
  rw [stpPortSetPriority]
  split
  · exact h
  have hids {t : Stp} (ht : OnTime 0 t) (id : Nat) : OnTime 0 (t.setPort p fun q => { q with portId := id }) :=
    ht.of_clock (clock_setPort rfl rfl)
  have hdesignated : OnTime 0 (if stpIsDesignatedPort s p then
      s.setPort p fun q => { q with designatedPort := newPortId (s.ports p) newPriority } else s) :=
    onTime_ite (h.of_clock (clock_setPort rfl rfl)) h
  exact onTime_ite (((hids hdesignated _).of_clock (clock_setPort rfl rfl)).portStateSelection fun _ _ => .inl rfl)
    (hids hdesignated _)

theorem OnTime.portSetPathCost (h : OnTime 0 s) (p : PortNo) (pathCost : UInt16) :
    OnTime 0 (stpPortSetPathCost p pathCost s) := by
  rw [stpPortSetPathCost]
  split
  · exact h
  · exact (h.of_clock (clock_setPort rfl rfl)).reselect

/-! ## `stp_tick` -/

/-! ### The timers of the forward delay -/

/-- The time that is pending for a port goes into its timer. -/
theorem OnTime.advance (h : OnTime pending s) {timer : StpTimer}
    (htimer : timer.value ≤ (s.ports p).forwardDelayTimer.value + pending p) :
    OnTime (Function.update pending p 0) (s.setPort p fun q => { q with forwardDelayTimer := timer }) := by
  refine ⟨h.remainder_nonneg, h.remainder_le, h.history, fun q => ?_⟩
  by_cases hq : q = p
  · subst hq
    rw [Stp.setPort_ports_self, Function.update_self]
    have hprogress : Progress q (s.history ++ []) s.elapsedRemainder (s.ports q).state (timer.value + 0) :=
      (h.progress q).append quiet_nil (by rw [passed]; omega)
    rw [append_nil] at hprogress
    exact hprogress
  · rw [Stp.setPort_ports_of_ne hq, Function.update_of_ne hq]
    exact h.progress q

/-- A port whose timer has counted the forward delay may go on. -/
theorem OnTime.forwardDelayTimerExpiry (h : OnTime pending s) (hp : pending p = 0)
    (hexpired : s.forwardDelay ≤ (s.ports p).forwardDelayTimer.value) :
    OnTime pending (stpForwardDelayTimerExpiry p s) := by
  have hprogress := h.progress p
  rw [hp, Int.add_zero] at hprogress
  rw [stpForwardDelayTimerExpiry]
  split
  next hstate =>
    rw [hstate] at hprogress
    have hlistened : Listened p s.history s.forwardDelay := Since.lastsFor hprogress h.remainder_nonneg hexpired
    refine h.enter (by rw [hstate]; decide) (by rintro ⟨⟩) (fun _ => rfl) ?_
    rw [hp]
    exact since_snoc s.forwardDelay hlistened h.remainder_le
  split
  next hstate =>
    rw [hstate] at hprogress
    have hdelayed : Delayed p s.history s.forwardDelay := Since.lastsFor hprogress h.remainder_nonneg hexpired
    have hforwarding : OnTime pending (stpSetPortState p .forwarding s) :=
      h.enter_untimed (by rw [hstate]; decide) (fun _ => hdelayed) fun _ _ _ => trivial
    exact onTime_ite (hforwarding.of_core (core_stpTopologyChangeDetection _)) hforwarding
  · exact h

theorem OnTime.tickForwardDelay (h : OnTime pending s) (helapsed : 0 ≤ elapsed) (hp : pending p = elapsed) :
    OnTime (Function.update pending p 0) (tickForwardDelay elapsed p s) := by
  rw [SpanningTree.tickForwardDelay, stpTimerExpired]
  by_cases hactive : (s.ports p).forwardDelayTimer.active = true
  · rw [if_pos hactive]
    by_cases hexpired : s.forwardDelay ≤ (s.ports p).forwardDelayTimer.value + elapsed
    · rw [if_pos hexpired]
      refine (h.advance (by dsimp only; omega)).forwardDelayTimerExpiry (Function.update_self p 0 pending) ?_
      rw [Stp.setPort_ports_self]
      exact hexpired
    · rw [if_neg hexpired]
      exact h.advance (by dsimp only; omega)
  · rw [if_neg hactive]
    exact h.advance (by omega)

/-- The second loop of `stp_tick` over the ports uses up all the time that is pending. -/
theorem OnTime.forwardDelayLoop (helapsed : 0 ≤ elapsed) (h : OnTime (fun _ => elapsed) s) :
    OnTime 0 (forEachEnabledPort (fun p s => tickHold elapsed p (SpanningTree.tickForwardDelay elapsed p s)) s) := by
  let pending (done : List PortNo) (p : PortNo) : Int := if p ∈ done then 0 else elapsed
  have hpending (done : List PortNo) (p : PortNo) : pending (done ++ [p]) = Function.update (pending done) p 0 := by
    grind
  have hzero : pending allPorts = 0 := by
    funext p
    simp [pending, mem_allPorts]
  rw [← hzero]
  refine forEachEnabledPort_visits (I := fun done u => OnTime (pending done) u) (by simpa [pending] using h) ?_ ?_
  · intro done p u hfresh hu _
    rw [hpending]
    exact (hu.tickForwardDelay helapsed (if_neg hfresh)).of_core (core_tickHold elapsed p _)
  · intro done p u _ hu henabled
    rw [hpending]
    refine ⟨hu.remainder_nonneg, hu.remainder_le, hu.history, fun q => ?_⟩
    by_cases hq : q = p
    · subst hq
      have hdisabled : (u.ports q).state = .disabled := not_not.1 henabled
      rw [hdisabled]
      trivial
    · rw [Function.update_of_ne hq]
      exact hu.progress q

/-! ### The timers of the message age -/

/-- The port `p` waits for the next message from its designated bridge. -/
def Waits (s : Stp) (p : PortNo) : Prop := s.enabled p ∧ (s.ports p).messageAgeTimer.active = true

instance (s : Stp) (p : PortNo) : Decidable (Waits s p) := inferInstanceAs (Decidable (_ ∧ _))

/-- No port waits so long that its message age timer expires after `elapsed` timer ticks. -/
def MessagesLast (s : Stp) (elapsed : Int) : Prop :=
  ∀ p, Waits s p → (s.ports p).messageAgeTimer.value + elapsed < s.maxAge

/-- No port is blocking, and at most one waits for messages. -/
def NoneBlocking (s : Stp) : Prop :=
  (∀ p, s.enabled p → (s.ports p).state ≠ .blocking) ∧ ∃ last, ∀ p, Waits s p → p = last

def Stp.setMessageAge (s : Stp) (p : PortNo) (timer : StpTimer) : Stp :=
  s.setPort p fun q => { q with messageAgeTimer := timer }

theorem clock_setMessageAge (s : Stp) (p : PortNo) (timer : StpTimer) : (s.setMessageAge p timer).clock = s.clock :=
  clock_setPort rfl rfl

theorem tickMessageAge_of_lasts
    (hlast : (s.ports p).messageAgeTimer.active = true → (s.ports p).messageAgeTimer.value + elapsed < s.maxAge) :
    ∃ timer, timer.active = (s.ports p).messageAgeTimer.active ∧
      tickMessageAge elapsed p s = s.setMessageAge p timer := by
  rw [tickMessageAge, stpTimerExpired]
  by_cases hactive : (s.ports p).messageAgeTimer.active = true
  · rw [if_pos hactive, if_neg (not_le.2 (hlast hactive))]
    exact ⟨_, hactive.symm, rfl⟩
  · rw [if_neg hactive]
    exact ⟨_, rfl, rfl⟩

theorem tickMessageAge_of_expired (hactive : (s.ports p).messageAgeTimer.active = true)
    (hexpired : s.maxAge ≤ (s.ports p).messageAgeTimer.value + elapsed) :
    ∃ timer : StpTimer, timer.active = false ∧
      tickMessageAge elapsed p s = stpMessageAgeTimerExpiry p (s.setMessageAge p timer) := by
  rw [tickMessageAge, stpTimerExpired, if_pos hactive, if_pos hexpired]
  exact ⟨_, rfl, rfl⟩

/-- The first loop of `stp_tick` over the ports when no timer expires in it. -/
theorem OnTime.messageAgeLoop_of_lasts (h : OnTime pending s) (hlast : MessagesLast s elapsed) :
    OnTime pending (forEachEnabledPort (tickMessageAge elapsed) s) := by
  refine (forEachEnabledPort_visits (I := fun done u => OnTime pending u ∧ u.maxAge = s.maxAge ∧
    ∀ p, p ∉ done → u.ports p = s.ports p) ⟨h, rfl, fun _ _ => rfl⟩ ?_ ?_).1
  · rintro done p u hfresh ⟨hu, hmaxAge, hleft⟩ henabled
    have hsame := hleft p hfresh
    rw [Stp.enabled, hsame] at henabled
    obtain ⟨timer, -, htick⟩ := tickMessageAge_of_lasts (s := u) (p := p) fun hactive => by
      rw [hsame, hmaxAge]
      exact hlast p ⟨henabled, hsame ▸ hactive⟩
    rw [htick]
    refine ⟨hu.of_clock (clock_setMessageAge u p timer), hmaxAge, fun q hq => ?_⟩
    rw [mem_append, not_or, mem_singleton] at hq
    rw [Stp.setMessageAge, Stp.setPort_ports_of_ne hq.2]
    exact hleft q hq.1
  · grind

/-- Selecting roles and states makes no port wait. -/
def FewerWait (s t : Stp) : Prop := ∀ p, Waits t p → Waits s p

theorem FewerWait.trans {u : Stp} (h : FewerWait s t) (h' : FewerWait t u) : FewerWait s u :=
  fun p hp => h p (h' p hp)

theorem fewerWait_of_core (h : t.core = s.core) : FewerWait s t := by
  intro p hp
  have htimer : (t.ports p).messageAgeTimer = (s.ports p).messageAgeTimer :=
    congrArg (fun u => (u.ports p).messageAgeTimer) h
  rw [Waits, Stp.enabled, state_of_core h, htimer] at hp
  exact hp

theorem fewerWait_setPort
    (hstate : (f (s.ports p)).state ≠ .disabled → (s.ports p).state ≠ .disabled)
    (htimer : (f (s.ports p)).messageAgeTimer.active = true → (s.ports p).messageAgeTimer.active = true) :
    FewerWait s (s.setPort p f) := by
  rintro q ⟨henabled, hactive⟩
  by_cases hq : q = p
  · subst hq
    rw [Stp.enabled, Stp.setPort_ports_self] at henabled
    rw [Stp.setPort_ports_self] at hactive
    exact ⟨hstate henabled, htimer hactive⟩
  · rw [Stp.enabled, Stp.setPort_ports_of_ne hq] at henabled
    rw [Stp.setPort_ports_of_ne hq] at hactive
    exact ⟨henabled, hactive⟩

theorem fewerWait_forEachEnabledPort {f : PortNo → Stp → Stp} (hf : ∀ p s, s.enabled p → FewerWait s (f p s)) (s : Stp) :
    FewerWait s (forEachEnabledPort f s) :=
  forEachEnabledPort_invariant (I := FewerWait s) (fun p t ht hp => ht.trans (hf p t hp)) fun _ h => h

theorem fewerWait_stpConfigurationUpdate (s : Stp) : FewerWait s (stpConfigurationUpdate s) := by
  have hroot : FewerWait s (stpRootSelection s) := by
    rw [stpRootSelection]
    split
    · exact fun _ h => h
    · exact fun _ h => h
  refine hroot.trans (fewerWait_forEachEnabledPort (fun p t _ => ?_) _)
  split
  · exact fewerWait_setPort (fun h => h) fun h => h
  · exact fun _ h => h

theorem fewerWait_stpSetPortState (henabled : s.enabled p) (state : StpState) :
    FewerWait s (stpSetPortState p state s) := by
  rw [stpSetPortState]
  split
  · exact FewerWait.trans (t := { s with history := s.history ++ [.entered p state s.forwardDelay] }) (fun _ h => h)
      (fewerWait_setPort (fun _ => henabled) fun h => h)
  · exact fewerWait_setPort (fun _ => henabled) fun h => h

theorem fewerWait_selectState (henabled : s.enabled p) : FewerWait s (selectState p s) := by
  have hclear {u : Stp} {timer : StpPort → StpTimer} (hu : FewerWait s u) :
      FewerWait s (u.setPort p fun q => { q with forwardDelayTimer := timer q }) :=
    hu.trans (fewerWait_setPort (fun h => h) fun h => h)
  refine selectState_of (P := fun t => FewerWait s t ∧ t.enabled p) ?_ ⟨fun _ h => h, henabled⟩ (fun ht => ht.1)
    ⟨fewerWait_setPort (fun h => h) fun h => absurd h (by simp [stpStopTimer]), ?_⟩
    (fun ht _ => hclear (ht.1.trans (fewerWait_stpSetPortState ht.2 _)))
    fun ht _ => hclear (ht.1.trans (fewerWait_stpSetPortState ht.2 _))
  · rintro t u hc ⟨ht, hp⟩
    exact ⟨ht.trans (fewerWait_of_core hc), (SameVector.of_core hc).enabled_iff.2 hp⟩
  · rw [Stp.enabled, Stp.setPort_ports_self]
    exact henabled

theorem fewerWait_stpMessageAgeTimerExpiry (p : PortNo) (s : Stp) : FewerWait s (stpMessageAgeTimerExpiry p s) := by
  have hselected : FewerWait s (stpPortStateSelection (stpConfigurationUpdate (stpBecomeDesignatedPort p s))) :=
    (FewerWait.trans (fewerWait_setPort (fun h => h) fun h => h)
      (fewerWait_stpConfigurationUpdate (stpBecomeDesignatedPort p s))).trans
      (fewerWait_forEachEnabledPort (fun _ _ hq => fewerWait_selectState hq) _)
  exact stpBecomeRootBridge_of (fun hc ht => ht.trans (fewerWait_of_core hc)) hselected

theorem noneBlocking_of_clock (hc : t.clock = s.clock) (h : ∀ q, s.enabled q → (s.ports q).state ≠ .blocking) :
    ∀ q, t.enabled q → (t.ports q).state ≠ .blocking := by
  intro q hq
  have hstate : (t.ports q).state = (s.ports q).state := congrArg (fun c => (c.2.2 q).1) hc
  rw [Stp.enabled, hstate] at hq
  rw [hstate]
  exact h q hq

/-- When a message age timer expires and no port is blocking, no port starts to listen. -/
theorem OnTime.messageAgeTimerExpiry (h : OnTime pending s) (hblocking : ∀ q, s.enabled q → (s.ports q).state ≠ .blocking) :
    OnTime pending (stpMessageAgeTimerExpiry p s) := by
  have hclock : (stpConfigurationUpdate (stpBecomeDesignatedPort p s)).clock = s.clock :=
    (clock_stpConfigurationUpdate _).trans (clock_setPort rfl rfl)
  have hnone := noneBlocking_of_clock hclock hblocking
  exact ((h.of_clock hclock).portStateSelection fun q hq => .inr (hnone q hq)).becomeRootBridge_of

/-- The first loop of `stp_tick` over the ports when no port is blocking. -/
theorem OnTime.messageAgeLoop_of_noneBlocking (h : OnTime pending s) (hnone : NoneBlocking s) :
    OnTime pending (forEachEnabledPort (tickMessageAge elapsed) s) := by
  obtain ⟨hblocking, last, hlast⟩ := hnone
  -- after the only timer that can expire has expired, ports may be blocking, but no port waits
  have hloop := forEachEnabledPort_invariant
    (I := fun t => OnTime pending t ∧ (∀ q, Waits t q → q = last) ∧
      ((∀ q, t.enabled q → (t.ports q).state ≠ .blocking) ∨ ∀ q, ¬ Waits t q))
    (f := tickMessageAge elapsed) ?_ ⟨h, hlast, .inl hblocking⟩
  · exact hloop.1
  rintro p t ⟨ht, hlast, hquiet⟩ henabled
  by_cases hexpired : (t.ports p).messageAgeTimer.active = true ∧ t.maxAge ≤ (t.ports p).messageAgeTimer.value + elapsed
  · obtain ⟨timer, hstopped, htick⟩ := tickMessageAge_of_expired hexpired.1 hexpired.2
    have hb := hquiet.resolve_right fun hw => hw p ⟨henabled, hexpired.1⟩
    have hfewer : FewerWait t (t.setMessageAge p timer) := fewerWait_setPort (fun h => h) fun _ => hexpired.1
    have hnone : ∀ q, ¬ Waits (t.setMessageAge p timer) q := by
      intro q hq
      have hqp : q = p := (hlast q (hfewer q hq)).trans (hlast p ⟨henabled, hexpired.1⟩).symm
      have hwaits := hq.2
      rw [hqp, Stp.setMessageAge, Stp.setPort_ports_self, hstopped] at hwaits
      exact absurd hwaits Bool.false_ne_true
    have hexpiry := fewerWait_stpMessageAgeTimerExpiry p (t.setMessageAge p timer)
    have hclock := clock_setMessageAge t p timer
    rw [htick]
    exact ⟨(ht.of_clock hclock).messageAgeTimerExpiry (noneBlocking_of_clock hclock hb),
      fun q hq => absurd (hexpiry q hq) (hnone q), .inr fun q hq => hnone q (hexpiry q hq)⟩
  · obtain ⟨timer, htimer, htick⟩ := tickMessageAge_of_lasts (s := t) (p := p) fun hactive =>
      not_le.1 fun hle => hexpired ⟨hactive, hle⟩
    have hfewer : FewerWait t (t.setMessageAge p timer) := fewerWait_setPort (fun h => h) fun h => htimer ▸ h
    have hclock := clock_setMessageAge t p timer
    rw [htick]
    exact ⟨ht.of_clock hclock, fun q hq => hlast q (hfewer q hq),
      hquiet.imp (noneBlocking_of_clock hclock) fun hw q hq => hw q (hfewer q hq)⟩

theorem maxAge_stpConfigBpduGeneration (s : Stp) : (stpConfigBpduGeneration s).maxAge = s.maxAge := by
  refine forEachEnabledPort_invariant (I := fun t => t.maxAge = s.maxAge) (fun p t ht _ => ?_) rfl
  split
  · rw [stpTransmitConfig]
    split
    · exact ht
    split
    · exact ht
    split
    · exact ht
    · exact ht
  · exact ht

theorem maxAge_tickBridge (elapsed : Int) (s : Stp) : (tickBridge elapsed s).maxAge = s.maxAge := by
  have hhello (t : Stp) : (stpHelloTimerExpiry t).maxAge = t.maxAge := maxAge_stpConfigBpduGeneration t
  have htcn (t : Stp) : (stpTcnTimerExpiry t).maxAge = t.maxAge := by
    rw [stpTcnTimerExpiry, stpTransmitTcn]
    split
    · rfl
    · rfl
  have hstep (b : Bool) (f : Stp → Stp) (hf : ∀ t, (f t).maxAge = t.maxAge) (t : Stp) :
      (if b then f t else t).maxAge = t.maxAge := by
    split
    · exact hf t
    · rfl
  rw [tickBridge]
  rw [hstep _ stpTopologyChangeTimerExpiry fun _ => rfl]
  simp [*]

/-! ### The clock -/

/-- A call of `stp_tick` that counts all its milliseconds: they and the remainder are whole timer ticks, up to the next
remainder, and the product with 256 fits into an `int`. -/
structure CountsAll (s : Stp) (ms : Int) : Prop where
  nonneg : 0 ≤ ms
  fits : (ms + s.elapsedRemainder) * 256 < 2 ^ 31
  whole : s.elapsed ms % 32 = 0

/-- The conversions of a call whose milliseconds fit. -/
theorem Stp.tick_of_fits (hms : 0 ≤ ms) (hnonneg : 0 ≤ s.elapsedRemainder)
    (hfits : (ms + s.elapsedRemainder) * 256 < 2 ^ 31) :
    s.sinceTick ms = ms + s.elapsedRemainder ∧ s.elapsed ms = (ms + s.elapsedRemainder) * 256 / 1000 ∧
      timerToMs (s.elapsed ms) = s.elapsed ms * 1000 / 256 ∧
      asInt (s.sinceTick ms - timerToMs (s.elapsed ms)) = s.sinceTick ms - timerToMs (s.elapsed ms) := by
  have hclamp : clamp ms 0 (intMax - 1000) = ms := by
    rw [clamp, intMax, if_neg (by omega), if_neg (by omega)]
  have hsince : s.sinceTick ms = ms + s.elapsedRemainder := by
    rw [Stp.sinceTick, hclamp, asInt_of_fits (by omega) (by omega)]
  have helapsed : s.elapsed ms = (ms + s.elapsedRemainder) * 256 / 1000 := by
    rw [Stp.elapsed, hsince, msToTimer, asInt_of_fits (by omega) (by omega), Int.tdiv_eq_ediv_of_nonneg (by omega)]
  have hms' : timerToMs (s.elapsed ms) = s.elapsed ms * 1000 / 256 := by
    rw [timerToMs, asInt_of_fits (by omega) (by omega), Int.tdiv_eq_ediv_of_nonneg (by omega)]
  exact ⟨hsince, helapsed, hms', asInt_of_fits (by omega) (by omega)⟩

/-- The timer ticks that pass and the new remainder are the milliseconds and the old one. -/
theorem CountsAll.spec (h : CountsAll s ms) (hnonneg : 0 ≤ s.elapsedRemainder) (hle : s.elapsedRemainder ≤ 3) :
    let remainder := asInt (s.sinceTick ms - timerToMs (s.elapsed ms))
    0 ≤ s.elapsed ms ∧ 0 ≤ remainder ∧ remainder ≤ 3 ∧
      s.elapsed ms * 1000 + remainder * 256 = (ms + s.elapsedRemainder) * 256 := by
  have hwhole := h.whole
  obtain ⟨hsince, helapsed, hms, hremainder⟩ := Stp.tick_of_fits h.nonneg hnonneg h.fits
  have hms' := h.nonneg
  omega

/-- The bridge when `stp_tick` begins to look at its timers. -/
def Stp.started (s : Stp) (ms : Int) : Stp :=
  { s with elapsedRemainder := asInt (s.sinceTick ms - timerToMs (s.elapsed ms)), history := s.history ++ [.ticked ms] }

/-- The time of a call of `stp_tick` is pending for all ports when it begins. -/
theorem OnTime.start (h : OnTime 0 s) (hcounts : CountsAll s ms) : OnTime (fun _ => s.elapsed ms) (s.started ms) := by
  obtain ⟨-, hnonneg, hle, hsum⟩ := hcounts.spec h.remainder_nonneg h.remainder_le
  refine ⟨hnonneg, hle, h.history.snoc fun p fd heq => absurd heq (by simp), fun p => ?_⟩
  refine (h.progress p).append (quiet_ticked ms) ?_
  rw [passed, passed, Pi.zero_apply]
  dsimp only [Stp.started]
  omega

theorem OnTime.tick (h : OnTime 0 s) (hcounts : CountsAll s ms)
    (hages : MessagesLast s (s.elapsed ms) ∨ NoneBlocking s) : OnTime 0 (stpTick ms s) := by
  have hstart := h.start hcounts
  have helapsed := (hcounts.spec h.remainder_nonneg h.remainder_le).1
  rw [stpTick]
  split
  next hzero =>
    rw [Stp.started, hzero] at hstart
    rw [hzero]
    exact hstart
  · refine OnTime.forwardDelayLoop helapsed ?_
    -- before the ports' turn, nothing has changed for them
    have hcore := core_tickBridge (s.elapsed ms) (s.started ms)
    have hbridge := hstart.of_clock (clock_of_core hcore)
    have hwait := fewerWait_of_core hcore
    rcases hages with hlast | ⟨hblocking, last, hlast⟩
    · refine hbridge.messageAgeLoop_of_lasts fun p hp => ?_
      have htimer := congrArg (fun u => (u.ports p).messageAgeTimer.value) hcore
      have hmaxAge := maxAge_tickBridge (s.elapsed ms) (s.started ms)
      exact (congrArg (· + s.elapsed ms) htimer).trans_lt ((hlast p (hwait p hp)).trans_eq hmaxAge.symm)
    · have hnone := noneBlocking_of_clock (s := s.started ms) (clock_of_core hcore) hblocking
      exact hbridge.messageAgeLoop_of_noneBlocking ⟨hnone, last, fun p hp => hlast p (hwait p hp)⟩

end

/-! ## Runs -/

/-- The calls after which no port forwards early: `stp_tick` counts all its milliseconds, and no message age timer
expires in it while a port is blocking. -/
def KeepsDelay (s : Stp) : Call → Prop
  | .tick ms => CountsAll s ms ∧ (MessagesLast s (s.elapsed ms) ∨ NoneBlocking s)
  | _ => True

theorem onTime_stpCreate (bridgeId : Nat) : OnTime 0 (stpCreate bridgeId) := by
  refine OnTime.of_clock ?_ (clock_of_core (core_stpUpdateBridgeTimers _))
  exact ⟨le_refl _, show (0 : Int) ≤ 3 by decide, fun p before fd after heq => absurd heq (by simp), fun p => trivial⟩

theorem OnTime.step {s : Stp} {call : Call} (h : OnTime 0 s) (hkeeps : KeepsDelay s call) : OnTime 0 (call.run s) := by
  cases call with
  | tick ms => exact h.tick hkeeps.1 hkeeps.2
  | setBridgeId bridgeId => exact h.setBridgeId _
  | setBridgePriority newPriority => exact h.setBridgeId _
  | setHelloTime ms => exact h.of_core (core_stpUpdateBridgeTimers _)
  | setMaxAge ms => exact h.of_core (core_stpUpdateBridgeTimers _)
  | setForwardDelay ms => exact h.of_core (core_stpUpdateBridgeTimers _)
  | checkAndResetFdbFlush => exact h.of_clock rfl
  | receivedBpdu p bpdu =>
    exact stpReceivedBpdu_of (fun hc ht => ht.of_core hc) h fun _ _ => (h.of_clock (clock_setPort rfl rfl)).reselect
  | portDisable p => exact h.portDisable p
  | portEnable p => exact h.portEnable p
  | portSetPriority p newPriority => exact h.portSetPriority p newPriority
  | portSetPathCost p pathCost => exact h.portSetPathCost p pathCost
  | portSetSpeed p speed => exact h.portSetPathCost p _
  | portSetChangeDetection enabled p => exact h.of_clock (clock_setPort rfl rfl)
  | unixctlTcn => exact h.of_core (core_stpTopologyChangeDetection s)

/-- In a run in which every `stp_tick` counts all its milliseconds, and in which no message age timer expires while a
port is blocking, no port forwards early. -/
theorem noEarlyForwarding_of_run {bridgeId : Nat} {calls : List Call} {s : Stp}
    (h : Run.Meets Step KeepsDelay (stpCreate bridgeId) calls s) : NoEarlyForwarding s.history := by
  have hinv : ∀ s call s', OnTime 0 s → KeepsDelay s call → Step s call s' → OnTime 0 s' := by
    rintro s call _ hs hkeeps rfl
    exact hs.step hkeeps
  exact (h.invariant hinv (onTime_stpCreate bridgeId)).history

/-- A port of a root bridge forwards after twice fifteen seconds. -/
theorem noEarlyForwarding_alone :
    let s := (Call.tick 15000).run ((Call.tick 15000).run ((Call.portEnable 0).run (stpCreate 7)))
    s.history = [.entered 0 .blocking 3840, .entered 0 .listening 3840, .ticked 15000, .entered 0 .learning 3840,
      .ticked 15000, .entered 0 .forwarding 3840] ∧ NoEarlyForwarding s.history := by
  have hfirst : KeepsDelay ((Call.portEnable 0).run (stpCreate 7)) (.tick 15000) :=
    ⟨⟨by decide, by decide +kernel, by decide +kernel⟩, .inl (by unfold MessagesLast; decide +kernel)⟩
  have hsecond : KeepsDelay ((Call.tick 15000).run ((Call.portEnable 0).run (stpCreate 7))) (.tick 15000) :=
    ⟨⟨by decide, by decide +kernel, by decide +kernel⟩, .inl (by unfold MessagesLast; decide +kernel)⟩
  have hrun : Run.Meets Step KeepsDelay (stpCreate 7) [.portEnable 0, .tick 15000, .tick 15000] _ :=
    .cons trivial rfl (.cons hfirst rfl (.cons hsecond rfl (.nil _)))
  exact ⟨by decide +kernel, noEarlyForwarding_of_run hrun⟩

/-! ## Ports that forward early -/

/-- The event is that the port `p` enters a state. -/
def Event.of (p : PortNo) : Event → Bool
  | .ticked _ => false
  | .entered q _ _ => q = p

/-- A history from its end back to the last state that the port `p` has entered. -/
def lastStretch (p : PortNo) (history : List Event) : List Event × List Event :=
  (history.reverse.takeWhile fun event => !event.of p, history.reverse.dropWhile fun event => !event.of p)

theorem passed_reverse : ∀ h : List Event, passed h.reverse = passed h
  | [] => rfl
  | .ticked ms :: h => by
    rw [reverse_cons, passed_append, passed_reverse h, passed, passed, passed]
    omega
  | .entered _ _ _ :: h => by
    rw [reverse_cons, passed_append, passed_reverse h, passed, passed, passed]
    omega

theorem Entered.lastStretch_eq {p : PortNo} {state : StpState} {fd : Int} {before since history : List Event}
    (h : Entered p state fd before since history) :
    lastStretch p history = (since.reverse, .entered p state fd :: before.reverse) := by
  obtain ⟨rfl, hquiet⟩ := h
  have hsince : ∀ event ∈ since.reverse, (!event.of p) = true := by
    intro event hmem
    cases event with
    | ticked ms => rfl
    | entered q state fd =>
      have hq : q ≠ p := by
        rintro rfl
        exact hquiet state fd (mem_reverse.1 hmem)
      simp [Event.of, hq]
  have hhead : (!(Event.entered p state fd).of p) = false := by simp [Event.of]
  rw [lastStretch, reverse_append, reverse_cons, append_assoc, singleton_append,
    takeWhile_append_of_pos hsince, dropWhile_append_of_pos hsince, takeWhile_cons_of_neg (by simp [hhead]),
    dropWhile_cons_of_neg (by simp [hhead]), append_nil]

/-- The time that a port has been listening can be read off the history. -/
theorem Delayed.listening {p : PortNo} {history : List Event} {forwardDelay : Int} (h : Delayed p history forwardDelay) :
    ∃ fd, (lastStretch p history).2.head? = some (.entered p .learning fd) ∧
      (fd - 1) * 1000 ≤ passed (lastStretch p (lastStretch p history).2.tail.reverse).1 * 256 := by
  obtain ⟨fd, before, since, hentered, ⟨fd', before', since', hentered', -, hlasts⟩, -⟩ := h
  refine ⟨fd, by rw [hentered.lastStretch_eq]; rfl, ?_⟩
  rw [hentered.lastStretch_eq, tail_cons, reverse_reverse, hentered'.lastStretch_eq, passed_reverse]
  exact hlasts

theorem not_noEarlyForwarding {p : PortNo} {history : List Event} (before after : List Event) (fd fd' : Int)
    (heq : history = before ++ .entered p .forwarding fd :: after)
    (hhead : (lastStretch p before).2.head? = some (.entered p .learning fd'))
    (hshort : passed (lastStretch p (lastStretch p before).2.tail.reverse).1 * 256 < (fd' - 1) * 1000) :
    ¬ NoEarlyForwarding history := by
  intro h
  obtain ⟨fd'', hhead', hlasts⟩ := (h p before fd after heq).listening
  rw [hhead] at hhead'
  obtain ⟨-, -, rfl⟩ := Event.entered.inj (Option.some.inj hhead')
  omega

/-- A blocking port starts to listen when the message age timers expire and is learning in the same call; and in calls
of 3 ms each timer tick is counted for 3 ms. -/
theorem earlyForwarding_after_ticks : ¬ NoEarlyForwarding (runCalls (stpCreate 7)
      [.portEnable 0, .portEnable 1, .receivedBpdu 0 (rootBpdu 5 2 0x8001 3840),
        .receivedBpdu 1 (rootBpdu 6 3 0x8001 3840), .tick 20000, .tick 15000]).history ∧
    ¬ NoEarlyForwarding (runCalls (stpCreate 7)
      ([.portEnable 0, .receivedBpdu 0 (rootBpdu 5 2 0x8001 8), .tick 4] ++ List.replicate 15 (.tick 3))).history := by
  constructor
  · refine not_noEarlyForwarding (p := 1)
      [.entered 0 .blocking 3840, .entered 0 .listening 3840, .entered 1 .blocking 3840, .entered 1 .listening 3840,
        .entered 1 .blocking 3840, .ticked 20000, .entered 1 .listening 3840, .entered 0 .learning 3840,
        .entered 1 .learning 3840, .ticked 15000, .entered 0 .forwarding 3840] [] 3840 3840 ?_ (by decide) (by decide)
    decide +kernel
  · refine not_noEarlyForwarding (p := 0)
      ([.entered 0 .blocking 3840, .entered 0 .listening 3840, .ticked 4] ++ List.replicate 7 (.ticked 3) ++
        [.entered 0 .learning 8] ++ List.replicate 8 (.ticked 3)) [] 8 8 ?_ (by decide) (by decide)
    decide +kernel

end LinkerOvs.SpanningTree
