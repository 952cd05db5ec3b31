/-
The clock of the spanning tree (`stp_tick` in `lib/stp.c`): milliseconds become timer ticks, 256 of them a second, and
what is left over is carried to the next call. The ticks are converted back with the rest of the division dropped, so
that a call which does not count whole eighths of a second carries up to a millisecond too much.
-/
import LinkerOvs.L2.StpDelay

namespace LinkerOvs.SpanningTree

/-! ## What is carried to the next call -/

theorem elapsedRemainder_of_core {s t : Stp} (h : t.core = s.core) : t.elapsedRemainder = s.elapsedRemainder :=
  congrArg (fun c => c.2.1) (clock_of_core h)

theorem Stp.setPort_elapsedRemainder (s : Stp) (p : PortNo) (f : StpPort → StpPort) :
    (s.setPort p f).elapsedRemainder = s.elapsedRemainder := rfl

theorem elapsedRemainder_forEachEnabledPort {f : PortNo → Stp → Stp}
    (hf : ∀ p t, (f p t).elapsedRemainder = t.elapsedRemainder) (s : Stp) :
    (forEachEnabledPort f s).elapsedRemainder = s.elapsedRemainder :=
  forEachEnabledPort_invariant (I := fun t => t.elapsedRemainder = s.elapsedRemainder)
    (fun p t ht _ => (hf p t).trans ht) rfl

theorem elapsedRemainder_selectState (p : PortNo) (s : Stp) :
    (selectState p s).elapsedRemainder = s.elapsedRemainder := by
  simp [selectState, stpMakeForwarding, stpMakeBlocking, stpSetPortState, Stp.setPort_elapsedRemainder,
    apply_ite Stp.elapsedRemainder, elapsedRemainder_of_core (core_stpTopologyChangeDetection _)]

theorem elapsedRemainder_tickMessageAge (elapsed : Int) (p : PortNo) (s : Stp) :
    (tickMessageAge elapsed p s).elapsedRemainder = s.elapsedRemainder := by
  have hselected (t : Stp) :
      (stpPortStateSelection (stpConfigurationUpdate (stpBecomeDesignatedPort p t))).elapsedRemainder =
        t.elapsedRemainder :=
    (elapsedRemainder_forEachEnabledPort elapsedRemainder_selectState _).trans
      (congrArg (fun c => c.2.1) (clock_stpConfigurationUpdate _))
  simp [tickMessageAge, stpMessageAgeTimerExpiry, apply_ite Stp.elapsedRemainder, hselected,
    elapsedRemainder_of_core (core_stpBecomeRootBridge _), Stp.setPort_elapsedRemainder]

theorem elapsedRemainder_tickForwardDelay (elapsed : Int) (p : PortNo) (s : Stp) :
    (tickForwardDelay elapsed p s).elapsedRemainder = s.elapsedRemainder := by
  simp [tickForwardDelay, stpForwardDelayTimerExpiry, stpSetPortState, Stp.setPort_elapsedRemainder,
    apply_ite Stp.elapsedRemainder, elapsedRemainder_of_core (core_stpTopologyChangeDetection _)]

theorem elapsedRemainder_stpTick (ms : Int) (s : Stp) :
    (stpTick ms s).elapsedRemainder = asInt (s.sinceTick ms - timerToMs (s.elapsed ms)) := by
  unfold stpTick
  dsimp only
  split
  · rfl
  · rw [elapsedRemainder_forEachEnabledPort fun p t =>
        (elapsedRemainder_of_core (core_tickHold _ p _)).trans (elapsedRemainder_tickForwardDelay _ p t),
      elapsedRemainder_forEachEnabledPort (elapsedRemainder_tickMessageAge _)]
    exact elapsedRemainder_of_core (core_tickBridge _ (s.started ms))

/-! ## A timer through many calls -/

/-- A call of `stp_tick` with its milliseconds, on a bridge and one of its timers, which expires at the given time. -/
def tickTimer (x : Stp × StpTimer) (call : Int × Int) : Stp × StpTimer :=
  (stpTick call.1 x.1,
    if x.1.elapsed call.1 = 0 then x.2 else (stpTimerExpired x.2 (x.1.elapsed call.1) call.2).2)

/-- A call after which the timer is active. -/
def TickStep (x : Stp × StpTimer) (call : Int × Int) (y : Stp × StpTimer) : Prop :=
  y = tickTimer x call ∧ y.2.active = true

/-- Every number that `stp_tick` computes is one of an `int`. -/
def NoOverflow (s : Stp) (ms : Int) : Prop :=
  ∀ x ∈ [ms + s.elapsedRemainder, s.sinceTick ms * 0x100, s.elapsed ms * 1000, s.sinceTick ms - timerToMs (s.elapsed ms)],
    -2 ^ 31 ≤ x ∧ x < 2 ^ 31

/-- The milliseconds of a call fit, and with what the last one left over they are at most three more than whole eighths
of a second. -/
def CountsEighths (x : Stp × StpTimer) (call : Int × Int) : Prop :=
  0 ≤ call.1 ∧ call.1 + x.1.elapsedRemainder < 2 ^ 23 ∧ (call.1 + x.1.elapsedRemainder) % 125 ≤ 3

/-- The timer has counted the milliseconds but for what is left over. -/
structure Counted (timer : StpTimer) (calls : List (Int × Int)) (x : Stp × StpTimer) : Prop where
  nonneg : 0 ≤ x.1.elapsedRemainder
  le : x.1.elapsedRemainder ≤ 3
  value : 1000 * (x.2.value - timer.value) = 256 * ((calls.map Prod.fst).sum - x.1.elapsedRemainder)

section

variable {x y : Stp × StpTimer} {call : Int × Int}

/-- A call that counts whole eighths of a second loses nothing and counts nothing twice. -/
theorem CountsEighths.spec (h : CountsEighths x call) (hnonneg : 0 ≤ x.1.elapsedRemainder) :
    NoOverflow x.1 call.1 ∧ (stpTick call.1 x.1).elapsedRemainder = (call.1 + x.1.elapsedRemainder) % 125 ∧
      x.1.elapsed call.1 = 32 * ((call.1 + x.1.elapsedRemainder) / 125) := by
  obtain ⟨hms, hfits, hwhole⟩ := h
  obtain ⟨hsince, helapsed, hback, hremainder⟩ := Stp.tick_of_fits hms hnonneg (by omega)
  have heighths : x.1.elapsed call.1 = 32 * ((call.1 + x.1.elapsedRemainder) / 125) := by
    rw [helapsed]
    omega
  have hwhole' : timerToMs (x.1.elapsed call.1) = 125 * ((call.1 + x.1.elapsedRemainder) / 125) := by
    omega
  refine ⟨?_, ?_, heighths⟩
  · simp only [NoOverflow, List.forall_mem_cons, List.not_mem_nil, false_imp_iff, implies_true, and_true]
    omega
  · rw [elapsedRemainder_stpTick]
    omega

theorem TickStep.value (h : TickStep x call y) : y.2.value = x.2.value + x.1.elapsed call.1 := by
  obtain ⟨rfl, hactive⟩ := h
  unfold tickTimer stpTimerExpired at hactive ⊢
  grind

theorem Counted.step {timer : StpTimer} {calls : List (Int × Int)} (h : Counted timer calls x)
    (hcounts : CountsEighths x call) (hstep : TickStep x call y) : Counted timer (calls ++ [call]) y := by
  obtain ⟨-, hremainder, helapsed⟩ := hcounts.spec h.nonneg
  have hvalue := h.value
  have hadd := hstep.value
  have hwhole := hcounts.2.2
  have hbridge : y.1 = stpTick call.1 x.1 := congrArg Prod.fst hstep.1
  rw [← hbridge] at hremainder
  refine ⟨by omega, by omega, ?_⟩
  grind

/-- While the calls count whole eighths of a second, a timer that stays active is less than two ticks from the time
that has passed, after however many calls, and the next call overflows nothing. -/
theorem stpTicks_noDrift {s : Stp} (h0 : s.elapsedRemainder = 0) {timer : StpTimer} {calls : List (Int × Int)}
    (h : Run.Meets TickStep CountsEighths (s, timer) calls x) :
    |1000 * (x.2.value - timer.value) - 256 * (calls.map Prod.fst).sum| < 2000 ∧
      ∀ call, CountsEighths x call → NoOverflow x.1 call.1 := by
  have hcounted : Counted timer calls x :=
    h.history ⟨h0.ge, by simp [h0], by simp [h0]⟩ fun _ _ _ _ _ hx hcounts hstep => hx.step hcounts hstep
  refine ⟨?_, fun call hcall => (hcall.spec hcounted.nonneg).1⟩
  have hlow := hcounted.nonneg
  have hhigh := hcounted.le
  have hvalue := hcounted.value
  rw [abs_lt]
  omega

/-- Two calls of two seconds and a quarter. -/
theorem stpTicks_noDrift_twice : let calls := [((2250, 4000) : Int × Int), (2250, 4000)]
    let x := calls.foldl tickTimer (stpCreate 7, ⟨true, 0⟩)
    |1000 * (x.2.value - 0) - 256 * (calls.map Prod.fst).sum| < 2000 := by
  have hrun : Run.Meets TickStep CountsEighths (stpCreate 7, ⟨true, 0⟩) [(2250, 4000), (2250, 4000)] _ :=
    .cons (by unfold CountsEighths; decide +kernel) ⟨rfl, by decide +kernel⟩
      (.cons (by unfold CountsEighths; decide +kernel) ⟨rfl, by decide +kernel⟩ (.nil _))
  exact (stpTicks_noDrift rfl hrun).1

/-- A bridge that is called every three milliseconds counts twelve ticks in the time of less than ten. -/
theorem stpTicks_drift : let calls := List.replicate 13 ((3, 4000) : Int × Int)
    let x := calls.foldl tickTimer (stpCreate 7, ⟨true, 0⟩)
    x.2.active = true ∧ 2000 ≤ 1000 * (x.2.value - 0) - 256 * (calls.map Prod.fst).sum := by
  decide +kernel

end

end LinkerOvs.SpanningTree
