/-
The state machine that reconnects to a peer (`lib/reconnect.c`): when a connection attempt fails or a connection is
dropped it waits for a time that doubles between two bounds, which may be set anew at any time.
-/
import LinkerOvs.Lib.Run
import LinkerOvs.Util.ByteOrder

namespace LinkerOvs.Reconnect

inductive State
  | void
  | backoff
  | connecting
  | active
  | idle
  | reconnect
  | listening
deriving DecidableEq

/-- `struct reconnect`, without its name and its statistics. `failedAt` is the time of the failure after which the
machine backs off, if that is why it does. -/
structure Fsm where
  minBackoff : Int
  maxBackoff : Int
  probeInterval : Int
  passive : Bool
  state : State
  stateEntered : Int
  backoff : Int
  lastActivity : Int
  lastConnected : Int
  maxTries : Nat
  failedAt : Option Int

/-- `enum reconnect_action`. -/
inductive Action
  | connect
  | disconnect
  | probe
deriving DecidableEq

def reconnectDefaultMaxBackoff : Int := 8000
def llongMax : Int := 2 ^ 63 - 1

variable (now : Int) (fsm : Fsm)

def reconnectCreate : Fsm :=
  { minBackoff := 1000, maxBackoff := reconnectDefaultMaxBackoff, probeInterval := 5000, passive := false
    state := .void, stateEntered := now, backoff := 0, lastActivity := now, lastConnected := llongMax
    maxTries := uintMax, failedAt := none }

def reconnectTransition (state : State) (fsm : Fsm) : Fsm :=
  { fsm with state := state, stateEntered := now }

/-- Whether there are tries left, and the machine with one less. -/
def reconnectMayRetry : Bool × Fsm :=
  (0 < fsm.maxTries, { fsm with
    maxTries := if 0 < fsm.maxTries ∧ fsm.maxTries ≠ uintMax then fsm.maxTries - 1 else fsm.maxTries })

def reconnectSetBackoff (minBackoff maxBackoff : Int) (fsm : Fsm) : Fsm :=
  let min := max minBackoff 1000
  let limit := if maxBackoff ≠ 0 then max maxBackoff 1000 else reconnectDefaultMaxBackoff
  { fsm with
    minBackoff := min
    maxBackoff := if limit < min then min else limit
    -- compared with and set to the argument, not to the bound made of it
    backoff := if fsm.state = .backoff ∧ maxBackoff < fsm.backoff then maxBackoff else fsm.backoff }

/-- Backing off at once: the end of `reconnect_enable` and of `reconnect_set_passive`. -/
def backOffAtOnce : Fsm :=
  { reconnectTransition now .backoff fsm with backoff := 0, failedAt := none }

def reconnectSetPassive (passive : Bool) (now : Int) (fsm : Fsm) : Fsm :=
  if fsm.passive = passive then fsm
  else
    let fsm := { fsm with passive := passive }
    if passive then
      if fsm.state = .connecting ∨ fsm.state = .reconnect then backOffAtOnce now fsm else fsm
    else if fsm.state = .listening then
      let (mayRetry, fsm) := reconnectMayRetry fsm
      if mayRetry then backOffAtOnce now fsm else fsm
    else fsm

def reconnectEnable : Fsm :=
  if fsm.state = .void then
    let (mayRetry, fsm) := reconnectMayRetry fsm
    if mayRetry then backOffAtOnce now fsm else fsm
  else fsm

def Fsm.nextBackoff : Int :=
  if (fsm.state = .active ∨ fsm.state = .idle) ∧
      (fsm.backoff ≤ fsm.lastActivity - fsm.lastConnected ∨ fsm.passive) then
    if fsm.passive then 0 else fsm.minBackoff
  else if fsm.backoff < fsm.minBackoff then fsm.minBackoff
  else if fsm.maxBackoff / 2 ≤ fsm.backoff then fsm.maxBackoff
  else fsm.backoff * 2

def reconnectDisconnected : Fsm :=
  if fsm.state = .backoff ∨ fsm.state = .void then fsm
  else
    let (mayRetry, fsm) := reconnectMayRetry { fsm with backoff := fsm.nextBackoff }
    { reconnectTransition now (if mayRetry then .backoff else .void) fsm with failedAt := some now }

def reconnectConnecting : Fsm :=
  if fsm.state = .connecting then fsm else reconnectTransition now .connecting fsm

def reconnectConnected : Fsm :=
  if fsm.state = .active ∨ fsm.state = .idle then fsm
  else { reconnectTransition now .active (reconnectConnecting now fsm) with lastConnected := now }

def reconnectActivity : Fsm :=
  { (if fsm.state = .active then fsm else reconnectTransition now .active fsm) with lastActivity := now }

/-- `none` is `LLONG_MAX`. -/
def reconnectDeadline : Option Int :=
  match fsm.state with
  | .void | .listening => none
  | .backoff => some (fsm.stateEntered + fsm.backoff)
  | .connecting => some (fsm.stateEntered + max 1000 fsm.backoff)
  | .active =>
    if fsm.probeInterval ≠ 0 then some (max fsm.lastActivity fsm.stateEntered + fsm.probeInterval) else none
  | .idle => if fsm.probeInterval ≠ 0 then some (fsm.stateEntered + fsm.probeInterval) else none
  | .reconnect => some fsm.stateEntered

/-- What the client should do, and the machine. -/
def reconnectRun : Option Action × Fsm :=
  if (reconnectDeadline fsm).any (· ≤ now) then
    match fsm.state with
    | .void | .listening => (none, fsm)
    | .backoff => (some .connect, fsm)
    | .active => (some .probe, reconnectTransition now .idle fsm)
    | .connecting | .idle | .reconnect => (some .disconnect, fsm)
  else (none, fsm)

/-- The calls that change the machine. -/
inductive Call
  | setMaxTries (maxTries : Nat)
  | setBackoff (minBackoff maxBackoff : Int)
  | setProbeInterval (probeInterval : Int)
  | setPassive (passive : Bool) (now : Int)
  | enable (now : Int)
  | disable (now : Int)
  | forceReconnect (now : Int)
  | disconnected (now : Int)
  | connecting (now : Int)
  | listening (now : Int)
  | listenError (now : Int)
  | connected (now : Int)
  | connectFailed (now : Int)
  | activity (now : Int)
  | run (now : Int)

def Call.apply : Call → Fsm
  | .setMaxTries maxTries => { fsm with maxTries := maxTries }
  | .setBackoff minBackoff maxBackoff => reconnectSetBackoff minBackoff maxBackoff fsm
  | .setProbeInterval interval => { fsm with probeInterval := if interval ≠ 0 then max 1000 interval else 0 }
  | .setPassive passive now => reconnectSetPassive passive now fsm
  | .enable now => reconnectEnable now fsm
  | .disable now => if fsm.state ≠ .void then reconnectTransition now .void fsm else fsm
  | .forceReconnect now =>
    if fsm.state = .connecting ∨ fsm.state = .active ∨ fsm.state = .idle then reconnectTransition now .reconnect fsm
    else fsm
  | .disconnected now => reconnectDisconnected now fsm
  | .connecting now => reconnectConnecting now fsm
  | .listening now => if fsm.state ≠ .listening then reconnectTransition now .listening fsm else fsm
  | .listenError now => if fsm.state = .listening then reconnectDisconnected now fsm else fsm
  | .connected now => reconnectConnected now fsm
  | .connectFailed now => reconnectDisconnected now (reconnectConnecting now fsm)
  | .activity now => reconnectActivity now fsm
  | .run now => (reconnectRun now fsm).2

def Step (call : Call) (fsm' : Fsm) : Prop := fsm' = call.apply fsm

/-! ## Backing off -/

/-- The machine stays active, and while it backs off after a failure no upper bound below a second is set. -/
def KeepsBackoff : Call → Prop
  | .setPassive passive _ => passive = false
  | .setBackoff _ maxBackoff => fsm.state = .backoff → fsm.failedAt.isSome → 1000 ≤ maxBackoff
  | _ => True

/-- The bounds are in order, and so is the time to wait after a failure. -/
structure Inv (fsm : Fsm) : Prop where
  active : fsm.passive = false
  min : 1000 ≤ fsm.minBackoff
  max : fsm.minBackoff ≤ fsm.maxBackoff
  waits : fsm.state = .backoff → ∀ t, fsm.failedAt = some t →
    fsm.stateEntered = t ∧ 1000 ≤ fsm.backoff ∧ fsm.backoff ≤ fsm.maxBackoff

section

variable {fsm : Fsm} (h : Inv fsm)
include h

theorem Inv.transition {state : State} (hstate : state ≠ .backoff) (now : Int) :
    Inv (reconnectTransition now state fsm) :=
  { h with waits := fun hs => absurd hs hstate }

theorem Inv.atOnce (now : Int) : Inv (backOffAtOnce now fsm) :=
  { h with waits := by rintro _ _ ⟨⟩ }

theorem Inv.setBackoff {minBackoff maxBackoff : Int}
    (hmax : fsm.state = .backoff → fsm.failedAt.isSome → 1000 ≤ maxBackoff) :
    Inv (reconnectSetBackoff minBackoff maxBackoff fsm) := by
  refine ⟨h.active, le_max_right _ _, ?_, fun hs t ht => ?_⟩
  · dsimp only [reconnectSetBackoff]
    split <;> omega
  · have hlimit := hmax hs (Option.isSome_of_eq_some ht)
    obtain ⟨hentered, hlow, hhigh⟩ := h.waits hs t ht
    refine ⟨hentered, ?_⟩
    dsimp only [reconnectSetBackoff] at hs ⊢
    grind

theorem Inv.nextBackoff : 1000 ≤ fsm.nextBackoff ∧ fsm.nextBackoff ≤ fsm.maxBackoff := by
  have hmin := h.min
  have hmax := h.max
  unfold Fsm.nextBackoff
  rw [h.active]
  grind

theorem Inv.disconnected (now : Int) : Inv (reconnectDisconnected now fsm) := by
  unfold reconnectDisconnected
  split
  · exact h
  · refine ⟨h.active, h.min, h.max, ?_⟩
    rintro _ _ ⟨⟩
    exact ⟨rfl, h.nextBackoff⟩

theorem Inv.connecting (now : Int) : Inv (reconnectConnecting now fsm) := by
  unfold reconnectConnecting
  split
  · exact h
  · exact h.transition (by decide) now

theorem Inv.step {call : Call} (hkeeps : KeepsBackoff fsm call) : Inv (call.apply fsm) := by
  cases call with
  | setMaxTries maxTries => exact { h with }
  | setBackoff minBackoff maxBackoff => exact h.setBackoff hkeeps
  | setProbeInterval interval => exact { h with }
  | setPassive passive now =>
    show Inv (reconnectSetPassive passive now fsm)
    rw [reconnectSetPassive, if_pos (h.active.trans hkeeps.symm)]
    exact h
  | enable now =>
    show Inv (reconnectEnable now fsm)
    unfold reconnectEnable
    have hretried : Inv (reconnectMayRetry fsm).2 := { h with }
    split
    · dsimp only
      split
      · exact hretried.atOnce now
      · exact hretried
    · exact h
  | disable now | listening now | forceReconnect now =>
    dsimp only [Call.apply]
    split
    · exact h.transition (by decide) now
    · exact h
  | disconnected now => exact h.disconnected now
  | connecting now => exact h.connecting now
  | listenError now =>
    dsimp only [Call.apply]
    split
    · exact h.disconnected now
    · exact h
  | connected now =>
    show Inv (reconnectConnected now fsm)
    unfold reconnectConnected
    split
    · exact h
    · exact { (h.connecting now).transition (show State.active ≠ .backoff by decide) now with }
  | connectFailed now => exact (h.connecting now).disconnected now
  | activity now =>
    show Inv (reconnectActivity now fsm)
    unfold reconnectActivity
    split
    · exact { h with }
    · exact { h.transition (show State.active ≠ .backoff by decide) now with }
  | run now =>
    show Inv (reconnectRun now fsm).2
    unfold reconnectRun
    split
    · split
      case h_4 => exact h.transition (by decide) now
      all_goals exact h
    · exact h

end

/-- In a run without a passive machine and without an upper bound below a second that is set after a failure, the
machine waits after a failure for at least a second and no longer than the upper bound. -/
theorem backoff_of_run {start : Int} {calls : List Call} {fsm : Fsm}
    (h : Run.Meets Step KeepsBackoff (reconnectCreate start) calls fsm) (hstate : fsm.state = .backoff) {t : Int}
    (hfailed : fsm.failedAt = some t) : 1000 ≤ fsm.backoff ∧ fsm.backoff ≤ fsm.maxBackoff ∧
      ∀ now, (reconnectRun now fsm).1 = some .connect → t + 1000 ≤ now := by
  have hinv : ∀ s call s', Inv s → KeepsBackoff s call → Step s call s' → Inv s' := by
    rintro s call _ hs hkeeps rfl
    exact hs.step hkeeps
  have hcreate : Inv (reconnectCreate start) :=
    ⟨rfl, le_refl _, (by decide : (1000 : Int) ≤ 8000), fun hs => by cases hs⟩
  obtain ⟨hentered, hlow, hhigh⟩ := (h.invariant hinv hcreate).waits hstate t hfailed
  refine ⟨hlow, hhigh, fun now hrun => ?_⟩
  unfold reconnectRun at hrun
  split at hrun
  next hdue =>
    rw [reconnectDeadline, hstate] at hdue
    have hle : fsm.stateEntered + fsm.backoff ≤ now := by simpa using hdue
    omega
  next => cases hrun

/-- An attempt fails ten milliseconds after the machine was enabled. -/
def failedOnce : Fsm := [.enable 0, .connecting 5, .connectFailed 10].foldl Call.apply (reconnectCreate 0)

theorem backoff_of_run_failedOnce : 1000 ≤ failedOnce.backoff ∧ failedOnce.backoff ≤ failedOnce.maxBackoff ∧
    ∀ now, (reconnectRun now failedOnce).1 = some .connect → 10 + 1000 ≤ now := by
  have hrun : Run.Meets Step KeepsBackoff (reconnectCreate 0) [.enable 0, .connecting 5, .connectFailed 10]
      failedOnce := .cons trivial rfl (.cons trivial rfl (.cons trivial rfl (.nil _)))
  exact backoff_of_run hrun rfl rfl

/-- Asking for the default bounds while the machine waits makes it try again at once. -/
theorem no_backoff_by_default : ((Call.setBackoff 0 0).apply failedOnce).backoff = 0 ∧
    (reconnectRun 10 ((Call.setBackoff 0 0).apply failedOnce)).1 = some .connect := by
  decide

end LinkerOvs.Reconnect
