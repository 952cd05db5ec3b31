/-
The commit of a bundle step by step: where `do_bundle_commit` is between two of its steps, and the step it
takes next. The loops of the commit are runs of these steps, so what every step keeps holds wherever a
reader of the tables looks in, and a commit from which no step aborts does not abort.
-/
import LinkerOvs.FlowTable.Bundle

namespace LinkerOvs.FlowTable

open Cls Ofp List

variable {M : Type}

/-- A point of a commit. `begun` lists the messages already begun, the last one first. -/
inductive CommitPoint (M : Type)
  | beginning (p : Ofproto M) (version : Nat) (prevIsPortMod : Bool) (begun : List (Begun M))
      (todo : List (BundleEntry M))
  | reverting (p : Ofproto M) (begun : List (Begun M))
  | finishing (p : Ofproto M) (todo : List (Begun M))
  | published (p : Ofproto M) (ofm : OfprotoFlowMod M) (todo : List (Begun M))
  | answered (p : Ofproto M) (answer : Except OfpErr Unit)

/-- The point where a commit starts. -/
def commitStart (p : Ofproto M) (msgs : List (BundleEntry M)) : CommitPoint M :=
  .beginning p (p.tablesVersion + 1) false [] msgs

def CommitPoint.ofproto : CommitPoint M → Ofproto M
  | .beginning p .. => p
  | .reverting p _ => p
  | .finishing p _ => p
  | .published p .. => p
  | .answered p _ => p

/-- The tables after the lookup version was raised to the one of a message. -/
def publish (p : Ofproto M) (version : Nat) : Ofproto M :=
  if p.tablesVersion < version then { p with tablesVersion := version } else p

variable [DecidableEq M] (env : Provider M) (flags : UInt16)

def commitStep : CommitPoint M → Except Abort (CommitPoint M)
  | .beginning p _ _ begun [] => .ok (.finishing p begun.reverse)
  | .beginning p version _ begun (.portMod pm :: todo) =>
    if flags &&& ofpbfAtomic ≠ 0 then .ok (.reverting p begun)
    else
      match portModStart p pm with
      | .error _ => .ok (.reverting p begun)
      | .ok port => .ok (.beginning p version true (.portMod pm port :: begun) todo)
  | .beginning p version prevIsPortMod begun (.flowMod fm :: todo) => do
    let version := if prevIsPortMod then version + 1 else version
    let (p, r) ← ofprotoFlowModStart env p ⟨fm, version, [], [], none⟩
    match r with
    | .error _ => .ok (.reverting p begun)
    | .ok ofm => .ok (.beginning p version false (.flowMod ofm :: begun) todo)
  | .reverting p [] => .ok (.answered p (.error .ofpbfcMsgFailed))
  | .reverting p (.portMod _ _ :: begun) => .ok (.reverting p begun)
  | .reverting p (.flowMod ofm :: begun) => do
    let p ← ofprotoFlowModRevert p ofm
    .ok (.reverting p begun)
  | .finishing p [] => .ok (.answered p (.ok ()))
  | .finishing p (.portMod pm port :: todo) => .ok (.finishing (portModFinish env p pm port) todo)
  | .finishing p (.flowMod ofm :: todo) => .ok (.published (publish p ofm.version) ofm todo)
  | .published p ofm todo => do
    let p ← ofprotoFlowModFinish env p ofm
    .ok (.finishing p todo)
  | .answered p answer => .ok (.answered p answer)

/-- The points that a commit comes to from a point. -/
inductive CommitReaches (c : CommitPoint M) : CommitPoint M → Prop
  | refl : CommitReaches c c
  | step {c₁ c₂ : CommitPoint M} (h : CommitReaches c c₁) (hstep : commitStep env flags c₁ = .ok c₂) : CommitReaches c c₂

/-- The loops of the commit after its first one. -/
def conclude (p : Ofproto M) (bs : List (Begun M)) : Option OfpErr → Except Abort (Ofproto M × Except OfpErr Unit)
  | some _ => do
    let p ← bundleRevert p bs
    .ok (p, .error .ofpbfcMsgFailed)
  | none => do
    let p ← bundleFinish env p bs
    .ok (p, .ok ())

/-- What is left of the commit, with the loops as the source has them. -/
def outcome : CommitPoint M → Except Abort (Ofproto M × Except OfpErr Unit)
  | .beginning p version prevIsPortMod begun todo => do
    let (p, bs, e) ← bundleBegin env flags p version prevIsPortMod todo
    conclude env p (begun.reverse ++ bs) e
  | .reverting p begun => conclude env p begun.reverse (some .ofpbfcMsgFailed)
  | .finishing p todo => conclude env p todo none
  | .published p ofm todo => do
    let p ← ofprotoFlowModFinish env p ofm
    conclude env p todo none
  | .answered p answer => .ok (p, answer)

def commitBundle (p : Ofproto M) (msgs : List (BundleEntry M)) : Except Abort (Ofproto M × Except OfpErr Unit) :=
  outcome env flags (commitStart p msgs)

theorem doBundleCommit_eq {sw : Switch M} {id : UInt32} {b : OfpBundle M} (hb : ofconnGetBundle sw.ofconn id = some b)
    (hflags : b.flags = flags) : doBundleCommit env sw id flags =
      commitBundle env flags sw.ofproto b.msgList >>= fun r =>
        .ok ({ sw with ofproto := r.1, ofconn := ofpBundleRemove sw.ofconn id }, r.2) := by
  unfold doBundleCommit commitBundle outcome commitStart
  rw [hb]
  dsimp only
  rw [if_neg (by simpa using hflags), bind_assoc]
  refine bind_congr fun r => ?_
  obtain ⟨p, bs, e⟩ := r
  cases e with
  | none =>
    simp only [conclude, bind_assoc]
    rfl
  | some e =>
    simp only [conclude, bind_assoc]
    rfl

/-- The loops are runs of the steps. -/
theorem outcome_eq (c : CommitPoint M) : outcome env flags c = commitStep env flags c >>= outcome env flags := by
  cases c with
  | beginning p version prevIsPortMod begun todo =>
    cases todo with
    | nil => simp [outcome, commitStep, bundleBegin]
    | cons entry todo =>
      cases entry with
      | portMod pm =>
        rw [outcome, commitStep, bundleBegin]
        by_cases hatomic : flags &&& ofpbfAtomic ≠ 0
        · simp [hatomic, outcome]
        · cases hport : portModStart p pm with
          | error e => simp [hatomic, outcome, conclude]
          | ok port => simp [hatomic, outcome, bind_assoc]
      | flowMod fm =>
        rw [outcome, commitStep, bundleBegin]
        simp only [bind_assoc]
        refine bind_congr fun r => ?_
        obtain ⟨p', r⟩ := r
        cases r with
        | error e => simp [outcome, conclude]
        | ok ofm => simp [outcome, bind_assoc]
  | reverting p begun =>
    cases begun with
    | nil => simp [outcome, commitStep, conclude, bundleRevert]
    | cons b begun =>
      cases b with
      | portMod pm port => simp [outcome, commitStep, conclude, bundleRevert]
      | flowMod ofm => simp [outcome, commitStep, conclude, bundleRevert, bind_assoc]
  | finishing p todo =>
    cases todo with
    | nil => simp [outcome, commitStep, conclude, bundleFinish]
    | cons b todo =>
      cases b with
      | portMod pm port => simp [outcome, commitStep, conclude, bundleFinish]
      | flowMod ofm => simp [outcome, commitStep, conclude, bundleFinish, publish, bind_assoc]
  | published p ofm todo => simp [outcome, commitStep, bind_assoc]
  | answered p answer => rfl

def CommitPoint.stepsLeft : CommitPoint M → Nat
  | .beginning _ _ _ begun todo => 3 * todo.length + 2 * begun.length + 2
  | .reverting _ begun => begun.length + 1
  | .finishing _ todo => 2 * todo.length + 1
  | .published _ _ todo => 2 * todo.length + 2
  | .answered _ _ => 0

theorem stepsLeft_lt {c c' : CommitPoint M} (h : commitStep env flags c = .ok c') (hc : c.stepsLeft ≠ 0) :
    c'.stepsLeft < c.stepsLeft := by
  cases c with
  | beginning p version prevIsPortMod begun todo =>
    cases todo with
    | nil =>
      cases h
      simp only [CommitPoint.stepsLeft, length_reverse]
      omega
    | cons entry todo =>
      cases entry with
      | portMod pm =>
        rw [commitStep] at h
        split at h
        · cases h
          simp only [CommitPoint.stepsLeft]
          omega
        · split at h <;> cases h <;> simp only [CommitPoint.stepsLeft, length_cons] <;> omega
      | flowMod fm =>
        obtain ⟨⟨p', r⟩, -, h⟩ := Except.bind_eq_ok h
        cases r <;> cases h <;> simp only [CommitPoint.stepsLeft, length_cons] <;> omega
  | reverting p begun =>
    cases begun with
    | nil =>
      cases h
      exact Nat.succ_pos _
    | cons b begun =>
      cases b with
      | portMod pm port =>
        cases h
        exact Nat.lt_succ_self _
      | flowMod ofm =>
        obtain ⟨p', -, h⟩ := Except.bind_eq_ok h
        cases h
        exact Nat.lt_succ_self _
  | finishing p todo =>
    cases todo with
    | nil =>
      cases h
      exact Nat.succ_pos _
    | cons b todo =>
      cases b <;> cases h <;> simp only [CommitPoint.stepsLeft, length_cons] <;> omega
  | published p ofm todo =>
    obtain ⟨p', -, h⟩ := Except.bind_eq_ok h
    cases h
    exact Nat.lt_succ_self _
  | answered p answer => exact absurd rfl hc

section

variable {env flags} {Inv : CommitPoint M → Prop} {E : Abort → Prop}

theorem CommitReaches.keeps (hstep : ∀ c, Inv c → (commitStep env flags c).Meets E Inv) {c c' : CommitPoint M}
    (h : CommitReaches env flags c c') (hc : Inv c) : Inv c' := by
  induction h with
  | refl => exact hc
  | @step c₁ c₂ _ hnext ih =>
    have hmeets := hstep c₁ ih
    rw [hnext] at hmeets
    exact hmeets

/-- What every step keeps holds when the commit is over, and the commit aborts only as its steps do. -/
theorem outcome_meets (hstep : ∀ c, Inv c → (commitStep env flags c).Meets E Inv) (c : CommitPoint M) (hc : Inv c) :
    (outcome env flags c).Meets E fun r => Inv (.answered r.1 r.2) := by
  induction hn : c.stepsLeft using Nat.strong_induction_on generalizing c with
  | _ n ih =>
    by_cases hzero : c.stepsLeft = 0
    · cases c with
      | answered p answer => exact hc
      | _ => exact absurd hzero (Nat.succ_ne_zero _)
    rw [outcome_eq]
    cases hnext : commitStep env flags c with
    | error a =>
      have hmeets := hstep c hc
      rw [hnext] at hmeets
      exact hmeets
    | ok c' =>
      have hmeets := hstep c hc
      rw [hnext] at hmeets
      exact ih c'.stepsLeft (hn ▸ stepsLeft_lt env flags hnext hzero) c' hmeets rfl

end

end LinkerOvs.FlowTable
