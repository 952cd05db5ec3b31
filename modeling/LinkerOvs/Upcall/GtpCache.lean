/-
Whether GTP packets are served from cached datapath flows. The output for a GTP packet depends on its
TEID, which is not part of a flow, so each packet has to be translated itself. `handle_upcalls` sees to
that by its `check_is_gtp` test; `upcall_cb` has no such test, so on the userspace datapath the flow of the
first packet is installed unless something else makes `upcall_cb` fail.
-/
import LinkerOvs.Upcall.Datapath
import LinkerOvs.Gtp.Steps

namespace LinkerOvs.Upcall

open List

variable {F P A M X : Type}

/-- `check_is_gtp` on the flow of a packet. -/
def isGtp (sw : Switch F P A M X) (f : F) : Bool := Gtp.checkIsGtp (sw.gtpFlow f)

/-! ## Forwarding without a cache -/

/-- Every packet is translated itself, in order. -/
def uncached (sw : Switch F P A M X) : X → List (P × Env) → X × List (Outcome A)
  | xs, [] => (xs, [])
  | xs, q :: qs =>
    let (xs, out) := sw.xlate xs (sw.extract q.1) q.1
    let (xs, os) := uncached sw xs qs
    (xs, .own out.actions :: os)

theorem uncached_append (sw : Switch F P A M X) : ∀ (xs : X) (ps qs : List (P × Env)), uncached sw xs (ps ++ qs) =
    ((uncached sw (uncached sw xs ps).1 qs).1, (uncached sw xs ps).2 ++ (uncached sw (uncached sw xs ps).1 qs).2)
  | xs, [], qs => rfl
  | xs, p :: ps, qs => by simp only [cons_append, uncached, uncached_append]

/-! ## Conditions -/

/-- No flow of the table and no live entry of the exact-match cache applies to a GTP packet. -/
structure Clean (sw : Switch F P A M X) (st : State F A M X) : Prop where
  flows : ∀ d ∈ st.flows, ∀ f, isGtp sw f = true → sw.covers d.mask d.key f = false
  emc : ∀ i f, isGtp sw f = true → (st.emc i).key = some f → (st.emc i).flow = none

/-- `upcall_cb` finds the bridge of the port, but does not succeed: the flow limit is reached, there is no reference
to the recirculation context, or the ukey cannot be installed. -/
def Env.fails (env : Env) : Prop :=
  env.ofprotoFound = true ∧
    (env.flowLimit ≤ env.nFlows ∨ (env.recirc = true ∧ env.haveRecircRef = false) ∨ env.ukeyInstalls = false)

/-- The condition on the arriving packets: all come from ports of a bridge, and for those of the userspace datapath the
lock on upcalls is taken and `upcall_cb` fails. -/
def Event.NotCached : Event P → Prop
  | .kernel _ _ ps => ∀ q ∈ ps, q.2.ofprotoFound = true
  | .netdev locked ps => locked = true ∧ ∀ q ∈ ps, q.2.fails

/-! ## The userspace datapath -/

variable {sw : Switch F P A M X} {st : State F A M X}

theorem Clean.lookupFlow (h : Clean sw st) {f : F} (hf : isGtp sw f = true) : lookupFlow sw st.flows f = none := by
  refine find?_eq_none.2 fun d hd => ?_
  simp [h.flows d hd f hf]

/-- The translation state is the only part a step of a clean datapath changes. -/
theorem Clean.setXs (h : Clean sw st) (xs : X) : Clean sw { st with xs := xs } :=
  ⟨h.flows, h.emc⟩

theorem upcallCb_fails {env : Env} (h : env.fails) (xs : X) (f : F) (p : P) :
    ∃ out, out.actions = (sw.xlate xs f p).2.actions ∧
      upcallCb sw env xs f p = ((sw.xlate xs f p).1, some .enospc, some out) := by
  refine ⟨if env.megaflow then (sw.xlate xs f p).2 else { (sw.xlate xs f p).2 with wc := sw.exactMask f },
    by split <;> rfl, ?_⟩
  simp only [upcallCb, h.1, Bool.not_true, Bool.false_eq_true, if_false]
  rcases h.2 with h | h | h
  · rw [if_pos h]
  · simp [*]
  · simp [*]

variable [DecidableEq F]

theorem Clean.emcLookup (h : Clean sw st) (hash : UInt32) {f : F} (hf : isGtp sw f = true) :
    emcLookup st.emc hash f = none := by
  have hdead : ∀ i, ((st.emc i).flow.isSome && emcEntryMatches (st.emc i) hash f) = false := by
    intro i
    by_cases hk : (st.emc i).key = some f
    · simp [h.emc i f hf hk]
    · simp [emcEntryMatches, hk]
  simp [Upcall.emcLookup, hdead]

/-- A miss that `upcall_cb` fails on changes nothing but the translation state. -/
theorem Clean.missOne (h : Clean sw st) {p : P} {env : Env}
    (hp : isGtp sw (sw.extract p) = true) (henv : env.fails) : missOne sw st p env =
      ({ st with xs := (sw.xlate st.xs (sw.extract p) p).1 },
        .inr (.own (sw.xlate st.xs (sw.extract p) p).2.actions)) := by
  obtain ⟨out, hout, heq⟩ := upcallCb_fails henv st.xs (sw.extract p) p
  simp only [Upcall.missOne, h.lookupFlow hp]
  rw [heq, ← hout]

/-- The loop over the misses translates each packet and leaves nothing for the loop over the hits. -/
theorem Clean.missLoop : ∀ {ps : List (P × Env)} {st : State F A M X},
    Clean sw st → (∀ q ∈ ps, isGtp sw (sw.extract q.1) = true) → (∀ q ∈ ps, q.2.fails) →
    (missLoop sw true st (ps.map fun q => (q.1, q.2, none))).1 = { st with xs := (uncached sw st.xs ps).1 } ∧
      ∀ st', hitLoop sw st' (missLoop sw true st (ps.map fun q => (q.1, q.2, none))).2 =
        (st', (uncached sw st.xs ps).2)
  | [], st, _, _, _ => ⟨rfl, fun _ => rfl⟩
  | q :: ps, st, h, hgtp, hok => by
    obtain ⟨ih₁, ih₂⟩ := Clean.missLoop (h.setXs (sw.xlate st.xs (sw.extract q.1) q.1).1)
      (fun q' hq' => hgtp q' (mem_cons_of_mem _ hq')) fun q' hq' => hok q' (mem_cons_of_mem _ hq')
    simp only [map_cons, Upcall.missLoop, uncached, if_true]
    rw [h.missOne (hgtp q (by simp)) (hok q (by simp))]
    exact ⟨ih₁, fun st' => by rw [hitLoop, ih₂]⟩

theorem Clean.dpNetdevInput {ps : List (P × Env)}
    (h : Clean sw st) (hgtp : ∀ q ∈ ps, isGtp sw (sw.extract q.1) = true) (hok : ∀ q ∈ ps, q.2.fails) :
    dpNetdevInput sw true st ps = ({ st with xs := (uncached sw st.xs ps).1 }, (uncached sw st.xs ps).2) := by
  have hemc : ∀ q ∈ ps, Upcall.emcLookup st.emc (sw.rssHash q.1) (sw.extract q.1) = none := fun q hq =>
    h.emcLookup _ (hgtp q hq)
  have hcls : (ps.map fun q => (q.1, q.2, Upcall.lookupFlow sw st.flows (sw.extract q.1))) =
      ps.map fun q => (q.1, q.2, none) :=
    map_congr_left fun q hq => by rw [h.lookupFlow (hgtp q hq)]
  obtain ⟨hst, hos⟩ := h.missLoop hgtp hok
  simp only [Upcall.dpNetdevInput, fastPathProcessing]
  rw [filterMap_eq_nil_iff.2 (fun q hq => by rw [hemc q hq]; rfl),
    filter_eq_self.2 (fun q hq => by rw [hemc q hq]; rfl), hcls, hos, hst]
  rfl

/-! ## The handler threads -/

omit [DecidableEq F] in
/-- No flow is put for the upcall of a GTP packet. -/
theorem putsFlow_gtp {u : PendingUpcall F A M} (h : isGtp sw u.flow = true) (mayPut : Bool) :
    putsFlow sw mayPut u = false := by
  have hg : Gtp.checkIsGtp (sw.gtpFlow u.flow) = true := h
  simp [putsFlow, hg]

omit [DecidableEq F] in
theorem recvUpcalls_gtp {mayPut : Bool} : ∀ (ps : List (P × Env)) (st : State F A M X),
    (∀ q ∈ ps, isGtp sw (sw.extract q.1) = true) → (∀ q ∈ ps, q.2.ofprotoFound = true) →
    (recvUpcalls sw st ps).1 = { st with xs := (uncached sw st.xs ps).1 } ∧
      ∀ st', handleUpcalls sw mayPut st' (recvUpcalls sw st ps).2 = (st', (uncached sw st.xs ps).2)
  | [], st, _, _ => ⟨rfl, fun _ => rfl⟩
  | q :: ps, st, hgtp, hok => by
    have hfound := hok q (by simp)
    have hput := putsFlow_gtp (u := ⟨true, sw.extract q.1, q.2, (sw.xlate st.xs (sw.extract q.1) q.1).2⟩)
      (hgtp q (by simp)) mayPut
    obtain ⟨ih₁, ih₂⟩ := recvUpcalls_gtp ps { st with xs := (sw.xlate st.xs (sw.extract q.1) q.1).1 }
      (fun q' hq' => hgtp q' (mem_cons_of_mem _ hq')) fun q' hq' => hok q' (mem_cons_of_mem _ hq')
    simp only [recvUpcalls, uncached, hfound, Bool.not_true, Bool.false_eq_true, if_false]
    refine ⟨ih₁, fun st' => ?_⟩
    simp only [handleUpcalls, hput, Bool.false_and, Bool.false_eq_true, if_false]
    rw [ih₂]

omit [DecidableEq F] in
theorem Clean.kernelInput {nFlows flowLimit : Nat} {ps : List (P × Env)}
    (h : Clean sw st) (hgtp : ∀ q ∈ ps, isGtp sw (sw.extract q.1) = true)
    (hok : ∀ q ∈ ps, q.2.ofprotoFound = true) : kernelInput sw nFlows flowLimit st ps =
      ({ st with xs := (uncached sw st.xs ps).1 }, (uncached sw st.xs ps).2) := by
  have hcls : ∀ q ∈ ps, Upcall.lookupFlow sw st.flows (sw.extract q.1) = none := fun q hq => h.lookupFlow (hgtp q hq)
  obtain ⟨hst, hos⟩ := recvUpcalls_gtp ps st hgtp hok
  simp only [Upcall.kernelInput]
  rw [filterMap_eq_nil_iff.2 (fun q hq => by rw [hcls q hq]; rfl),
    filter_eq_self.2 (fun q hq => by rw [hcls q hq]; rfl), hos, hst]
  rfl

/-! ## Sequences of GTP packets -/

theorem Clean.input (h : Clean sw st) {e : Event P}
    (hgtp : ∀ q ∈ e.packets, isGtp sw (sw.extract q.1) = true) (hok : e.NotCached) :
    input sw st e = ({ st with xs := (uncached sw st.xs e.packets).1 }, (uncached sw st.xs e.packets).2) := by
  cases e with
  | kernel nFlows flowLimit ps => exact h.kernelInput hgtp hok
  | netdev locked ps =>
    obtain ⟨rfl, hok⟩ := hok
    exact h.dpNetdevInput hgtp hok

/-- For every sequence of GTP packets that meets the condition, no flow and no entry of the exact-match cache
is installed, and each packet gets the output of its own translation. -/
theorem gtp_translated_itself (sw : Switch F P A M X) : ∀ (es : List (Event P)) (st : State F A M X), Clean sw st →
    (∀ e ∈ es, ∀ q ∈ e.packets, isGtp sw (sw.extract q.1) = true) → (∀ e ∈ es, e.NotCached) →
    inputs sw st es = ({ st with xs := (uncached sw st.xs (es.flatMap Event.packets)).1 },
      (uncached sw st.xs (es.flatMap Event.packets)).2)
  | [], st, _, _, _ => rfl
  | e :: es, st, h, hgtp, hok => by
    have ih := gtp_translated_itself sw es { st with xs := (uncached sw st.xs e.packets).1 } (h.setXs _)
      (fun e' he' => hgtp e' (mem_cons_of_mem _ he')) fun e' he' => hok e' (mem_cons_of_mem _ he')
    rw [flatMap_cons, uncached_append]
    simp only [inputs]
    rw [h.input (hgtp e (by simp)) (hok e (by simp)), ih]

/-! ## The GTP manager behind the datapath -/

/-- A switch whose only flow has the `handle_gtp` action. The actions are the addresses written and the ports
output to; masks match a flow exactly, the narrowest megaflow there is. -/
def gtpSwitch : Switch Gtp.Flow (Gtp.Flow × DpPacket) (UInt32 × Gtp.EthAddr × List UInt16) Unit Gtp.Manager where
  extract := Prod.fst
  rssHash := fun _ => 0
  gtpFlow := id
  covers := fun _ key f => key = f
  xlate := fun s f p =>
    match Gtp.handleGtp s ⟨f, ⟨0, 0⟩, []⟩ (some p.2) with
    | .ok (s, x) => (s, ⟨(x.flow.nwDst, x.flow.dlDst, x.outputs), none, ()⟩)
    | .error _ => (s, ⟨(0, 0, []), none, ()⟩)
  exactMask := fun _ => ()
  noActions := (0, 0, [])

def emptyDatapath (s : Gtp.Manager) : State Gtp.Flow (UInt32 × Gtp.EthAddr × List UInt16) Unit Gtp.Manager :=
  ⟨[], fun _ => ⟨none, 0, none⟩, s⟩

theorem clean_emptyDatapath (s : Gtp.Manager) : Clean gtpSwitch (emptyDatapath s) where
  flows d hd := by cases hd
  emc i f hf hk := by cases hk

/-- The flow of a GTP-U packet from the physical port. -/
def uplinkFlow : Gtp.Flow := (Gtp.udpCtx 1 Gtp.gtpuPort 1).flow

/-- Nothing keeps the flow of an upcall from being installed. -/
def normalEnv : Env := ⟨true, true, 0, 10000, false, false, true⟩

/-- The sessions of PGW 2 (data TEID 9) and PGW 3 (data TEID 19). -/
def twoSessions : List Gtp.Call :=
  [.setParams 0 1 1 0, .addPgw (Gtp.samplePgw 2), .addPgw (Gtp.samplePgw 3), Gtp.createCall 2 7 ⟨8, 9, 10⟩,
    Gtp.createCall 3 17 ⟨18, 19, 20⟩]

/-- The actions that forward a packet to PGW `n`. -/
def toPgw (n : UInt16) : UInt32 × Gtp.EthAddr × List UInt16 :=
  ((Gtp.samplePgw n).gtpPgwIp, (Gtp.samplePgw n).gtpPgwEth, [(Gtp.samplePgw n).gtpPgwPort])

/-- Both TEIDs, once through the handler threads and once on a userspace datapath that is at its flow limit. -/
def bothTeids : List (Event (Gtp.Flow × DpPacket)) :=
  [.kernel 0 10000 [((uplinkFlow, Gtp.gtpuPacket 9), normalEnv), ((uplinkFlow, Gtp.gtpuPacket 19), normalEnv)],
    .netdev true [((uplinkFlow, Gtp.gtpuPacket 9), { normalEnv with nFlows := 10000 }),
      ((uplinkFlow, Gtp.gtpuPacket 19), { normalEnv with nFlows := 10000 })]]

theorem gtp_translated_itself_two_teids : ∃ s, Gtp.Reachable s ∧ (inputs gtpSwitch (emptyDatapath s) bothTeids).2 =
      [.own (toPgw 2), .own (toPgw 3), .own (toPgw 2), .own (toPgw 3)] := by
  obtain ⟨s, hs, hout⟩ : ∃ s, Run Gtp.Step (Gtp.gtpManagerInit Gtp.zeroTunnel) twoSessions s ∧
      (uncached gtpSwitch s (bothTeids.flatMap Event.packets)).2 =
        [.own (toPgw 2), .own (toPgw 3), .own (toPgw 2), .own (toPgw 3)] :=
    ⟨_, .cons rfl (.cons rfl (.cons rfl (.cons rfl (.cons rfl (.nil _))))), rfl⟩
  refine ⟨s, ⟨_, _, hs⟩, ?_⟩
  rw [gtp_translated_itself gtpSwitch _ (emptyDatapath s) (clean_emptyDatapath s)]
  · exact hout
  · decide
  · simp [bothTeids, Event.NotCached, Env.fails, normalEnv, -Prod.forall]

/-- On the userspace datapath, two packets of one flow: the flow that the first one installs takes the second one to
PGW 2, although its TEID is that of a session of PGW 3. -/
theorem userspace_caches_gtp : ∃ s, Gtp.Reachable s ∧ isGtp gtpSwitch uplinkFlow = true ∧
    Clean gtpSwitch (emptyDatapath s) ∧
    (inputs gtpSwitch (emptyDatapath s)
      [.netdev true [((uplinkFlow, Gtp.gtpuPacket 9), normalEnv), ((uplinkFlow, Gtp.gtpuPacket 19), normalEnv)]]).2 =
      [.own (toPgw 2), .cached (toPgw 2)] ∧
    (gtpSwitch.xlate s uplinkFlow (uplinkFlow, Gtp.gtpuPacket 19)).2.actions = toPgw 3 ∧ toPgw 2 ≠ toPgw 3 :=
  ⟨_, ⟨Gtp.zeroTunnel, twoSessions, .cons rfl (.cons rfl (.cons rfl (.cons rfl (.cons rfl (.nil _)))))⟩, by decide,
    clean_emptyDatapath _, rfl, rfl, by decide⟩

end LinkerOvs.Upcall
