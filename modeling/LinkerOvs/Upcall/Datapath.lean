/-
The two ways a packet that misses the datapath's flow table is translated and its flow installed: the
handler threads of `ofproto/ofproto-dpif-upcall.c` (`recv_upcalls`, `handle_upcalls`) for a
kernel-style datapath, and the callback `upcall_cb` that the userspace datapath of `lib/dpif-netdev.c`
calls from its fast path, behind an exact-match cache. Translation itself, the extraction of a packet's
flow and the matching of a masked flow are parameters here; what the environment decides (the flow
limit, references to recirculation contexts, the installation of a ukey, the lock on upcalls) comes with
each packet.
-/
import LinkerOvs.Gtp.Message

namespace LinkerOvs.Upcall

/-- The result of `xlate_actions`: the datapath actions, the slow-path actions to install instead if the
flow is slow-pathed (`compose_slow_path`), and the wildcards. -/
structure XlateOut (A M : Type) where
  actions : A
  slow : Option A
  wc : M

/-- What the upcall code calls: flow extraction and hash of a packet, the part of a flow that
`check_is_gtp` looks at, whether a flow falls under a masked one, translation in a translation state,
the mask that `flow_wildcards_init_for_packet` gives and an empty list of actions. -/
structure Switch (F P A M X : Type) where
  extract : P → F
  rssHash : P → UInt32
  gtpFlow : F → Gtp.Flow
  covers : M → F → F → Bool
  xlate : X → F → P → X × XlateOut A M
  exactMask : F → M
  noActions : A

structure DpFlow (F A M : Type) where
  key : F
  mask : M
  actions : A

structure EmcEntry (F A M : Type) where
  flow : Option (DpFlow F A M)
  hash : UInt32
  key : Option F

/-- The datapath's flow table, its exact-match cache and the translation state. -/
structure State (F A M X : Type) where
  flows : List (DpFlow F A M)
  emc : Nat → EmcEntry F A M
  xs : X

/-- What the environment decides about one upcall. -/
structure Env where
  ofprotoFound : Bool    -- xlate_lookup() finds the bridge of the input port
  megaflow : Bool        -- enable_megaflows
  nFlows : Nat           -- udpif_get_n_flows()
  flowLimit : Nat
  recirc : Bool          -- the flow has a recirculation context
  haveRecircRef : Bool   -- and a reference to it could be taken
  ukeyInstalls : Bool    -- ukey_install() succeeds

/-- What becomes of a packet: the actions of a cached flow, those of its own translation, or it is lost. -/
inductive Outcome (A : Type)
  | cached (actions : A)
  | own (actions : A)
  | lost

variable {F P A M X : Type}

/-! ## The exact-match cache -/

def emFlowHashShift : UInt32 := 13
def emFlowHashMask : UInt32 := 8191

/-- The two entries where a key with the hash can be. -/
def emcPositions (hash : UInt32) : Nat × Nat :=
  ((hash &&& emFlowHashMask).toNat, ((hash >>> emFlowHashShift) &&& emFlowHashMask).toNat)

variable [DecidableEq F]

def emcEntryMatches (e : EmcEntry F A M) (hash : UInt32) (f : F) : Bool := e.hash = hash && e.key = some f

def emcLookup (emc : Nat → EmcEntry F A M) (hash : UInt32) (f : F) : Option (DpFlow F A M) :=
  let (i, j) := emcPositions hash
  if (emc i).flow.isSome && emcEntryMatches (emc i) hash f then (emc i).flow
  else if (emc j).flow.isSome && emcEntryMatches (emc j) hash f then (emc j).flow
  else none

def emcInsert (emc : Nat → EmcEntry F A M) (hash : UInt32) (f : F) (d : DpFlow F A M) : Nat → EmcEntry F A M :=
  let (i, j) := emcPositions hash
  if emcEntryMatches (emc i) hash f then Function.update emc i { emc i with flow := some d }
  else if emcEntryMatches (emc j) hash f then Function.update emc j { emc j with flow := some d }
  else
    -- an entry that is not alive, or the one with the smaller hash
    let k := if ((emc i).flow.isSome && (emc j).flow.isNone) || (emc j).hash < (emc i).hash then j else i
    Function.update emc k ⟨some d, hash, some f⟩

/-! ## The userspace datapath -/

variable (sw : Switch F P A M X) (st : State F A M X)

def lookupFlow (flows : List (DpFlow F A M)) (f : F) : Option (DpFlow F A M) :=
  flows.find? fun d => sw.covers d.mask d.key f

/-- The errors of `upcall_cb` on a miss: no bridge for the port, or the flow must not be installed. -/
inductive UpcallError
  | enodev
  | enospc
deriving DecidableEq

/-- `upcall_cb` for a miss upcall: the error, the actions to execute, those to install and the
wildcards. -/
def upcallCb (env : Env) (xs : X) (f : F) (p : P) :
    X × Option UpcallError × Option (XlateOut A M) :=
  if !env.ofprotoFound then (xs, some .enodev, none)
  else
    let (xs, out) := sw.xlate xs f p
    let out := if env.megaflow then out else { out with wc := sw.exactMask f }
    if env.flowLimit ≤ env.nFlows then (xs, some .enospc, some out)
    else if env.recirc && !env.haveRecircRef then (xs, some .enospc, some out)
    else if !env.ukeyInstalls then (xs, some .enospc, some out)
    else (xs, none, some out)

/-- One turn of the loop of `fast_path_processing` over the misses: an earlier packet of the batch may
have installed a flow for this one. -/
def missOne (p : P) (env : Env) :
    State F A M X × (DpFlow F A M ⊕ Outcome A) :=
  let f := sw.extract p
  match lookupFlow sw st.flows f with
  | some d => (st, .inl d)
  | none =>
    match upcallCb sw env st.xs f p with
    | (xs, some .enospc, some out) => ({ st with xs := xs }, .inr (.own out.actions))
    | (xs, none, some out) =>
      let d : DpFlow F A M := ⟨f, out.wc, out.slow.getD out.actions⟩
      ({ flows := d :: st.flows, emc := emcInsert st.emc (sw.rssHash p) f d, xs := xs }, .inr (.own out.actions))
    | (xs, _, _) => ({ st with xs := xs }, .inr .lost)

/-- A packet after the lookups of its batch: the flow found, or not. -/
abbrev Looked (F P A M : Type) := P × Env × Option (DpFlow F A M)

/-- The loop of `fast_path_processing` over the misses, and the outcomes in order; a packet without a
rule is lost when the lock on upcalls was not to be had. -/
def missLoop (sw : Switch F P A M X) (locked : Bool) :
    State F A M X → List (Looked F P A M) → State F A M X × List (P × (DpFlow F A M ⊕ Outcome A))
  | st, [] => (st, [])
  | st, (p, env, rule) :: ps =>
    let (st, r) := match rule with
      | some d => (st, .inl d)
      | none => if locked then missOne sw st p env else (st, .inr .lost)
    let (st, rs) := missLoop sw locked st ps
    (st, (p, r) :: rs)

/-- The last loop of `fast_path_processing`: what a rule was found for goes to the exact-match cache and is
executed with the cached actions. -/
def hitLoop (sw : Switch F P A M X) :
    State F A M X → List (P × (DpFlow F A M ⊕ Outcome A)) → State F A M X × List (Outcome A)
  | st, [] => (st, [])
  | st, (_, .inr o) :: rs =>
    let (st, os) := hitLoop sw st rs
    (st, o :: os)
  | st, (p, .inl d) :: rs =>
    let (st, os) := hitLoop sw { st with emc := emcInsert st.emc (sw.rssHash p) (sw.extract p) d } rs
    (st, .cached d.actions :: os)

def fastPathProcessing (locked : Bool) (st : State F A M X) (ps : List (P × Env)) :
    State F A M X × List (Outcome A) :=
  let looked := ps.map fun (p, env) => (p, env, lookupFlow sw st.flows (sw.extract p))
  let (st, rs) := missLoop sw locked st looked
  hitLoop sw st rs

/-- The outcomes of the packets found in the exact-match cache, and those of the others in their order. -/
def dpNetdevInput (locked : Bool) (st : State F A M X) (ps : List (P × Env)) :
    State F A M X × List (Outcome A) :=
  let hit := fun (q : P × Env) => emcLookup st.emc (sw.rssHash q.1) (sw.extract q.1)
  let cached := ps.filterMap fun q => (hit q).map fun d => Outcome.cached d.actions
  let (st, os) := fastPathProcessing sw locked st (ps.filter fun q => (hit q).isNone)
  (st, cached ++ os)

/-! ## A kernel-style datapath -/

/-- A translated `struct upcall`. -/
structure PendingUpcall (F A M : Type) where
  miss : Bool
  flow : F
  env : Env
  out : XlateOut A M

/-- Each upcall is translated in order; a packet from a port without a bridge gets a flow that drops its like. -/
def recvUpcalls (sw : Switch F P A M X) :
    State F A M X → List (P × Env) → State F A M X × List (Option (PendingUpcall F A M))
  | st, [] => (st, [])
  | st, (p, env) :: ps =>
    let f := sw.extract p
    if !env.ofprotoFound then
      let (st, us) := recvUpcalls sw { st with flows := ⟨f, sw.exactMask f, sw.noActions⟩ :: st.flows } ps
      (st, none :: us)
    else
      let (xs, out) := sw.xlate st.xs f p
      let (st, us) := recvUpcalls sw { st with xs := xs } ps
      (st, some ⟨true, f, env, out⟩ :: us)

/-- Whether `handle_upcalls` puts a flow for the upcall, `mayPut` being its look at the flow limit. -/
def putsFlow (mayPut : Bool) (u : PendingUpcall F A M) : Bool :=
  mayPut && u.miss && (!u.env.recirc || u.env.haveRecircRef) && !Gtp.checkIsGtp (sw.gtpFlow u.flow)

/-- Flows are put for the upcalls that allow it, and every upcall is executed with its own actions. -/
def handleUpcalls (sw : Switch F P A M X) (mayPut : Bool) :
    State F A M X → List (Option (PendingUpcall F A M)) → State F A M X × List (Outcome A)
  | st, [] => (st, [])
  | st, none :: us =>
    let (st, os) := handleUpcalls sw mayPut st us
    (st, .lost :: os)
  | st, some u :: us =>
    let d : DpFlow F A M := ⟨u.flow, u.out.wc, u.out.slow.getD u.out.actions⟩
    let st := if putsFlow sw mayPut u && u.env.ukeyInstalls then { st with flows := d :: st.flows } else st
    let (st, os) := handleUpcalls sw mayPut st us
    (st, .own u.out.actions :: os)

/-- Packets arriving at the datapath, those that miss its table going up in one batch. -/
def kernelInput (nFlows flowLimit : Nat) (st : State F A M X) (ps : List (P × Env)) :
    State F A M X × List (Outcome A) :=
  let hit := fun (q : P × Env) => lookupFlow sw st.flows (sw.extract q.1)
  let cached := ps.filterMap fun q => (hit q).map fun d => Outcome.cached d.actions
  let (st, us) := recvUpcalls sw st (ps.filter fun q => (hit q).isNone)
  let (st, os) := handleUpcalls sw (decide (nFlows < flowLimit)) st us
  (st, cached ++ os)

/-! ## Sequences of packets -/

/-- Packets arriving at one of the two kinds of datapath. -/
inductive Event (P : Type)
  | kernel (nFlows flowLimit : Nat) (ps : List (P × Env))
  | netdev (locked : Bool) (ps : List (P × Env))

def Event.packets : Event P → List (P × Env)
  | .kernel _ _ ps => ps
  | .netdev _ ps => ps

def input : Event P → State F A M X × List (Outcome A)
  | .kernel nFlows flowLimit ps => kernelInput sw nFlows flowLimit st ps
  | .netdev locked ps => dpNetdevInput sw locked st ps

def inputs (sw : Switch F P A M X) : State F A M X → List (Event P) → State F A M X × List (Outcome A)
  | st, [] => (st, [])
  | st, e :: es =>
    let (st, os) := input sw st e
    let (st, os') := inputs sw st es
    (st, os ++ os')

end LinkerOvs.Upcall
