/-
Groups in translation (`ofproto/ofproto-dpif-xlate.c`): which buckets are live, and which of its buckets a
group runs. A bucket is live through a port it watches or through a group it watches, so liveness is a
mutual recursion of buckets and groups along their `watch_group` links, cut off after
`MAX_LIVENESS_RECURSION` of them.
-/
import LinkerOvs.Ofp.Ofpact
import LinkerOvs.Util.Hash

namespace LinkerOvs.Xlate

open List

open Ofp (ofppAny ofpgAny)

/-- `struct ofputil_bucket`; the actions are those of `A`. -/
structure Bucket (A : Type) where
  weight : UInt16
  watchPort : UInt16
  watchGroup : UInt32
  ofpacts : A
deriving DecidableEq

/-- `enum ofp11_group_type`. -/
inductive GroupType
  | all
  | select
  | indirect
  | ff
deriving DecidableEq, Repr

/-- `struct group_dpif`. -/
structure Group (A : Type) where
  groupId : UInt32
  type : GroupType
  buckets : List (Bucket A)
deriving DecidableEq

/-- What decides liveness in a bridge: its groups, and for each port that exists whether it may be
enabled. -/
structure LivenessView (A : Type) where
  groups : List (Group A)
  mayEnable : UInt16 → Option Bool

variable {A : Type}

variable (v : LivenessView A)

def odpPortIsAlive (ofpPort : UInt16) : Bool := v.mayEnable ofpPort = some true

variable (alive : Bucket A → Bool) (group : Group A) (groups : List (Group A))

def groupDpifLookup (groupId : UInt32) : Option (Group A) :=
  groups.find? (·.groupId = groupId)

def Bucket.hasLiveness (b : Bucket A) : Bool := b.watchPort ≠ ofppAny || b.watchGroup ≠ ofpgAny

def groupFirstLiveBucket : Option (Bucket A) :=
  group.buckets.find? alive

/-- With the liveness of the group's buckets. -/
def groupIsAlive (groupId : UInt32) : Bool :=
  match groupDpifLookup v.groups groupId with
  | some group => (groupFirstLiveBucket alive group).isNone -- bucket == NULL
  | none => false

def maxLivenessRecursion : Nat := 128

/-- `bucket_is_alive`, with the number of links that may still be followed in place of the number that have
been followed (`MAX_LIVENESS_RECURSION - depth`). -/
def bucketIsAliveWithin (v : LivenessView A) : Nat → Bucket A → Bool
  | 0, _ => false
  | links + 1, b =>
    !b.hasLiveness
      || (b.watchPort ≠ ofppAny && odpPortIsAlive v b.watchPort)
      || (b.watchGroup ≠ ofpgAny && groupIsAlive v (bucketIsAliveWithin v links) b.watchGroup)

def bucketIsAlive (b : Bucket A) (depth : Nat) : Bool :=
  bucketIsAliveWithin v (maxLivenessRecursion - depth) b

def bucketScore (basis : UInt32) (i : Nat) (b : Bucket A) : UInt32 :=
  (hashInt (.ofNat i) basis &&& 0xffff) * b.weight.toUInt32

/-- One turn of the loop of `group_best_live_bucket`, on the best bucket so far and its score. -/
def bestLiveStep (basis : UInt32) (best : Option (Bucket A) × UInt32)
    (x : Bucket A × Nat) : Option (Bucket A) × UInt32 :=
  if alive x.1 then
    if best.2 ≤ bucketScore basis x.2 x.1 then (some x.1, bucketScore basis x.2 x.1) else best
  else best

/-- The buckets are numbered in their order in the group, dead ones included. -/
def groupBestLiveBucket (basis : UInt32) : Option (Bucket A) :=
  (group.buckets.zipIdx.foldl (bestLiveStep alive basis) (none, 0)).1

/-- The buckets that `xlate_group_action__` runs, in order. `basis` is the hash that the group's selection
method gives for the flow. -/
def groupBuckets (basis : UInt32) : List (Bucket A) :=
  match group.type with
  | .all | .indirect => group.buckets
  | .select => (groupBestLiveBucket (bucketIsAlive v · 0) group basis).toList
  | .ff => (groupFirstLiveBucket (bucketIsAlive v · 0) group).toList

/-! ## What liveness is for -/

/-- Whether a bucket is live: it watches nothing, or a port that may be enabled, or a group one of whose
buckets is live. -/
inductive Live (v : LivenessView A) : Bucket A → Prop
  | unwatched {b} (h : b.hasLiveness = false) : Live v b
  | port {b} (h : b.watchPort ≠ ofppAny) (hp : odpPortIsAlive v b.watchPort = true) : Live v b
  | group {b b' g} (h : b.watchGroup ≠ ofpgAny) (hg : groupDpifLookup v.groups b.watchGroup = some g)
      (hb' : b' ∈ g.buckets) (hlive : Live v b') : Live v b

/-- `g'` is one of the groups, and a bucket of `g` watches it. -/
def Watches (g g' : Group A) : Prop :=
  ∃ b ∈ g.buckets, b.watchGroup ≠ ofpgAny ∧ groupDpifLookup groups b.watchGroup = some g'

/-- Every chain of groups, each watched by a bucket of the one before it, has fewer than `n` links. In
particular no chain leads back to a group it has passed. -/
def ChainsShorterThan (n : Nat) : Prop :=
  ∀ g ∈ groups, ∀ gs : List (Group A), (g :: gs).IsChain (Watches groups) → gs.length < n

/-- A bucket whose liveness does not go through another group: it watches none that exists, or it also
watches a port that is alive. -/
def DecidedByPort (b : Bucket A) : Prop :=
  b.watchGroup = ofpgAny ∨ groupDpifLookup v.groups b.watchGroup = none ∨
    (b.watchPort ≠ ofppAny ∧ odpPortIsAlive v b.watchPort = true)

instance (v : LivenessView A) (b : Bucket A) : Decidable (DecidedByPort v b) :=
  inferInstanceAs (Decidable (_ ∨ _ ∨ _))

variable {g : Group A} {v : LivenessView A} {b : Bucket A}

theorem live_of_decidedByPort (hb : DecidedByPort v b) (links : Nat) :
    bucketIsAliveWithin v (links + 1) b = true ↔ Live v b := by
  have hgroup : ∀ alive, b.watchGroup ≠ ofpgAny → groupIsAlive v alive b.watchGroup = true →
      b.watchPort ≠ ofppAny ∧ odpPortIsAlive v b.watchPort = true := by
    intro alive hany halive
    rcases hb with h | h | h
    · exact absurd h hany
    · rw [groupIsAlive, h] at halive
      cases halive
    · exact h
  simp only [bucketIsAliveWithin, Bool.or_eq_true, Bool.and_eq_true, Bool.not_eq_true', decide_eq_true_eq]
  constructor
  · rintro ((h | ⟨hany, hp⟩) | ⟨hany, halive⟩)
    · exact .unwatched h
    · exact .port hany hp
    · obtain ⟨hany', hp⟩ := hgroup _ hany halive
      exact .port hany' hp
  · intro h
    cases h with
    | unwatched h => exact .inl (.inl h)
    | port hany hp => exact .inl (.inr ⟨hany, hp⟩)
    | group hany hg hb' hlive =>
      rcases hb with h | h | h
      · exact absurd h hany
      · simp_all
      · exact .inl (.inr h)

/-- A bucket that is not decided by its port is alive, for the code, if no bucket of the group it watches
is. -/
theorem alive_of_not_decidedByPort (hb : ¬DecidedByPort v b) :
    ∃ g, groupDpifLookup v.groups b.watchGroup = some g ∧ b.watchGroup ≠ ofpgAny ∧
      (∀ links, bucketIsAliveWithin v (links + 1) b = true ↔
        ∀ b' ∈ g.buckets, bucketIsAliveWithin v links b' = false) ∧
      (Live v b ↔ ∃ b' ∈ g.buckets, Live v b') := by
  rw [DecidedByPort, not_or, not_or] at hb
  obtain ⟨hany, hsome, hport⟩ := hb
  obtain ⟨g, hg⟩ := Option.ne_none_iff_exists'.1 hsome
  have hwatches : b.hasLiveness = true := by simp [Bucket.hasLiveness, hany]
  refine ⟨g, hg, hany, fun links => ?_, ?_⟩
  · simp only [bucketIsAliveWithin, hwatches, groupIsAlive, hg, groupFirstLiveBucket, Bool.or_eq_true,
      Bool.and_eq_true, decide_eq_true_eq, Option.isNone_iff_eq_none, find?_eq_none, Bool.not_eq_true]
    simp [*]
  · constructor
    · intro h
      cases h with
      | unwatched h => rw [hwatches] at h; cases h
      | port hp halive => exact absurd ⟨hp, halive⟩ hport
      | group _ hg' hb' hlive =>
        grind
    · rintro ⟨b', hb', hlive⟩
      exact .group hany hg hb' hlive

/-- Links beyond those that lead anywhere do not change the liveness of a group's buckets. -/
theorem bucketIsAliveWithin_stable : ∀ (k : Nat) {g : Group A} {b : Bucket A} {m n : Nat},
    (∀ gs, (g :: gs).IsChain (Watches v.groups) → gs.length ≤ k) → b ∈ g.buckets → k ≤ m → k ≤ n →
    bucketIsAliveWithin v (m + 1) b = bucketIsAliveWithin v (n + 1) b := by
  intro k g b m n hchain hb hm hn
  by_cases hd : DecidedByPort v b
  · exact Bool.eq_iff_iff.2 ((live_of_decidedByPort hd m).trans (live_of_decidedByPort hd n).symm)
  obtain ⟨g', hg', hany, halive, -⟩ := alive_of_not_decidedByPort hd
  have hwatch : Watches v.groups g g' := ⟨b, hb, hany, hg'⟩
  -- the watched group is one link further, so `k` counts at least that link
  match k, m, n with
  | 0, _, _ => exact absurd (hchain [g'] (isChain_pair.2 hwatch)) (by simp)
  | k + 1, m + 1, n + 1 =>
    have hchain' : ∀ gs, (g' :: gs).IsChain (Watches v.groups) → gs.length ≤ k := by
      intro gs hgs
      have := hchain (g' :: gs) (isChain_cons_cons.2 ⟨hwatch, hgs⟩)
      simpa using this
    rw [Bool.eq_iff_iff, halive, halive]
    refine forall₂_congr fun b' hb' => ?_
    rw [bucketIsAliveWithin_stable k hchain' hb' (by omega : k ≤ m) (by omega : k ≤ n)]

/-! ## Selection by score -/

section Best

variable {alive : Bucket A → Bool} {basis : UInt32}

variable {best : Option (Bucket A) × UInt32} {x : Bucket A × Nat}

theorem bestLiveStep_lower (h : alive x.1 = true → bucketScore basis x.2 x.1 < best.2) :
    bestLiveStep alive basis best x = best := by
  rw [bestLiveStep]
  simp_all

theorem foldl_bestLiveStep_lower :
    ∀ {l : List (Bucket A × Nat)}, (∀ x ∈ l, alive x.1 = true → bucketScore basis x.2 x.1 < best.2) →
    l.foldl (bestLiveStep alive basis) best = best
  | [], _ => rfl
  | x :: l, h => by
    rw [foldl_cons, bestLiveStep_lower (h x mem_cons_self)]
    exact foldl_bestLiveStep_lower fun y hy => h y (mem_cons_of_mem _ hy)

theorem foldl_bestLiveStep_score {bound : UInt32} :
    ∀ {l : List (Bucket A × Nat)} {best : Option (Bucket A) × UInt32}, best.2 ≤ bound →
    (∀ x ∈ l, alive x.1 = true → bucketScore basis x.2 x.1 ≤ bound) →
    (l.foldl (bestLiveStep alive basis) best).2 ≤ bound
  | [], _, hbest, _ => hbest
  | x :: l, best, hbest, h => by
    rw [foldl_cons]
    refine foldl_bestLiveStep_score ?_ fun y hy => h y (mem_cons_of_mem _ hy)
    rw [bestLiveStep]
    grind

/-- `x` is the last of the live buckets of `l` with the highest score. -/
def LastBest (alive : Bucket A → Bool) (basis : UInt32) (l : List (Bucket A × Nat)) (x : Bucket A × Nat) : Prop :=
  ∃ before after, l = before ++ x :: after ∧ alive x.1 = true ∧
    (∀ y ∈ before, alive y.1 = true → bucketScore basis y.2 y.1 ≤ bucketScore basis x.2 x.1) ∧
    (∀ y ∈ after, alive y.1 = true → bucketScore basis y.2 y.1 < bucketScore basis x.2 x.1)

theorem LastBest.foldl {l : List (Bucket A × Nat)} (h : LastBest alive basis l x) :
    l.foldl (bestLiveStep alive basis) (none, 0) = (some x.1, bucketScore basis x.2 x.1) := by
  obtain ⟨before, after, rfl, hx, hbefore, hafter⟩ := h
  rw [foldl_append, foldl_cons, bestLiveStep, if_pos hx, if_pos (foldl_bestLiveStep_score UInt32.zero_le hbefore)]
  exact foldl_bestLiveStep_lower hafter

/-- The induction is on the list from its end, as the last bucket with the highest score wins. -/
theorem exists_lastBest {l : List (Bucket A × Nat)} (h : ∃ x ∈ l, alive x.1 = true) :
    ∃ x, LastBest alive basis l x := by
  induction l using List.reverseRecOn with
  | nil => exact absurd h (by simp)
  | append_singleton l y ih =>
    by_cases hl : ∃ x ∈ l, alive x.1 = true
    · obtain ⟨x, before, after, rfl, hx, hbefore, hafter⟩ := ih hl
      by_cases hy : alive y.1 = true ∧ bucketScore basis x.2 x.1 ≤ bucketScore basis y.2 y.1
      · refine ⟨y, before ++ x :: after, [], rfl, hy.1, fun z hz hlive => ?_, forall_mem_nil _⟩
        grind
      · refine ⟨x, before, after ++ [y], by simp, hx, hbefore, fun z hz hlive => ?_⟩
        grind
    · obtain ⟨x, hx, hlive⟩ := h
      rcases mem_append.1 hx with hx | hx
      · exact absurd ⟨x, hx, hlive⟩ hl
      · cases mem_singleton.1 hx
        exact ⟨y, l, [], rfl, hlive, fun z hz hz' => absurd ⟨z, hz, hz'⟩ hl, forall_mem_nil _⟩

end Best

theorem groupBestLiveBucket_eq_some {alive : Bucket A → Bool} {basis : UInt32} :
    groupBestLiveBucket alive g basis = some b ↔ ∃ i, LastBest alive basis g.buckets.zipIdx (b, i) := by
  constructor
  · intro h
    by_cases hlive : ∃ x ∈ g.buckets.zipIdx, alive x.1 = true
    · obtain ⟨x, hx⟩ : ∃ x, LastBest alive basis _ x := exists_lastBest hlive
      rw [groupBestLiveBucket, hx.foldl] at h
      cases h
      exact ⟨x.2, hx⟩
    · have hdead : ∀ x ∈ g.buckets.zipIdx, alive x.1 = true → bucketScore basis x.2 x.1 < 0 :=
        fun x hx hx' => absurd ⟨x, hx, hx'⟩ hlive
      rw [groupBestLiveBucket, foldl_bestLiveStep_lower hdead] at h
      cases h
  · rintro ⟨i, hi⟩
    rw [groupBestLiveBucket, hi.foldl]

theorem groupBestLiveBucket_some_of_live {alive : Bucket A → Bool} (basis : UInt32)
    (h : ∃ b ∈ g.buckets, alive b = true) :
    ∃ b ∈ g.buckets, alive b = true ∧ groupBestLiveBucket alive g basis = some b := by
  obtain ⟨b, hb, hlive⟩ := h
  obtain ⟨i, hi⟩ := getElem?_of_mem hb
  obtain ⟨x, hx⟩ : ∃ x, LastBest alive basis g.buckets.zipIdx x :=
    exists_lastBest ⟨(b, i), mem_zipIdx_iff_getElem?.2 hi, hlive⟩
  have hmem : x ∈ g.buckets.zipIdx := by
    obtain ⟨before, after, heq, -⟩ := hx
    rw [heq]
    simp
  have hlive' : alive x.1 = true := by
    obtain ⟨-, -, -, h, -⟩ := hx
    exact h
  exact ⟨x.1, fst_mem_of_mem_zipIdx hmem, hlive', groupBestLiveBucket_eq_some.2 ⟨x.2, hx⟩⟩

/-- The choice stays as long as its bucket lives and only other buckets die. -/
theorem groupBestLiveBucket_stable {alive alive' : Bucket A → Bool} {basis : UInt32}
    (h : groupBestLiveBucket alive g basis = some b)
    (hdown : ∀ b' ∈ g.buckets, alive' b' = true → alive b' = true) (hb : alive' b = true) :
    groupBestLiveBucket alive' g basis = some b := by
  obtain ⟨i, before, after, heq, -, hbefore, hafter⟩ := groupBestLiveBucket_eq_some.1 h
  have hmem : ∀ y, y ∈ before ∨ y ∈ after → y.1 ∈ g.buckets := by
    intro y hy
    refine fst_mem_of_mem_zipIdx (k := 0) ?_
    rw [heq, mem_append]
    tauto
  refine groupBestLiveBucket_eq_some.2 ⟨i, before, after, heq, hb, fun y hy hlive => ?_, fun y hy hlive => ?_⟩
  · exact hbefore y hy (hdown _ (hmem y (.inl hy)) hlive)
  · exact hafter y hy (hdown _ (hmem y (.inr hy)) hlive)

/-! ## Liveness and selection together -/

/-- What the groups of a bridge should do: the code's liveness is the one above, a fast-failover group runs
the first of its buckets that is live, and a select group runs a live bucket if it has one. -/
structure SelectsLive (v : LivenessView A) : Prop where
  alive : ∀ g ∈ v.groups, ∀ b ∈ g.buckets, bucketIsAlive v b 0 = true ↔ Live v b
  failover : ∀ g ∈ v.groups, g.type = .ff → ∀ basis b, groupBuckets v g basis = [b] ↔
    ∃ before after, g.buckets = before ++ b :: after ∧ Live v b ∧ ∀ b' ∈ before, ¬Live v b'
  select : ∀ g ∈ v.groups, g.type = .select → ∀ basis, (∃ b ∈ g.buckets, Live v b) →
    ∃ b ∈ g.buckets, Live v b ∧ groupBuckets v g basis = [b]

/-- Select groups keep their choice for a fixed hash when the ports' status changes such that other buckets
go down. -/
def KeepsChoice (v v' : LivenessView A) : Prop :=
  ∀ g ∈ v.groups, g.type = .select → ∀ basis b, groupBuckets v g basis = [b] →
    (∀ b' ∈ g.buckets, Live v' b' → Live v b') → Live v' b → groupBuckets v' g basis = [b]

theorem groupBuckets_select (h : g.type = .select) {basis : UInt32} : groupBuckets v g basis = [b] ↔
      groupBestLiveBucket (bucketIsAlive v · 0) g basis = some b := by
  rw [groupBuckets, h]
  exact Option.toList_eq_singleton_iff

theorem groupBuckets_ff (h : g.type = .ff) {basis : UInt32} :
    groupBuckets v g basis = [b] ↔ groupFirstLiveBucket (bucketIsAlive v · 0) g = some b := by
  rw [groupBuckets, h]
  exact Option.toList_eq_singleton_iff

theorem selectsLive_of_alive
    (halive : ∀ g ∈ v.groups, ∀ b ∈ g.buckets, bucketIsAlive v b 0 = true ↔ Live v b) : SelectsLive v where
  alive := halive
  failover := by
    intro g hg hff basis b
    rw [groupBuckets_ff hff, groupFirstLiveBucket, find?_eq_some_iff_append]
    constructor
    · rintro ⟨hb, before, after, heq, hbefore⟩
      refine ⟨before, after, heq, (halive g hg b (by simp [heq])).1 hb, fun b' hb' hlive => ?_⟩
      grind
    · rintro ⟨before, after, heq, hb, hbefore⟩
      refine ⟨(halive g hg b (by simp [heq])).2 hb, before, after, heq, fun b' hb' => ?_⟩
      grind
  select := by
    intro g hg hselect basis hlive
    obtain ⟨b, hb, hlive⟩ := hlive
    obtain ⟨b', hb', hlive', hbest⟩ :=
      groupBestLiveBucket_some_of_live basis ⟨b, hb, (halive g hg b hb).2 hlive⟩
    exact ⟨b', hb', (halive g hg b' hb').1 hlive', (groupBuckets_select hselect).2 hbest⟩

theorem alive_of_decidedByPort (h : DecidedByPort v b) : bucketIsAlive v b 0 = true ↔ Live v b :=
  live_of_decidedByPort h _

/-- Where the code's liveness is right, no bucket depends on another group: if one did, it would be alive for
the code exactly when no bucket of that group is. -/
theorem decidedByPort_of_alive
    (halive : ∀ g ∈ v.groups, ∀ b ∈ g.buckets, bucketIsAlive v b 0 = true ↔ Live v b)
    (hchains : ChainsShorterThan v.groups maxLivenessRecursion)
    (hg : g ∈ v.groups) (hb : b ∈ g.buckets) : DecidedByPort v b := by
  by_contra hd
  obtain ⟨g', hg', hany, hcode, hlive⟩ := alive_of_not_decidedByPort hd
  have hmem : g' ∈ v.groups := mem_of_find?_eq_some hg'
  have hchain' : ∀ gs, (g' :: gs).IsChain (Watches v.groups) → gs.length ≤ 126 := by
    intro gs hgs
    have := hchains g hg (g' :: gs) (isChain_cons_cons.2 ⟨⟨b, hb, hany, hg'⟩, hgs⟩)
    simp only [length_cons, maxLivenessRecursion] at this
    omega
  have hdepth : ∀ b' ∈ g'.buckets, bucketIsAliveWithin v 127 b' = bucketIsAlive v b' 0 := fun b' hb' =>
    bucketIsAliveWithin_stable 126 hchain' hb' (by omega : 126 ≤ 126) (by omega : 126 ≤ 127)
  have hopposite : Live v b ↔ ¬Live v b := by
    calc Live v b ↔ bucketIsAlive v b 0 = true := (halive g hg b hb).symm
      _ ↔ ∀ b' ∈ g'.buckets, bucketIsAliveWithin v 127 b' = false := hcode 127
      _ ↔ ∀ b' ∈ g'.buckets, ¬Live v b' := by
        grind
      _ ↔ ¬Live v b := by rw [hlive]; push Not; rfl
  exact iff_not_self hopposite

/-- Groups whose chains of watched groups are short enough run live buckets, before and after a change of the
ports' status, exactly when no bucket of theirs depends on another group. -/
theorem selectsLive_iff (v : LivenessView A) (mayEnable' : UInt16 → Option Bool)
    (hchains : ChainsShorterThan v.groups maxLivenessRecursion) :
    (SelectsLive v ∧ SelectsLive { v with mayEnable := mayEnable' } ∧
        KeepsChoice v { v with mayEnable := mayEnable' }) ↔
      ∀ g ∈ v.groups, ∀ b ∈ g.buckets,
        DecidedByPort v b ∧ DecidedByPort { v with mayEnable := mayEnable' } b := by
  constructor
  · rintro ⟨h, h', -⟩ g hg b hb
    exact ⟨decidedByPort_of_alive h.alive hchains hg hb, decidedByPort_of_alive h'.alive hchains hg hb⟩
  · intro hdecided
    have halive : ∀ g ∈ v.groups, ∀ b ∈ g.buckets, bucketIsAlive v b 0 = true ↔ Live v b :=
      fun g hg b hb => alive_of_decidedByPort (hdecided g hg b hb).1
    have halive' : ∀ g ∈ v.groups, ∀ b ∈ g.buckets,
        bucketIsAlive { v with mayEnable := mayEnable' } b 0 = true ↔ Live { v with mayEnable := mayEnable' } b :=
      fun g hg b hb => alive_of_decidedByPort (hdecided g hg b hb).2
    refine ⟨selectsLive_of_alive halive, selectsLive_of_alive halive', ?_⟩
    intro g hg hselect basis b hbest hdown hb
    rw [groupBuckets_select hselect] at hbest ⊢
    have hmem : b ∈ g.buckets := by
      obtain ⟨i, before, after, heq, -⟩ := groupBestLiveBucket_eq_some.1 hbest
      exact fst_mem_of_mem_zipIdx (x := (b, i)) (k := 0) (by simp [heq])
    refine groupBestLiveBucket_stable hbest (fun b' hb' h => ?_) ((halive' g hg b hmem).2 hb)
    exact (halive g hg b' hb').2 (hdown b' hb' ((halive' g hg b' hb').1 h))

/-- A fast-failover group whose two buckets watch ports 1 and 2. -/
def failoverGroup : Group Unit :=
  { groupId := 1, type := .ff, buckets := [⟨1, 1, ofpgAny, ()⟩, ⟨1, 2, ofpgAny, ()⟩] }

/-- A fast-failover group whose only bucket watches the group `2`. -/
def nestedGroup : Group Unit :=
  { groupId := 1, type := .ff, buckets := [⟨1, ofppAny, 2, ()⟩] }

/-- A select group whose only bucket watches nothing. -/
def unwatchedGroup : Group Unit :=
  { groupId := 2, type := .select, buckets := [⟨1, ofppAny, ofpgAny, ()⟩] }

/-- Port 1 goes down, and the group moves from its first bucket to its second. -/
theorem selectsLive_failover : ChainsShorterThan [failoverGroup] maxLivenessRecursion ∧
      SelectsLive ⟨[failoverGroup], fun _ => some true⟩ ∧
      SelectsLive ⟨[failoverGroup], fun p => some (p ≠ 1)⟩ ∧
      groupBuckets ⟨[failoverGroup], fun p => some (p ≠ 1)⟩ failoverGroup 0 = [⟨1, 2, ofpgAny, ()⟩] := by
  have hchains : ChainsShorterThan [failoverGroup] maxLivenessRecursion := by
    intro g hg gs hgs
    cases gs with
    | nil => decide
    | cons g' gs =>
      obtain ⟨b, hb, hany, -⟩ := (isChain_cons_cons.1 hgs).1
      cases mem_singleton.1 hg
      simp [failoverGroup] at hb
      rcases hb with rfl | rfl <;> exact absurd rfl hany
  obtain ⟨h, h', -⟩ := (selectsLive_iff ⟨[failoverGroup], fun _ => some true⟩ (fun p => some (p ≠ 1)) hchains).2
    (by decide)
  exact ⟨hchains, h, h', by decide⟩

/-- The watched group has a live bucket, but the code takes the bucket that watches it for dead, and the group
runs no bucket. -/
theorem selectsLive_nested_group :
    ChainsShorterThan [nestedGroup, unwatchedGroup] maxLivenessRecursion ∧
      (∀ b ∈ nestedGroup.buckets, Live ⟨[nestedGroup, unwatchedGroup], fun _ => none⟩ b ∧
        bucketIsAlive ⟨[nestedGroup, unwatchedGroup], fun _ => none⟩ b 0 = false) ∧
      groupBuckets ⟨[nestedGroup, unwatchedGroup], fun _ => none⟩ nestedGroup 0 = [] ∧
      ¬SelectsLive ⟨[nestedGroup, unwatchedGroup], fun _ => none⟩ := by
  have hlive : ∀ b ∈ nestedGroup.buckets, Live ⟨[nestedGroup, unwatchedGroup], fun _ => none⟩ b := by
    intro b hb
    cases mem_singleton.1 hb
    exact .group (by decide) (g := unwatchedGroup) rfl (mem_singleton.2 rfl) (.unwatched (by decide))
  have hdead : ∀ b ∈ nestedGroup.buckets,
      bucketIsAlive ⟨[nestedGroup, unwatchedGroup], fun _ => none⟩ b 0 = false := by decide
  refine ⟨?_, fun b hb => ⟨hlive b hb, hdead b hb⟩, by decide, fun h => ?_⟩
  · -- the watched group watches none, so no chain has a second link
    have hend : ∀ g', ¬Watches [nestedGroup, unwatchedGroup] unwatchedGroup g' := by
      rintro g' ⟨b, hb, hany, -⟩
      cases mem_singleton.1 hb
      exact hany rfl
    have hnext : ∀ g', Watches [nestedGroup, unwatchedGroup] nestedGroup g' → unwatchedGroup = g' := by
      rintro g' ⟨b, hb, -, hg'⟩
      cases mem_singleton.1 hb
      exact Option.some.inj hg'
    rintro g hg (_ | ⟨g', _ | ⟨g'', gs⟩⟩) hgs
    · decide
    · change 1 < 128
      decide
    · obtain ⟨hw, hgs⟩ := isChain_cons_cons.1 hgs
      obtain ⟨hw', -⟩ := isChain_cons_cons.1 hgs
      rcases mem_pair.1 hg with rfl | rfl
      · cases hnext g' hw
        exact absurd hw' (hend g'')
      · exact absurd hw (hend g')
  · have := (h.alive nestedGroup mem_cons_self _ (mem_singleton.2 rfl)).2
      (hlive _ (mem_singleton.2 rfl))
    cases this

end LinkerOvs.Xlate
