/-
The breadth-first search of `cmap_insert_bfs`. It keeps no record of the buckets it has seen, and a queue of
limited length may lose paths, yet the path it finds never comes back to a bucket: a path that does is behind
a shorter one to the same bucket in the queue, and whatever the longer one would find, the shorter one has
found before.
-/
import LinkerOvs.Cmap.Buckets

namespace LinkerOvs.Cmap

open List

/-! ## Properties of a list by what comes before -/

/-- Every element has `P` with the elements before it. -/
def EachAfter {β : Type} (P : List β → β → Prop) (l : List β) : Prop := ∀ before x after, l = before ++ x :: after → P before x

theorem eachAfter_snoc {β : Type} {P : List β → β → Prop} {l : List β} {x : β} (h : EachAfter P l) (hx : P l x) :
    EachAfter P (l ++ [x]) := by
  intro before y after heq
  rcases eq_nil_or_concat after with rfl | ⟨after, z, rfl⟩
  · simp_all
  · rw [concat_eq_append, ← cons_append, ← append_assoc] at heq
    obtain ⟨rfl, -⟩ := append_inj' heq rfl
    exact h before y after rfl

variable {α : Type} {B : Build}

namespace Impl

variable {impl : Impl α}

def Full (B : Build) (impl : Impl α) (b : Nat) : Prop := impl.findEmptySlotProtected B b = none

def walk (B : Build) (impl : Impl α) (b : Nat) : List Nat → List Nat
  | [] => [b]
  | i :: is => b :: walk B impl (impl.otherBucket B b i) is

theorem walk_append (i : Nat) : ∀ (b : Nat) (is : List Nat),
    impl.walk B b (is ++ [i]) = impl.walk B b is ++ [impl.otherBucket B (is.foldl (impl.otherBucket B) b) i]
  | _, [] => rfl
  | b, i' :: is => by
    rw [cons_append, walk, walk_append i (impl.otherBucket B b i') is]
    rfl

theorem walk_eq_append : ∀ (b : Nat) (is : List Nat),
    ∃ bs, impl.walk B b is = bs ++ [is.foldl (impl.otherBucket B) b]
  | b, [] => ⟨[], rfl⟩
  | b, i :: is => by
    obtain ⟨bs, hbs⟩ := walk_eq_append (impl.otherBucket B b i) is
    exact ⟨b :: bs, by rw [walk, hbs]; rfl⟩

/-- A path from one of the two buckets through full ones. -/
structure PathOk (B : Build) (impl : Impl α) (b1 b2 : Nat) (p : Path) : Prop where
  start : p.start = b1 ∨ p.start = b2
  stop : p.stop = p.slots.foldl (impl.otherBucket B) p.start
  slots : ∀ i ∈ p.slots, i < B.k
  full : ∀ b ∈ impl.walk B p.start p.slots, impl.Full B b

/-- A path and the paths before it in the queue: each bucket on its way is where an earlier one stops, and if
it has come back to a bucket, an earlier one stops where it does. -/
structure Entry (B : Build) (impl : Impl α) (before : List Path) (p : Path) : Prop where
  passed : ∀ b ∈ (impl.walk B p.start p.slots).dropLast, ∃ q ∈ before, q.stop = b
  overtaken : (impl.walk B p.start p.slots).Nodup ∨ ∃ q ∈ before, q.stop = p.stop
  order : ∀ q ∈ before, q.slots.length ≤ p.slots.length

/-- The slot `i` of the last bucket of `p` has been looked at: it leads nowhere else, or to a full bucket to
which a path is in the queue, if there was room. -/
def LookedAt (B : Build) (impl : Impl α) (queue : List Path) (p : Path) (i : Nat) : Prop :=
  p.stop = impl.otherBucket B p.stop i ∨
    (impl.Full B (impl.otherBucket B p.stop i) ∧
      (p.slots.length < maxDepth → queue.length < maxQueue →
        ∃ q ∈ queue, q.stop = impl.otherBucket B p.stop i))

/-- The queue when the paths `done` have been taken from it. -/
structure SearchInv (B : Build) (impl : Impl α) (b1 b2 : Nat) (done queue : List Path) : Prop where
  paths : ∀ p ∈ done ++ queue, impl.PathOk B b1 b2 p
  entries : EachAfter (impl.Entry B) (done ++ queue)
  near : ∀ p rest, queue = p :: rest → ∀ q ∈ done ++ queue, q.slots.length ≤ p.slots.length + 1
  lookedAt : ∀ q ∈ done, ∀ i < B.k, impl.LookedAt B (done ++ queue) q i

variable {b1 b2 : Nat}

variable {p : Path} {i : Nat}

theorem LookedAt.mono {queue queue' : List Path} (h : impl.LookedAt B queue p i) (hsub : queue ⊆ queue')
    (hlen : queue.length ≤ queue'.length) : impl.LookedAt B queue' p i := by
  rcases h with h | ⟨hfull, hroom⟩
  · exact .inl h
  · refine .inr ⟨hfull, fun hdepth hqueue => ?_⟩
    grind

theorem PathOk.extend (h : impl.PathOk B b1 b2 p) (hi : i < B.k)
    (hfull : impl.Full B (impl.otherBucket B p.stop i)) :
    impl.PathOk B b1 b2 { p with stop := impl.otherBucket B p.stop i, slots := p.slots ++ [i] } where
  start := h.start
  stop := by simp [h.stop]
  slots i' hi' := by
    rcases mem_append.1 hi' with hi' | hi'
    · exact h.slots i' hi'
    · simp_all
  full b hb := by
    rw [walk_append, ← h.stop] at hb
    rcases mem_append.1 hb with hb | hb
    · exact h.full b hb
    · simp_all

/-- What the search does with one slot that leads to a full bucket. -/
theorem SearchInv.extend {done queue : List Path} (h : impl.SearchInv B b1 b2 done (p :: queue))
    (hi : i < B.k) (hnext : p.stop ≠ impl.otherBucket B p.stop i)
    (hfull : impl.Full B (impl.otherBucket B p.stop i)) (hdepth : p.slots.length < maxDepth)
    (hroom : (done ++ p :: queue).length < maxQueue) : impl.SearchInv B b1 b2 done
      (p :: (queue ++ [{ p with stop := impl.otherBucket B p.stop i, slots := p.slots ++ [i] }])) := by
  have hp : impl.PathOk B b1 b2 p := h.paths p (by simp)
  have hentry : impl.Entry B done p := h.entries done p queue rfl
  have hwalk : impl.walk B p.start (p.slots ++ [i]) = impl.walk B p.start p.slots ++ [impl.otherBucket B p.stop i] := by
    rw [walk_append, hp.stop]
  obtain ⟨bs, hbs⟩ := impl.walk_eq_append (B := B) p.start p.slots
  rw [← hp.stop] at hbs
  have hpassed : ∀ b ∈ impl.walk B p.start p.slots, ∃ q ∈ done ++ p :: queue, q.stop = b := by
    intro b hb
    rw [hbs] at hb
    rcases mem_append.1 hb with hb | hb
    · obtain ⟨q, hq, hstop⟩ := hentry.passed b (by rw [hbs]; simpa using hb)
      exact ⟨q, mem_append_left _ hq, hstop⟩
    · grind
  have hnew : impl.Entry B (done ++ p :: queue)
      { p with stop := impl.otherBucket B p.stop i, slots := p.slots ++ [i] } := by
    refine ⟨?_, ?_, fun q hq => ?_⟩
    · simp_all
    · rw [hwalk]
      rcases hentry.overtaken with hnodup | ⟨q, hq, hstop⟩
      · -- the way so far has no repetition: either the step adds none, or it goes back to a bucket on the way
        by_cases hmem : impl.otherBucket B p.stop i ∈ impl.walk B p.start p.slots
        · exact .inr (hpassed _ hmem)
        · refine .inl (nodup_append.2 ⟨hnodup, nodup_singleton _, ?_⟩)
          grind
      · -- an earlier path stops where this one does, and has been continued in the same way
        have hlen := hentry.order q hq
        rcases h.lookedAt q hq i hi with hself | ⟨-, hfound⟩
        · grind
        · rw [hstop] at hfound
          exact .inr (hfound (by omega) hroom)
    · have := h.near p queue rfl q hq
      simpa using this
  have hassoc : ∀ x, done ++ (p :: (queue ++ [x])) = (done ++ p :: queue) ++ [x] := by simp
  refine ⟨?_, ?_, ?_, ?_⟩
  · rw [hassoc]
    intro q hq
    rcases mem_append.1 hq with hq | hq
    · exact h.paths q hq
    · cases mem_singleton.1 hq
      exact hp.extend hi hfull
  · rw [hassoc]
    exact eachAfter_snoc h.entries hnew
  · rintro p' rest ⟨⟩ q hq
    rw [hassoc] at hq
    rcases mem_append.1 hq with hq | hq
    · exact h.near p queue rfl q hq
    · simp_all
  · intro q hq i' hi'
    refine (h.lookedAt q hq i' hi').mono ?_ ?_
    · rw [hassoc]
      exact subset_append_left _ _
    · simp

/-- The result of looking at the slots of one bucket: one of them leads to a bucket with an empty slot, or all
have been looked at. -/
def Expanded (B : Build) (impl : Impl α) (b1 b2 : Nat) (done : List Path) (p : Path) :
    FoundPath ⊕ (List Path × Nat) → Prop
  | .inl found => found.path = p ∧ found.i < B.k ∧ p.stop ≠ impl.otherBucket B p.stop found.i ∧
      impl.findEmptySlotProtected B (impl.otherBucket B p.stop found.i) = some found.j
  | .inr (queue, head) => impl.SearchInv B b1 b2 done (p :: queue) ∧ head = (done ++ p :: queue).length ∧
      ∀ i < B.k, impl.LookedAt B (done ++ p :: queue) p i

theorem expand_spec {done : List Path} : ∀ (is : List Nat) {queue : List Path} {head : Nat},
    impl.SearchInv B b1 b2 done (p :: queue) → head = (done ++ p :: queue).length → (∀ i ∈ is, i < B.k) →
    (∀ i < B.k, i ∉ is → impl.LookedAt B (done ++ p :: queue) p i) →
    impl.Expanded B b1 b2 done p (impl.expand B p is queue head)
  | [], queue, head, h, hhead, _, hlooked => ⟨h, hhead, fun i hi => hlooked i hi (not_mem_nil)⟩
  | i :: is, queue, head, h, hhead, his, hlooked => by
    have hi := his i mem_cons_self
    have his' : ∀ i ∈ is, i < B.k := fun i hi => his i (mem_cons_of_mem _ hi)
    have hrest : ∀ {queue'}, impl.LookedAt B (done ++ p :: queue') p i →
        (∀ i' < B.k, i' ∉ i :: is → impl.LookedAt B (done ++ p :: queue') p i') →
        ∀ i' < B.k, i' ∉ is → impl.LookedAt B (done ++ p :: queue') p i' := by
      grind
    rw [expand]
    split
    · next hself => exact expand_spec is h hhead his' (hrest (.inl hself) hlooked)
    next hnext =>
    split
    · next j hj => exact ⟨rfl, hi, hnext, hj⟩
    next hfull =>
    split
    · next hroom =>
      have hext := h.extend hi hnext hfull hroom.1 (hhead ▸ hroom.2)
      refine expand_spec is hext (by simp [hhead]; omega) his' (hrest ?_ fun i' hi' hmem => ?_)
      · refine .inr ⟨hfull, fun _ _ =>
          ⟨{ p with stop := impl.otherBucket B p.stop i, slots := p.slots ++ [i] }, ?_, rfl⟩⟩
        simp
      · refine (hlooked i' hi' hmem).mono ?_ (by simp)
        grind
    · next hroom =>
      refine expand_spec is h hhead his' (hrest (.inr ⟨hfull, fun hdepth hqueue => ?_⟩) hlooked)
      exact absurd ⟨hdepth, hhead ▸ hqueue⟩ hroom

/-- A path that the search may return. -/
structure Rearranges (B : Build) (impl : Impl α) (b1 b2 : Nat) (found : FoundPath) : Prop where
  path : impl.PathOk B b1 b2 found.path
  nodup : (impl.walk B found.path.start found.path.slots).Nodup
  slot : found.i < B.k
  next : found.path.stop ≠ impl.otherBucket B found.path.stop found.i
  empty : impl.findEmptySlotProtected B (impl.otherBucket B found.path.stop found.i) = some found.j

theorem search_spec : ∀ (turns : Nat) {done queue : List Path} {head : Nat} {found : FoundPath},
    impl.SearchInv B b1 b2 done queue → head = (done ++ queue).length →
    impl.search B turns queue head = some found → impl.Rearranges B b1 b2 found
  | turns + 1, done, p :: queue, head, found, h, hhead, hsearch => by
    have hexpand := expand_spec (List.range B.k) h hhead (fun i hi => by simpa using hi)
      (fun i hi hmem => absurd (mem_range.2 hi) hmem)
    rw [search] at hsearch
    cases hresult : impl.expand B p (List.range B.k) queue head with
    | inl found' =>
      rw [hresult] at hexpand hsearch
      cases hsearch
      obtain ⟨rfl, hi, hnext, hempty⟩ := hexpand
      refine ⟨h.paths _ (by simp), ?_, hi, hnext, hempty⟩
      rcases (h.entries done _ queue rfl).overtaken with hnodup | ⟨q, hq, hstop⟩
      · exact hnodup
      -- an earlier path stops in the same bucket: it would have found the empty slot
      rcases h.lookedAt q hq _ hi with hself | ⟨hfull, -⟩
      · grind
      · rw [hstop] at hfull
        cases hfull.symm.trans hempty
    | inr rest =>
      obtain ⟨queue', head'⟩ := rest
      rw [hresult] at hexpand hsearch
      obtain ⟨hinv, hhead', hlooked⟩ := hexpand
      have hassoc : (done ++ [p]) ++ queue' = done ++ p :: queue' := by simp
      have hinv' : impl.SearchInv B b1 b2 (done ++ [p]) queue' := by
        refine ⟨?_, ?_, ?_, ?_⟩
        · rw [hassoc]
          exact hinv.paths
        · rw [hassoc]
          exact hinv.entries
        · rintro p' rest rfl q hq
          rw [hassoc] at hq
          have hnear := hinv.near p (p' :: rest) rfl q hq
          have horder := (hinv.entries (done ++ [p]) p' rest (by simp)).order p (by simp)
          omega
        · intro q hq i hi
          rw [hassoc]
          rcases mem_append.1 hq with hq | hq
          · exact hinv.lookedAt q hq i hi
          · simp_all
      exact search_spec turns hinv' (by rw [hassoc]; exact hhead') hsearch

end Impl

end LinkerOvs.Cmap
