/-
A loop over the keys of a state in which the visits change the state: members may be added and taken out while the
loop runs, and it goes on until every member has been visited, each of them once and in any order. The rule says what
holds at the end of what every visit keeps.
-/
import Mathlib.Tactic
import LinkerOvs.Lib.Outcome

universe u v

namespace Worklist

open List

variable {σ κ : Type u} {ε : Type v}

/-- The member that `pick` chooses. -/
def choose (pick : List κ → Nat) (l : List κ) : Option κ := l[pick l % l.length]?

theorem choose_eq_none {pick : List κ → Nat} {l : List κ} (h : choose pick l = none) : l = [] := by
  rw [choose, List.getElem?_eq_none_iff] at h
  rcases Nat.eq_zero_or_pos l.length with hl | hl
  · exact eq_nil_of_length_eq_zero hl
  · exact absurd (Nat.mod_lt (pick l) hl) (by omega)

variable [DecidableEq κ] (keys : σ → List κ) (pick : List κ → Nat) (visit : κ → σ → Except ε σ) (out : σ → ε)

/-- A member that has not been visited. -/
def next (done : List κ) (s : σ) : Option κ := choose pick ((keys s).filter (· ∉ done))

/-- The loop, in at most so many turns, after the members in `done`. -/
def forEach : Nat → List κ → σ → Except ε σ
  | 0, done, s => if (next keys pick done s).isNone then .ok s else .error (out s)
  | turns + 1, done, s =>
    match next keys pick done s with
    | none => .ok s
    | some k => visit k s >>= forEach turns (k :: done)

variable {keys pick visit out} {done : List κ} {s : σ}

theorem next_some {k : κ} (h : next keys pick done s = some k) : k ∈ keys s ∧ k ∉ done := by
  simpa using mem_filter.1 (mem_of_getElem? h)

theorem next_none (h : next keys pick done s = none) : ∀ k ∈ keys s, k ∈ done := by
  intro k hk
  by_contra hdone
  have hmem : k ∈ (keys s).filter (· ∉ done) := mem_filter.2 ⟨hk, by simpa using hdone⟩
  rw [choose_eq_none h] at hmem
  cases hmem

/-- The rule of the loop. `I` says what holds when the members in the list have been visited, and all members there
ever are come from a list that is no longer than the turns allow. -/
theorem forEach_meets (keys : σ → List κ) (pick : List κ → Nat) (visit : κ → σ → Except ε σ) (out : σ → ε)
    {U : List κ} {I : List κ → σ → Prop} {E : ε → Prop}
    (hkeys : ∀ done s, I done s → ∀ k ∈ keys s, k ∈ U)
    (hvisit : ∀ done s k, I done s → k ∈ keys s → k ∉ done → (visit k s).Meets E (I (k :: done))) :
    ∀ (turns : Nat) (done : List κ) (s : σ), done.Nodup → done ⊆ U → U.length ≤ turns + done.length → I done s →
      (forEach keys pick visit out turns done s).Meets E fun t => ∃ done, I done t ∧ ∀ k ∈ keys t, k ∈ done := by
  intro turns
  induction turns with
  | zero =>
    intro done s hnodup hsub hlen hI
    cases hnext : next keys pick done s with
    | none =>
      rw [forEach, hnext]
      exact ⟨done, hI, next_none hnext⟩
    | some k =>
      -- there would be one member more than there are
      obtain ⟨hk, hfresh⟩ := next_some hnext
      have hle : (k :: done).length ≤ U.length :=
        ((nodup_cons.2 ⟨hfresh, hnodup⟩).subperm (cons_subset.2 ⟨hkeys done s hI k hk, hsub⟩)).length_le
      rw [length_cons] at hle
      omega
  | succ turns ih =>
    intro done s hnodup hsub hlen hI
    cases hnext : next keys pick done s with
    | none =>
      rw [forEach, hnext]
      exact ⟨done, hI, next_none hnext⟩
    | some k =>
      obtain ⟨hk, hfresh⟩ := next_some hnext
      rw [forEach, hnext]
      refine (hvisit done s k hI hk hfresh).bind fun t ht => ?_
      grind

end Worklist
