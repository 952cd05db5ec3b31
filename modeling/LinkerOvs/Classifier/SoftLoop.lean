/-
The loops over the soft matches of a lookup, without the lookups that they start: deleting soft matches,
the highest priority among them, and the step down to the matches behind those of the highest priority.
Each turn of the soft match loop leaves fewer matches, so the loop ends.
-/
import LinkerOvs.Classifier.Lookup
import LinkerOvs.Lib.Loop

namespace LinkerOvs.Cls

open List

variable {env : Env} {cls : Classifier} {v : Version} {f : Flow} {soft : List (List ClsMatch)} {p : Int}

/-! ## Deleting soft matches -/

theorem deleteSoft_perm (hardPri : Int) : ∀ {n : Nat} {soft : List (List ClsMatch)}, soft.length ≤ n →
    (deleteSoft hardPri n soft).Perm (soft.filter (softStays hardPri))
  | 0, soft, h => by
    rw [eq_nil_of_length_eq_zero (Nat.le_zero.1 h)]
    exact .refl _
  | _ + 1, [], _ => .refl _
  | n + 1, s :: soft, h => by
    rw [length_cons] at h
    rw [deleteSoft]
    by_cases hstays : softStays hardPri s = true
    · rw [if_pos hstays, filter_cons_of_pos hstays]
      exact (deleteSoft_perm hardPri (by omega)).cons s
    rw [if_neg hstays, filter_cons_of_neg hstays]
    rcases eq_nil_or_concat soft with rfl | ⟨init, last, rfl⟩
    · exact .refl _
    · -- the last one is in the place of the one that goes
      rw [concat_eq_append, getLast?_append, dropLast_concat]
      refine (deleteSoft_perm hardPri (by simp at h ⊢; omega)).trans ?_
      exact (perm_append_singleton last init).symm.filter _

theorem mem_deleteSoft {hardPri : Int} {s : List ClsMatch} :
    s ∈ deleteSoft hardPri soft.length soft ↔ s ∈ soft ∧ s ≠ [] ∧ hardPri < softPriority s := by
  rw [(deleteSoft_perm hardPri (le_refl _)).mem_iff, mem_filter]
  simp [softStays]

/-! ## The highest priority -/

theorem highestSoft_spec (hne : soft ≠ []) (habove : ∀ s ∈ soft, intMin < softPriority s) :
    (∀ s ∈ soft, softPriority s ≤ (highestSoft soft).1) ∧ (∃ s ∈ soft, softPriority s = (highestSoft soft).1) ∧
      (highestSoft soft).2 = (soft.filter fun s => softPriority s = (highestSoft soft).1).length :=
  foldl_countMax_of_lt softPriority hne habove

/-! ## The next lower priority -/

/-- What a soft match becomes when the lookup goes on below priority `p`. -/
def lowerOne (v : Version) (p : Int) (s : List ClsMatch) : List ClsMatch :=
  if softPriority s ≠ p then s
  else match visibleFrom v s.tail with
    | [] => []
    | m :: next => if m.conjSet = [] then [] else m :: next

/-- `m` is the hard match behind a soft match of priority `p`. -/
def HardBehind (v : Version) (p : Int) (s : List ClsMatch) (m : ClsMatch) : Prop :=
  softPriority s = p ∧ m.conjSet = [] ∧ ∃ next, visibleFrom v s.tail = m :: next

theorem HardBehind.unique {s : List ClsMatch} {m m' : ClsMatch} (h : HardBehind v p s m) (h' : HardBehind v p s m') :
    m = m' := by
  obtain ⟨-, -, next, hnext⟩ := h
  obtain ⟨-, -, next', hnext'⟩ := h'
  simp_all

/-- What is left of a soft match: itself, nothing, or the soft match behind it. -/
theorem lowerOne_cases (v : Version) (p : Int) (s : List ClsMatch) : softPriority s ≠ p ∧ lowerOne v p s = s ∨
    softPriority s = p ∧ (visibleFrom v s.tail = [] ∨ ∃ m, HardBehind v p s m) ∧ lowerOne v p s = [] ∨
    softPriority s = p ∧ ∃ m next, visibleFrom v s.tail = m :: next ∧ m.conjSet ≠ [] ∧ lowerOne v p s = m :: next := by
  unfold lowerOne
  by_cases hpri : softPriority s = p
  · rw [if_neg (not_not.2 hpri)]
    cases hnext : visibleFrom v s.tail with
    | nil => exact .inr (.inl ⟨hpri, .inl rfl, rfl⟩)
    | cons m next =>
      by_cases hconj : m.conjSet = []
      · exact .inr (.inl ⟨hpri, .inr ⟨m, hpri, hconj, next, hnext⟩, if_pos hconj⟩)
      · exact .inr (.inr ⟨hpri, m, next, rfl, hconj, if_neg hconj⟩)
  · exact .inl ⟨hpri, if_pos hpri⟩

theorem lowerSoft_cons (v : Version) (p : Int) (s : List ClsMatch) (soft : List (List ClsMatch))
    (hard : Option ClsMatch × Int) : ∃ hard₁,
      lowerSoft v p (s :: soft) hard = (lowerOne v p s :: (lowerSoft v p soft hard₁).1, (lowerSoft v p soft hard₁).2) ∧
      ((∀ m, ¬HardBehind v p s m) ∧ hard₁ = hard ∨
        ∃ m, HardBehind v p s m ∧ hard₁ = if m.priority > hard.2 then (some m, m.priority) else hard) := by
  rw [lowerSoft, lowerOne]
  by_cases hpri : softPriority s = p
  · rw [if_neg (not_not.2 hpri), if_neg (not_not.2 hpri)]
    cases hnext : visibleFrom v s.tail with
    | nil =>
      refine ⟨hard, rfl, .inl ⟨?_, rfl⟩⟩
      rintro m ⟨-, -, next, h⟩
      cases hnext.symm.trans h
    | cons m next =>
      by_cases hconj : m.conjSet = []
      · exact ⟨_, by simp only [if_pos hconj], .inr ⟨m, ⟨hpri, hconj, next, hnext⟩, rfl⟩⟩
      · refine ⟨hard, by simp only [if_neg hconj], .inl ⟨?_, rfl⟩⟩
        rintro m' ⟨-, hconj', next', h⟩
        simp_all
  · rw [if_pos hpri, if_pos hpri]
    exact ⟨hard, rfl, .inl ⟨fun m hm => hpri hm.1, rfl⟩⟩

theorem lowerSoft_fst (v : Version) (p : Int) : ∀ (soft : List (List ClsMatch)) (hard : Option ClsMatch × Int),
    (lowerSoft v p soft hard).1 = soft.map (lowerOne v p)
  | [], _ => rfl
  | s :: soft, hard => by
    obtain ⟨hard₁, heq, -⟩ := lowerSoft_cons v p s soft hard
    rw [heq, map_cons, lowerSoft_fst v p soft]

/-- The hard match after the step down is the old one or one that was behind a soft match, and none of those is above
it. -/
theorem lowerSoft_snd (v : Version) (p : Int) : ∀ (soft : List (List ClsMatch)) (hard : Option ClsMatch × Int),
    let r := (lowerSoft v p soft hard).2
    hard.2 ≤ r.2 ∧ (r = hard ∨ ∃ s ∈ soft, ∃ m, HardBehind v p s m ∧ r = (some m, m.priority)) ∧
      ∀ s ∈ soft, ∀ m, HardBehind v p s m → m.priority ≤ r.2
  | [], hard => ⟨le_refl _, .inl rfl, forall_mem_nil _⟩
  | s :: soft, hard => by
    obtain ⟨hard₁, heq, hcase⟩ := lowerSoft_cons v p s soft hard
    obtain ⟨hle, hfrom, hall⟩ := lowerSoft_snd v p soft hard₁
    rw [heq]
    rcases hcase with ⟨hnone, rfl⟩ | ⟨m, hm, rfl⟩
    · grind
    have hboth : hard.2 ≤ (if m.priority > hard.2 then (some m, m.priority) else hard).2 ∧
        m.priority ≤ (if m.priority > hard.2 then (some m, m.priority) else hard).2 := by
      split
      · omega
      · omega
    refine ⟨hboth.1.trans hle, ?_, forall_mem_cons.2 ⟨fun y hy => ?_, hall⟩⟩
    · grind
    · rw [hy.unique hm]
      exact hboth.2.trans hle

/-! ## The end of the loop -/

/-- The number of matches that the soft matches lead to. -/
def softSize (soft : List (List ClsMatch)) : Nat := (soft.map List.length).sum

theorem visibleFrom_sublist (v : Version) (list : List ClsMatch) : (visibleFrom v list).Sublist list :=
  dropWhile_sublist _

theorem lowerOne_sublist (v : Version) (p : Int) (s : List ClsMatch) : (lowerOne v p s).Sublist s := by
  rcases lowerOne_cases v p s with ⟨-, heq⟩ | ⟨-, -, heq⟩ | ⟨-, m, next, hnext, -, heq⟩
  · rw [heq]
  · simp [*]
  · rw [heq, ← hnext]
    exact (visibleFrom_sublist v s.tail).trans (tail_sublist s)

theorem lowerOne_length_lt {s : List ClsMatch} (hne : s ≠ []) (hpri : softPriority s = p) :
    (lowerOne v p s).length < s.length := by
  have hpos := length_pos_of_ne_nil hne
  rcases lowerOne_cases v p s with ⟨hno, -⟩ | ⟨-, -, heq⟩ | ⟨-, m, next, hnext, -, heq⟩
  · exact absurd hpri hno
  · rw [heq]
    exact hpos
  · have hle := (visibleFrom_sublist v s.tail).length_le
    grind

theorem softSize_lower_le (v : Version) (p : Int) : ∀ soft : List (List ClsMatch),
    softSize (soft.map (lowerOne v p)) ≤ softSize soft
  | [] => le_refl _
  | s :: soft => Nat.add_le_add (lowerOne_sublist v p s).length_le (softSize_lower_le v p soft)

theorem softSize_lower_lt : ∀ {soft : List (List ClsMatch)}, (∃ s ∈ soft, s ≠ [] ∧ softPriority s = p) →
    softSize (soft.map (lowerOne v p)) < softSize soft
  | s :: soft, ⟨x, hx, hne, hpri⟩ => by
    rcases mem_cons.1 hx with rfl | hx
    · exact Nat.add_lt_add_of_lt_of_le (lowerOne_length_lt hne hpri) (softSize_lower_le v p soft)
    · exact Nat.add_lt_add_of_le_of_lt (lowerOne_sublist v p s).length_le (softSize_lower_lt ⟨x, hx, hne, hpri⟩)

theorem softSize_deleteSoft_le (hardPri : Int) (soft : List (List ClsMatch)) :
    softSize (deleteSoft hardPri soft.length soft) ≤ softSize soft := by
  have hperm : softSize (deleteSoft hardPri soft.length soft) = softSize (soft.filter (softStays hardPri)) :=
    ((deleteSoft_perm hardPri (le_refl _)).map List.length).sum_eq
  rw [hperm]
  exact (filter_sublist.map List.length).sum_le_sum fun _ _ => Nat.zero_le _

end LinkerOvs.Cls
