/-
Computations that may stop with a fault, as `Except`: how a bind ends, which lets a proof peel a
`do` block apart without unfolding the monad.
-/
import Mathlib.Tactic

universe u v

variable {ε : Type u} {α β : Type v}

namespace Except

@[simp] theorem ok_bind (a : α) (f : α → Except ε β) : (Except.ok a >>= f) = f a := rfl

@[simp] theorem error_bind (e : ε) (f : α → Except ε β) : (Except.error e >>= f) = .error e := rfl

variable {x : Except ε α} {f : α → Except ε β} {Q : α → Prop} {F : ε → Prop}

theorem bind_eq_ok {b : β} (h : (x >>= f) = .ok b) : ∃ a, x = .ok a ∧ f a = .ok b := by
  cases x with
  | error e => cases h
  | ok a => exact ⟨a, rfl, h⟩

/-- The computation ends without a fault. -/
def Succeeds (x : Except ε α) : Prop := ∃ a, x = .ok a

@[simp] theorem succeeds_ok (a : α) : (Except.ok a : Except ε α).Succeeds := ⟨a, rfl⟩

@[simp] theorem succeeds_pure (a : α) : (pure a : Except ε α).Succeeds := ⟨a, rfl⟩

@[simp] theorem not_succeeds_error (e : ε) : ¬ (Except.error e : Except ε α).Succeeds := by
  rintro ⟨a, h⟩; cases h

theorem succeeds_bind : (x >>= f).Succeeds ↔ ∃ a, x = .ok a ∧ (f a).Succeeds := by
  constructor
  · rintro ⟨b, h⟩
    obtain ⟨a, ha, hb⟩ := bind_eq_ok h
    exact ⟨a, ha, b, hb⟩
  · simp_all

/-- The computation ends with `a` just when `P` holds. -/
def Decides (P : Prop) (a : α) (x : Except ε α) : Prop := (P ∧ x = .ok a) ∨ (¬ P ∧ ∃ e, x = .error e)

namespace Decides

variable {P R : Prop} {a : α} {b : β}

theorem ite (P : Prop) [Decidable P] (a : α) (e : ε) : (if P then .ok a else .error e : Except ε α).Decides P a := by
  split
  · next h => exact .inl ⟨h, rfl⟩
  · next h => exact .inr ⟨h, e, rfl⟩

theorem congr (hx : x.Decides P a) (h : P ↔ R) : x.Decides R a := propext h ▸ hx

/-- What the whole needs, the first step needs too. -/
theorem bind (hx : x.Decides P a) (hP : R → P) (hf : P → (f a).Decides R b) : (x >>= f).Decides R b := by
  rcases hx with ⟨h, rfl⟩ | ⟨h, e, rfl⟩
  · exact hf h
  · exact .inr ⟨fun hR => h (hP hR), e, rfl⟩

theorem succeeds_bind (hx : x.Decides P a) : (x >>= f).Succeeds ↔ P ∧ (f a).Succeeds := by
  rcases hx with ⟨h, rfl⟩ | ⟨h, e, rfl⟩
  · exact (and_iff_right h).symm
  · exact iff_of_false (not_succeeds_error e) fun hR => h hR.1

end Decides

/-- The computation ends with a value that has the property `Q`, or with a fault that `E` allows. -/
def Meets (E : ε → Prop) (Q : α → Prop) : Except ε α → Prop
  | .ok a => Q a
  | .error e => E e

theorem Meets.imp {E F : ε → Prop} {R : α → Prop} (hx : x.Meets E Q) (hE : ∀ e, E e → F e) (h : ∀ a, Q a → R a) :
    x.Meets F R := by
  cases x with
  | error e => exact hE e hx
  | ok a => exact h a hx

theorem Meets.mono {E : ε → Prop} {R : α → Prop} (hx : x.Meets E Q) (h : ∀ a, Q a → R a) : x.Meets E R :=
  hx.imp (fun _ he => he) h

theorem Meets.bind {E : ε → Prop} {R : β → Prop} (hx : x.Meets E Q) (hf : ∀ a, Q a → (f a).Meets E R) :
    (x >>= f).Meets E R := by
  cases x with
  | error e => exact hx
  | ok a => exact hf a hx

theorem Meets.exists_ok (hx : x.Meets (fun _ => False) Q) : ∃ a, x = .ok a ∧ Q a := by
  cases x with
  | error e => exact hx.elim
  | ok a => exact ⟨a, rfl, hx⟩

/-- The computation ends with a fault of some kind. -/
def Fails (F : ε → Prop) (x : Except ε α) : Prop := ∃ e, x = .error e ∧ F e

@[simp] theorem not_fails_ok {a : α} : ¬ (Except.ok a).Fails F := by
  rintro ⟨e, h, -⟩; cases h

@[simp] theorem fails_error {e : ε} : (Except.error e : Except ε α).Fails F ↔ F e := by
  constructor
  · rintro ⟨e', h, he⟩
    cases h
    exact he
  · exact fun he => ⟨e, rfl, he⟩

theorem fails_bind : (x >>= f).Fails F ↔ x.Fails F ∨ ∃ a, x = .ok a ∧ (f a).Fails F := by
  cases x with
  | error e => simp
  | ok a => simp

theorem foldlM_keeps {σ : Type v} {α : Type u} {P : σ → Prop} {f : σ → α → Except ε σ}
    (hf : ∀ s a s', P s → f s a = .ok s' → P s') : ∀ {l : List α} {s s' : σ}, P s → l.foldlM f s = .ok s' → P s'
  | [], s, s', hs, h => by
    cases h
    exact hs
  | a :: l, s, s', hs, h => by
    obtain ⟨s₁, h₁, h₂⟩ := bind_eq_ok h
    exact foldlM_keeps hf (hf _ _ _ hs h₁) h₂

/-! ## Faults that come with a state -/

section Within

variable {ε σ : Type v} {α : Type u} {R : σ → σ → Prop} {P : ε → Prop} {s : σ}

/-- From the state `s` the computation gets, also with its faults, to a state that `R` relates to `s`; the faults are
those that `P` allows. -/
def Within (R : σ → σ → Prop) (P : ε → Prop) (s : σ) (x : Except (ε × σ) σ) : Prop :=
  x.Meets (fun e => R s e.2 ∧ P e.1) (R s)

variable {t : σ}

theorem Within.ok (h : R s t) : Within R P s (.ok t : Except (ε × σ) σ) := h

theorem Within.error {e : ε} (h : R s t) (he : P e) : Within R P s (.error (e, t) : Except (ε × σ) σ) := ⟨h, he⟩

section

variable (htrans : ∀ a b c, R a b → R b c → R a c)
include htrans

theorem Within.after {x : Except (ε × σ) σ} (h : R s t) (hx : Within R P t x) : Within R P s x := by
  cases x with
  | error e => exact ⟨htrans _ _ _ h hx.1, hx.2⟩
  | ok r => exact htrans _ _ _ h hx

theorem Within.bind {x : Except (ε × σ) σ} {f : σ → Except (ε × σ) σ}
    (hx : Within R P s x) (hf : ∀ t, R s t → Within R P t (f t)) : Within R P s (x >>= f) := by
  cases x with
  | error e => exact hx
  | ok t => exact Within.after htrans hx (hf t hx)

theorem Within.foldlM {f : σ → α → Except (ε × σ) σ} {l : List α}
    (hf : ∀ t a, a ∈ l → R s t → Within R P t (f t a)) (hrefl : R s s) : Within R P s (l.foldlM f s) := by
  suffices hgen : ∀ (l : List α), (∀ t a, a ∈ l → R s t → Within R P t (f t a)) → ∀ t, R s t → Within R P s (l.foldlM f t)
    from hgen l hf s hrefl
  intro l
  induction l with
  | nil =>
    intro _ t ht
    exact ht
  | cons a l ih =>
    intro hf t ht
    rw [List.foldlM_cons]
    exact Meets.bind (Within.after htrans ht (hf t a List.mem_cons_self ht))
      (ih fun t b hb => hf t b (List.mem_cons_of_mem a hb))

end

end Within

end Except
