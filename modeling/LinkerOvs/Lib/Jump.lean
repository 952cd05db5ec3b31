/-
Computations on a state that may stop with a fault or jump to the end of the function (a `goto out`), which keeps the
state. `Ends` says how such a computation ends, and its rules follow the computation step by step: a proof about a
`do` block goes through it once, from the first statement to the last.
-/
import Mathlib.Tactic

/-- A computation that runs on with a value, jumps to the end or stops with a fault. -/
def Jump (ε σ α : Type) : Type := σ → Except ε (Option α × σ)

namespace Jump

variable {ε σ α β : Type}

instance : Monad (Jump ε σ) where
  pure a := fun s => .ok (some a, s)
  bind x f := fun s =>
    match x s with
    | .error e => .error e
    | .ok (none, s') => .ok (none, s')
    | .ok (some a, s') => f a s'

/-- The jump to the end. -/
def out : Jump ε σ α := fun s => .ok (none, s)

def fault (e : ε) : Jump ε σ α := fun _ => .error e

def gets (f : σ → α) : Jump ε σ α := fun s => .ok (some (f s), s)

def modify (f : σ → σ) : Jump ε σ Unit := fun s => .ok (some (), f s)

/-- From the state `s` the computation runs on with `Q`, or jumps with `R`, or stops with a fault that `E` allows. -/
def Ends (E : ε → Prop) (Q : α → σ → Prop) (R : σ → Prop) (x : Jump ε σ α) (s : σ) : Prop :=
  match x s with
  | .error e => E e
  | .ok (none, s') => R s'
  | .ok (some a, s') => Q a s'

variable {E : ε → Prop} {Q : α → σ → Prop} {R : σ → Prop} {s : σ}

@[simp] theorem ends_pure {a : α} : Ends E Q R (pure a) s ↔ Q a s := Iff.rfl

@[simp] theorem ends_gets {f : σ → α} : Ends E Q R (gets f) s ↔ Q (f s) s := Iff.rfl

@[simp] theorem ends_modify {f : σ → σ} {Q : Unit → σ → Prop} : Ends E Q R (modify f) s ↔ Q () (f s) := Iff.rfl

@[simp] theorem ends_bind {x : Jump ε σ α} {f : α → Jump ε σ β} {Q : β → σ → Prop} :
    Ends E Q R (x >>= f) s ↔ Ends E (fun a => Ends E Q R (f a)) R x s := by
  have hbind : (x >>= f) s = match x s with
      | .error e => .error e
      | .ok (none, s') => .ok (none, s')
      | .ok (some a, s') => f a s' := rfl
  unfold Ends
  grind

theorem Ends.mono {x : Jump ε σ α} {Q' : α → σ → Prop} {R' : σ → Prop} (h : Ends E Q R x s)
    (hQ : ∀ a s', Q a s' → Q' a s') (hR : ∀ s', R s' → R' s') : Ends E Q' R' x s := by
  unfold Ends at h ⊢
  grind

end Jump
