/-
Runs of a step relation and the rules every whole-run result goes through: an invariant that each
step keeps holds in every state reached, and so does a property of the whole history that each step
extends. `Run.Meets` says that every step of a run meets a condition on the state before it and on
the event.
-/
import Mathlib.Tactic

universe u v

variable {σ : Type u} {ε : Type v}

/-- The runs of `step` from `s`, with the events in order. -/
inductive Run (step : σ → ε → σ → Prop) : σ → List ε → σ → Prop
  | nil (s : σ) : Run step s [] s
  | cons {s s' t : σ} {e : ε} {es : List ε} : step s e s' → Run step s' es t → Run step s (e :: es) t

/-- The runs of `step` in which every event meets `P` in the state it happens in. -/
inductive Run.Meets (step : σ → ε → σ → Prop) (P : σ → ε → Prop) : σ → List ε → σ → Prop
  | nil (s : σ) : Run.Meets step P s [] s
  | cons {s s' t : σ} {e : ε} {es : List ε} : P s e → step s e s' → Run.Meets step P s' es t →
      Run.Meets step P s (e :: es) t

namespace Run

variable {step : σ → ε → σ → Prop} {P : σ → ε → Prop} {I : σ → Prop}

theorem snoc {s t r : σ} {es : List ε} {e : ε} (h : Run step s es t) (hs : step t e r) : Run step s (es ++ [e]) r := by
  induction h with
  | nil s => exact .cons hs (.nil r)
  | cons h _ ih => exact .cons h (ih hs)

/-- An invariant of every step is an invariant of every run. -/
theorem invariant (hI : ∀ s e s', I s → step s e s' → I s') {s t : σ} {es : List ε}
    (h : Run step s es t) (hs : I s) : I t := by
  induction h with
  | nil s => exact hs
  | cons h _ ih => exact ih (hI _ _ _ hs h)

/-- A property of the events so far and the state they led to, kept by every step that meets `P`, holds
after every run that does. -/
theorem Meets.history {H : List ε → σ → Prop} {s t : σ} {es : List ε} (h0 : H [] s)
    (hstep : ∀ es t e t', Run step s es t → H es t → P t e → step t e t' → H (es ++ [e]) t')
    (h : Meets step P s es t) : H es t := by
  -- the run so far is carried along, so that each step extends it at its end
  suffices hgen : ∀ {u v : σ} {fs : List ε}, Meets step P u fs v → ∀ es, Run step s es u → H es u → H (es ++ fs) v from
    hgen h [] (.nil s) h0
  intro u v fs hm
  induction hm with
  | nil u => intro es _ hH; simpa using hH
  | cons hp hs _ ih =>
    intro es hrun hH
    have := ih (es ++ [_]) (hrun.snoc hs) (hstep es _ _ _ hrun hH hp hs)
    simpa using this

theorem Meets.run {s t : σ} {es : List ε} (h : Meets step P s es t) : Run step s es t := by
  induction h with
  | nil s => exact .nil s
  | cons _ h _ ih => exact .cons h ih

/-- An invariant of every step that meets `P` is an invariant of every run that does. -/
theorem Meets.invariant (hI : ∀ s e s', I s → P s e → step s e s' → I s') {s t : σ} {es : List ε}
    (h : Meets step P s es t) (hs : I s) : I t := by
  induction h with
  | nil s => exact hs
  | cons hp h _ ih => exact ih (hI _ _ _ hs hp h)

/-- Running the events in order, as long as there is a next state. -/
def exec (f : σ → ε → Option σ) : σ → List ε → Option σ
  | s, [] => some s
  | s, e :: es => (f s e).bind fun s' => exec f s' es

theorem of_exec {f : σ → ε → Option σ} (hf : ∀ s e s', f s e = some s' → step s e s') :
    ∀ {es : List ε} {s t : σ}, exec f s es = some t → Run step s es t
  | [], s, t, h => by
    cases h
    exact .nil s
  | e :: es, s, t, h => by
    obtain ⟨s', hs', h⟩ := Option.bind_eq_some_iff.1 h
    exact .cons (hf s e s' hs') (of_exec hf h)

end Run
