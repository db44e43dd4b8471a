import Mathlib.Tactic.Common

/-!
# Runs of a step function

A system is a step function `step : σ → α → Option σ`, where `α` names what happens and `none`
means that it cannot happen in that state. A run is a list of such events. What one step
preserves, a whole run preserves (`Run.invariant`); a guard on the steps carries a condition that
each step of the run meets in the state it is taken from.
-/

namespace Transition

variable {σ α : Type*}

/-- The events `es` lead from `s` to `s'`, each allowed by `ok` in the state it is taken from. -/
inductive Run (step : σ → α → Option σ) (ok : σ → α → Prop) : σ → List α → σ → Prop
  | nil (s : σ) : Run step ok s [] s
  | cons {s s' s'' : σ} {e : α} {es : List α} (hok : ok s e) (hstep : step s e = some s')
      (hrest : Run step ok s' es s'') : Run step ok s (e :: es) s''

def Reaches (step : σ → α → Option σ) (s s' : σ) : Prop :=
  ∃ es, Run step (fun _ _ => True) s es s'

variable {step : σ → α → Option σ} {ok : σ → α → Prop}

theorem Run.invariant {Inv : σ → Prop}
    (hpres : ∀ s e s', Inv s → ok s e → step s e = some s' → Inv s') {s s' : σ} {es : List α}
    (h : Run step ok s es s') : Inv s → Inv s' := by
  induction h with
  | nil => exact id
  | cons hok hstep _ ih => exact fun hs => ih (hpres _ _ _ hs hok hstep)

theorem Run.append {s s' s'' : σ} {es es' : List α} (h : Run step ok s es s')
    (h' : Run step ok s' es' s'') : Run step ok s (es ++ es') s'' := by
  induction h with
  | nil => exact h'
  | cons hok hstep _ ih => exact .cons hok hstep (ih h')

def guarded (step : σ → α → Option σ) (ok : σ → α → Prop) [∀ s e, Decidable (ok s e)] (s : σ)
    (e : α) : Option σ :=
  if ok s e then step s e else none

/-- The state that the events `es` lead to from `s`, if each can happen. -/
def exec (step : σ → α → Option σ) (s : σ) (es : List α) : Option σ :=
  es.foldlM step s

theorem exec_cons (s : σ) (e : α) (es : List α) :
    exec step s (e :: es) = (step s e).bind fun s' => exec step s' es := rfl

theorem run_of_exec [∀ s e, Decidable (ok s e)] : ∀ {es : List α} {s s' : σ},
    exec (guarded step ok) s es = some s' → Run step ok s es s'
  | [], s, s', h => by
    obtain rfl : s = s' := by simpa [exec] using h
    exact .nil s
  | e :: es, s, s', h => by
    rw [exec_cons, Option.bind_eq_some_iff] at h
    obtain ⟨s₁, h₁, h₂⟩ := h
    unfold guarded at h₁
    split_ifs at h₁ with hok
    exact .cons hok h₁ (run_of_exec h₂)

end Transition
