import Mathlib.Tactic.Common

/-!
# Programs that may stop between two steps

A program changes a state step by step, and returns a value or raises. Its meaning is the states
that it goes through, after each of its steps, and what it returns: a program that is stopped
leaves one of these states.
-/

/-- The states after the steps, and the value with the last state; `none` where it raises. -/
def Stoppable (σ α : Type) := σ → List σ × Option (α × σ)

namespace Stoppable

variable {σ α β : Type}

instance : Monad (Stoppable σ) where
  pure a := fun s => ([], some (a, s))
  bind p k := fun s =>
    match p s with
    | (states, some (a, s')) => (states ++ (k a s').1, (k a s').2)
    | (states, none) => (states, none)

/-- One step. -/
def op (f : σ → Option (α × σ)) : Stoppable σ α := fun s =>
  match f s with
  | some (a, s') => ([s'], some (a, s'))
  | none => ([], none)

/-- What the program returns if it is not stopped. -/
def run (p : Stoppable σ α) (s : σ) : Option (α × σ) := (p s).2

/-- The state that it leaves if it is stopped after `n` steps. -/
def stopAt (p : Stoppable σ α) (n : ℕ) (s : σ) : σ := ((p s).1.take n).getLast?.getD s

variable {p : Stoppable σ α} {k : α → Stoppable σ β} {s s' : σ} {a : α}
  {f : σ → Option (α × σ)}

@[simp] theorem run_pure : run (pure a : Stoppable σ α) s = some (a, s) := rfl

@[simp] theorem run_op : run (op f) s = f s := by
  unfold run op
  cases f s <;> rfl

theorem run_bind : run (p >>= k) s = (run p s).bind fun r => run (k r.1) r.2 := by
  change (match p s with
    | (states, some (a, s')) => (states ++ (k a s').1, (k a s').2)
    | (states, none) => (states, none)).2 = ((p s).2).bind _
  rcases p s with ⟨states, _ | ⟨a, s'⟩⟩ <;> rfl

/-- No step breaks what holds of the state. -/
def Keeps (I : σ → Prop) (p : Stoppable σ α) : Prop :=
  ∀ s, I s → (∀ s' ∈ (p s).1, I s') ∧ ∀ r, run p s = some r → I r.2

section Keeps

variable {I : σ → Prop}

theorem Keeps.pure (a : α) : Keeps I (Pure.pure a : Stoppable σ α) := by
  intro s hs
  refine ⟨fun s' h => absurd h List.not_mem_nil, fun r h => ?_⟩
  rw [run_pure, Option.some.injEq] at h
  rwa [← h]

theorem Keeps.op (h : ∀ s r, I s → f s = some r → I r.2) : Keeps I (op f) := by
  intro s hs
  unfold run Stoppable.op
  cases hf : f s with
  | none => simp
  | some r => simpa using h s r hs hf

/-- A program without steps. -/
theorem Keeps.of_run (hsteps : ∀ s, (p s).1 = []) (h : ∀ s r, run p s = some r → r.2 = s) :
    Keeps I p := by
  intro s hs
  refine ⟨fun s' hs' => absurd (hsteps s ▸ hs') List.not_mem_nil, fun r hr => ?_⟩
  rwa [h s r hr]

theorem Keeps.bind (hp : Keeps I p) (hk : ∀ a, Keeps I (k a)) : Keeps I (p >>= k) := by
  intro s hs
  obtain ⟨hstates, hrun⟩ := hp s hs
  change (∀ s' ∈ (match p s with
    | (states, some (a, s')) => (states ++ (k a s').1, (k a s').2)
    | (states, none) => (states, none)).1, I s') ∧ ∀ r, (match p s with
    | (states, some (a, s')) => (states ++ (k a s').1, (k a s').2)
    | (states, none) => (states, none)).2 = some r → I r.2
  unfold run at hrun
  rcases hps : p s with ⟨states, _ | ⟨a, s₁⟩⟩
  · rw [hps] at hstates
    exact ⟨hstates, fun r h => absurd h (by simp)⟩
  · rw [hps] at hstates hrun
    obtain ⟨hstates', hrun'⟩ := hk a s₁ (hrun (a, s₁) rfl)
    exact ⟨List.forall_mem_append.2 ⟨hstates, hstates'⟩, hrun'⟩

theorem Keeps.stopAt (hp : Keeps I p) (n : ℕ) (hs : I s) : I (stopAt p n s) := by
  unfold Stoppable.stopAt
  cases hlast : ((p s).1.take n).getLast? with
  | none => exact hs
  | some s' => exact (hp s hs).1 s' (List.mem_of_mem_take (List.mem_of_getLast? hlast))

theorem Keeps.of_mem (hp : Keeps I p) (hs : I s) {s' : σ} (h : s' ∈ (p s).1) : I s' :=
  (hp s hs).1 s' h

end Keeps

/-! ### A program that is stopped after its first part -/

section StoppedLater

variable {n : ℕ}

theorem bind_assoc {γ : Type} (q : β → Stoppable σ γ) :
    p >>= k >>= q = p >>= fun a => k a >>= q := by
  funext s
  change (match (match p s with
      | (states, some (a, s')) => (states ++ (k a s').1, (k a s').2)
      | (states, none) => (states, none)) with
    | (states, some (b, s')) => (states ++ (q b s').1, (q b s').2)
    | (states, none) => (states, none)) = match p s with
    | (states, some (a, s')) => (states ++ ((k a >>= q) s').1, ((k a >>= q) s').2)
    | (states, none) => (states, none)
  rcases p s with ⟨states, _ | ⟨a, s'⟩⟩
  · rfl
  · change _ = (states ++ (match k a s' with
      | (states, some (b, s')) => (states ++ (q b s').1, (q b s').2)
      | (states, none) => (states, none)).1, (match k a s' with
      | (states, some (b, s')) => (states ++ (q b s').1, (q b s').2)
      | (states, none) => (states, none)).2)
    dsimp only
    rcases k a s' with ⟨states', _ | ⟨b, s''⟩⟩
    · rfl
    · simp only [List.append_assoc]

theorem states_bind :
    ((p >>= k) s).1 = (p s).1 ++ (run p s).elim [] fun (a, s') => (k a s').1 := by
  change (match p s with
    | (states, some (a, s')) => (states ++ (k a s').1, (k a s').2)
    | (states, none) => (states, none)).1 = _
  unfold run
  rcases p s with ⟨states, _ | ⟨a, s'⟩⟩
  · exact (List.append_nil states).symm
  · rfl

theorem states_bind_of_run (h : run p s = some (a, s')) :
    ((p >>= k) s).1 = (p s).1 ++ (k a s').1 := by
  rw [states_bind, h, Option.elim_some]

theorem states_op_bind (h : f s = some (a, s')) : ((op f >>= k) s).1 = s' :: (k a s').1 := by
  rw [states_bind_of_run (run_op.trans h)]
  unfold op
  rw [h]
  rfl

theorem states_bind_of_none (h : run p s = none) : ((p >>= k) s).1 = (p s).1 := by
  rw [states_bind, h, Option.elim_none, List.append_nil]

theorem stopAt_bind_of_none (h : run p s = none) : stopAt (p >>= k) n s = stopAt p n s := by
  rw [stopAt, stopAt, states_bind_of_none h]

theorem stopAt_bind_of_le (h : n ≤ (p s).1.length) : stopAt (p >>= k) n s = stopAt p n s := by
  rcases hr : run p s with _ | ⟨a, s'⟩
  · exact stopAt_bind_of_none hr
  · rw [stopAt, stopAt, states_bind_of_run hr, List.take_append_of_le_length h]

/-- Stopped in its second part, it leaves a state that this part goes through. -/
theorem stopAt_bind_mem (h : run p s = some (a, s')) (hlt : (p s).1.length < n)
    (hne : (k a s').1 ≠ []) : stopAt (p >>= k) n s ∈ (k a s').1 := by
  have hlast : ((k a s').1.take (n - (p s).1.length)) ≠ [] := by
    simp only [ne_eq, List.take_eq_nil_iff, hne, or_false]
    omega
  rw [stopAt, states_bind_of_run h, List.take_append, List.take_of_length_le (Nat.le_of_lt hlt),
    List.getLast?_append, List.getLast?_eq_some_getLast hlast, Option.some_or, Option.getD_some]
  exact List.mem_of_mem_take (List.getLast_mem hlast)

end StoppedLater

end Stoppable
