import Mathlib.Tactic.Common

/-!
# Lazy runs over a list that may stop with an error

`anyM` ends at the first element that passes, `filterMapM` goes to the end. Where no element
passes, an error at any of them is reached (`anyM_error`); where all of them are without error, so
is the run, and its result is the one of the pure function (`anyM_ok`, `filterMapM_ok`).
-/

namespace LazyRuns

variable {ε α : Type} {β : Type} {xs : List α}

theorem anyM_ok {p : α → Except ε Bool} {q : α → Bool} (h : ∀ x ∈ xs, p x = .ok (q x)) :
    xs.anyM p = .ok (xs.any q) := by
  induction xs with
  | nil => rfl
  | cons x xs ih =>
    rw [List.anyM_cons, h x List.mem_cons_self, List.any_cons]
    rcases q x with _ | _
    · exact ih fun y hy => h y (List.mem_cons_of_mem _ hy)
    · rfl

theorem anyM_error {p : α → Except ε Bool} (herror : ∃ x ∈ xs, ∃ e, p x = .error e)
    (hpass : ∀ x ∈ xs, p x ≠ .ok true) : ∃ e, xs.anyM p = .error e := by
  induction xs with
  | nil =>
    obtain ⟨x, hx, -⟩ := herror
    cases hx
  | cons x xs ih =>
    rw [List.anyM_cons]
    rcases hp : p x with e | passed
    · exact ⟨e, rfl⟩
    · cases passed with
      | true => exact absurd hp (hpass x List.mem_cons_self)
      | false =>
        refine ih ?_ fun y hy => hpass y (List.mem_cons_of_mem _ hy)
        obtain ⟨y, hy, e, he⟩ := herror
        rcases List.mem_cons.1 hy with rfl | hy
        · rw [he] at hp
          cases hp
        · exact ⟨y, hy, e, he⟩

theorem filterMapM_ok {f : α → Except ε (Option β)} {g : α → Option β}
    (h : ∀ x ∈ xs, f x = .ok (g x)) : xs.filterMapM f = .ok (xs.filterMap g) := by
  induction xs with
  | nil => rfl
  | cons x xs ih =>
    rw [List.filterMapM_cons, h x List.mem_cons_self, List.filterMap_cons]
    have hrest := ih fun y hy => h y (List.mem_cons_of_mem _ hy)
    rcases g x with _ | y
    · exact hrest
    · show (do let rest ← xs.filterMapM f; pure (y :: rest)) = _
      rw [hrest]
      rfl

theorem filterMapM_error {f : α → Except ε (Option β)} (h : ∃ x ∈ xs, ∃ e, f x = .error e) :
    ∃ e, xs.filterMapM f = .error e := by
  induction xs with
  | nil =>
    obtain ⟨x, hx, -⟩ := h
    cases hx
  | cons x xs ih =>
    rw [List.filterMapM_cons]
    rcases hf : f x with e | y
    · exact ⟨e, rfl⟩
    · have hrest : ∃ e, xs.filterMapM f = .error e := by
        obtain ⟨z, hz, e, he⟩ := h
        rcases List.mem_cons.1 hz with rfl | hz
        · rw [he] at hf
          cases hf
        · exact ih ⟨z, hz, e, he⟩
      obtain ⟨e, he⟩ := hrest
      refine ⟨e, ?_⟩
      show (do let found ← pure y; match found with
            | none => xs.filterMapM f
            | some b => do let rest ← xs.filterMapM f; pure (b :: rest)) = _
      cases y with
      | none => exact he
      | some b =>
        rw [pure_bind]
        simp only [he]
        rfl

end LazyRuns
