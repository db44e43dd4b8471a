import Mathlib.Data.List.Forall2
import Mathlib.Tactic.Common

/-!
# Programs that may raise

What is known of the parts of a program that did not raise.
-/

namespace Raising

universe u

variable {ε : Type*} {α β : Type u}

theorem bind_eq_ok {x : Except ε α} {f : α → Except ε β} {b : β} (h : x >>= f = .ok b) :
    ∃ a, x = .ok a ∧ f a = .ok b := by
  cases x with
  | error e => cases h
  | ok a => exact ⟨a, rfl, h⟩

theorem map_eq_ok {x : Except ε α} {f : α → β} {b : β} (h : x.map f = .ok b) :
    ∃ a, x = .ok a ∧ f a = b := by
  cases x with
  | error e => cases h
  | ok a => exact ⟨a, rfl, Except.ok.inj h⟩

/-- Every element had a result, and they are the results in order. -/
theorem forall₂_of_mapM {f : α → Except ε β} : ∀ {xs : List α} {ys : List β},
    xs.mapM f = .ok ys → List.Forall₂ (fun x y => f x = .ok y) xs ys
  | [], ys, h => by
    cases h
    exact .nil
  | x :: xs, ys, h => by
    rw [List.mapM_cons] at h
    obtain ⟨y, hy, h⟩ := bind_eq_ok h
    obtain ⟨ys, hys, h⟩ := bind_eq_ok h
    cases h
    exact .cons hy (forall₂_of_mapM hys)

/-- Where the results are a function of the elements. -/
theorem eq_map_of_mapM {f : α → Except ε β} {g : α → β} {xs : List α} {ys : List β}
    (hf : ∀ x y, f x = .ok y → y = g x) (h : xs.mapM f = .ok ys) : ys = xs.map g := by
  have hall := forall₂_of_mapM h
  clear h
  induction hall with
  | nil => rfl
  | cons hx _ ih => rw [List.map_cons, hf _ _ hx, ih]

/-- With no word of what was raised. -/
theorem mem_of_mapM {f : α → Option β} : ∀ {xs : List α} {ys : List β},
    xs.mapM f = some ys → ∀ x ∈ xs, ∃ y ∈ ys, f x = some y
  | [], _, _, x, hx => absurd hx List.not_mem_nil
  | x :: xs, ys, h, x', hx' => by
    rw [List.mapM_cons] at h
    obtain ⟨y, hy, h⟩ := Option.bind_eq_some_iff.1 h
    obtain ⟨ys', hys, h⟩ := Option.bind_eq_some_iff.1 h
    obtain rfl := Option.some.inj h
    rcases List.mem_cons.1 hx' with rfl | hx'
    · exact ⟨y, List.mem_cons_self, hy⟩
    · obtain ⟨y', hy', hf⟩ := mem_of_mapM hys x' hx'
      exact ⟨y', List.mem_cons_of_mem y hy', hf⟩

theorem mapM_eq_map {γ δ : Type*} {f : γ → Option δ} {g : γ → δ} {xs : List γ}
    (h : ∀ x ∈ xs, f x = some (g x)) : xs.mapM f = some (xs.map g) := by
  induction xs with
  | nil => rfl
  | cons x xs ih =>
    rw [List.forall_mem_cons] at h
    rw [List.mapM_cons, h.1, ih h.2]
    rfl

end Raising
