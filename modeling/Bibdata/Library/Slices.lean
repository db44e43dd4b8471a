import Mathlib.Data.List.Basic
import Mathlib.Tactic.Common

/-!
# Slices

Things are gathered one by one, and handed on as a slice whenever there are enough of them; what is
gathered last is a slice of its own. The slices are the things in their order (`flatten_slices`).
-/

namespace Slices

variable {α : Type*}

/-- The slices of what is gathered already and of what is still to come. -/
def slices (n : ℕ) : List α → List α → List (List α)
  | gathered, [] => if gathered.isEmpty then [] else [gathered]
  | gathered, x :: xs =>
    if n ≤ (gathered ++ [x]).length then (gathered ++ [x]) :: slices n [] xs
    else slices n (gathered ++ [x]) xs

theorem flatten_slices (n : ℕ) : ∀ gathered xs : List α,
    (slices n gathered xs).flatten = gathered ++ xs
  | gathered, [] => by
    unfold slices
    split_ifs with h
    · rw [List.isEmpty_iff.1 h]
      rfl
    · simp
  | gathered, x :: xs => by
    unfold slices
    split_ifs
    · rw [List.flatten_cons, flatten_slices n [] xs]
      simp
    · rw [flatten_slices n (gathered ++ [x]) xs]
      simp

theorem slice_bounds {n : ℕ} : ∀ {gathered xs b : List α}, gathered.length < n →
    b ∈ slices n gathered xs → b ≠ [] ∧ b.length ≤ n
  | gathered, [], b, hn, hb => by
    unfold slices at hb
    split_ifs at hb with hempty
    · cases hb
    · obtain rfl := List.mem_singleton.1 hb
      exact ⟨mt List.isEmpty_iff.2 hempty, Nat.le_of_lt hn⟩
  | gathered, x :: xs, b, hn, hb => by
    have hlength : (gathered ++ [x]).length = gathered.length + 1 := by simp
    unfold slices at hb
    split_ifs at hb with hfull
    · rcases List.mem_cons.1 hb with rfl | hb
      · exact ⟨by simp, by omega⟩
      · exact slice_bounds (by simp; omega) hb
    · exact slice_bounds (by omega) hb

/-- What fits into one slice is one. -/
theorem slices_of_length_le {n : ℕ} : ∀ {gathered xs : List α}, gathered ++ xs ≠ [] →
    (gathered ++ xs).length ≤ n → slices n gathered xs = [gathered ++ xs]
  | gathered, [], hne, _ => by
    rw [List.append_nil] at hne ⊢
    unfold slices
    rw [if_neg (mt List.isEmpty_iff.1 hne)]
  | gathered, x :: xs, _, hlength => by
    have happend : gathered ++ x :: xs = gathered ++ [x] ++ xs := by simp
    rw [happend] at hlength ⊢
    unfold slices
    split_ifs with hfull
    · have hnil : xs = [] := by
        rw [List.length_append] at hlength
        exact List.length_eq_zero_iff.1 (by omega)
      rw [hnil, List.append_nil]
      rfl
    · exact slices_of_length_le (by simp) hlength

/-- What does not fit is two or more. -/
theorem exists_slices_cons_cons {n : ℕ} {xs : List α} (hn : 0 < n) (h : n < xs.length) :
    ∃ b₁ b₂ bs, slices n [] xs = b₁ :: b₂ :: bs := by
  have hflatten : (slices n [] xs).flatten = xs := flatten_slices n [] xs
  have hbounds (b : List α) (hb : b ∈ slices n [] xs) : b.length ≤ n := (slice_bounds hn hb).2
  match hslices : slices n [] xs with
  | [] =>
    rw [hslices] at hflatten
    rw [← hflatten] at h
    simp at h
  | [b] =>
    rw [hslices] at hflatten hbounds
    have hle := hbounds b List.mem_cons_self
    rw [← hflatten] at h
    simp at h
    omega
  | b₁ :: b₂ :: bs => exact ⟨b₁, b₂, bs, rfl⟩

end Slices
