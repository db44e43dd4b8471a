import Mathlib.Data.List.Infix
import Mathlib.Tactic.Common

/-!
# Balanced brackets

A list is balanced in two brackets when each is closed after it was opened, and none is left open.
What is taken away at its ends, other than brackets, makes no difference (`Balanced.middle`).
-/

namespace Brackets

variable {α : Type*} [DecidableEq α] {opening closing : α} {xs : List α}

structure Balanced (opening closing : α) (xs : List α) : Prop where
  opened : ∀ ys, ys <+: xs → ys.count closing ≤ ys.count opening
  closed : xs.count opening = xs.count closing

/-- Without brackets. -/
def Free (opening closing : α) (xs : List α) : Prop := opening ∉ xs ∧ closing ∉ xs

theorem Free.count_eq_zero (h : Free opening closing xs) :
    xs.count opening = 0 ∧ xs.count closing = 0 :=
  ⟨List.count_eq_zero.2 h.1, List.count_eq_zero.2 h.2⟩

theorem Free.balanced (h : Free opening closing xs) : Balanced opening closing xs := by
  obtain ⟨hopening, hclosing⟩ := h.count_eq_zero
  refine ⟨fun ys hys => ?_, by rw [hopening, hclosing]⟩
  have hle := hys.sublist.count_le closing
  omega

theorem Balanced.of_append {post : List α} (h : Balanced opening closing (xs ++ post))
    (hpost : Free opening closing post) : Balanced opening closing xs := by
  obtain ⟨hopening, hclosing⟩ := hpost.count_eq_zero
  have hclosed := h.closed
  rw [List.count_append, List.count_append, hopening, hclosing] at hclosed
  exact ⟨fun ys hys => h.opened ys (hys.trans (List.prefix_append xs post)), by omega⟩

theorem Balanced.of_append_left {pre : List α} (h : Balanced opening closing (pre ++ xs))
    (hpre : Free opening closing pre) : Balanced opening closing xs := by
  obtain ⟨hopening, hclosing⟩ := hpre.count_eq_zero
  have hclosed := h.closed
  rw [List.count_append, List.count_append, hopening, hclosing] at hclosed
  refine ⟨fun ys hys => ?_, by omega⟩
  have hle := h.opened (pre ++ ys) (List.prefix_append_right_inj pre |>.2 hys)
  rw [List.count_append, List.count_append, hopening, hclosing] at hle
  omega

theorem Balanced.middle {pre post : List α} (h : Balanced opening closing (pre ++ xs ++ post))
    (hpre : Free opening closing pre) (hpost : Free opening closing post) :
    Balanced opening closing xs :=
  (h.of_append hpost).of_append_left hpre

end Brackets
