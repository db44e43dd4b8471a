import Mathlib.Order.Lattice
import Mathlib.Tactic.Common

/-!
# The first in order that a fallible function accepts

To sort a list and take the first value that a function gives is to take the least element that it
accepts (`head?_filterMap_mergeSort`), whatever the values are.
-/

namespace FirstInOrder

variable {α β : Type*} [LinearOrder α] {f : α → Option β} {xs : List α} {v : α} {y : β}

/-- The least of the list among those that are accepted. -/
structure IsFirst (f : α → Option β) (xs : List α) (v : α) : Prop where
  mem : v ∈ xs
  accepted : (f v).isSome
  least : ∀ w ∈ xs, (f w).isSome → v ≤ w

theorem IsFirst.unique {w : α} (hv : IsFirst f xs v) (hw : IsFirst f xs w) : v = w :=
  le_antisymm (hv.least w hw.mem hw.accepted) (hw.least v hv.mem hv.accepted)

/-- A value that is not accepted may come first. -/
theorem isFirst_cons_of_none {x : α} (hx : f x = none) :
    IsFirst f (x :: xs) v ↔ IsFirst f xs v := by
  constructor
  · intro hv
    refine ⟨(List.mem_cons.1 hv.mem).resolve_left ?_, hv.accepted,
      fun w hw => hv.least w (List.mem_cons_of_mem _ hw)⟩
    rintro rfl
    simpa [hx] using hv.accepted
  · intro hv
    refine ⟨List.mem_cons_of_mem _ hv.mem, hv.accepted, fun w hw hsome => ?_⟩
    rcases List.mem_cons.1 hw with rfl | hw
    · simp [hx] at hsome
    · exact hv.least w hw hsome

theorem isFirst_cons_self {x : α} (haccepted : (f x).isSome) (hle : ∀ w ∈ xs, x ≤ w) :
    IsFirst f (x :: xs) x := by
  refine ⟨List.mem_cons_self, haccepted, fun w hw _ => ?_⟩
  rcases List.mem_cons.1 hw with rfl | hw
  · exact le_refl _
  · exact hle w hw

theorem head?_filterMap_of_pairwise (h : xs.Pairwise (· ≤ ·)) :
    (xs.filterMap f).head? = some y ↔ ∃ v, IsFirst f xs v ∧ f v = some y := by
  induction xs with
  | nil =>
    refine ⟨fun hhead => by simp at hhead, ?_⟩
    rintro ⟨v, hv, -⟩
    cases hv.mem
  | cons x xs ih =>
    obtain ⟨hx, hxs⟩ := List.pairwise_cons.1 h
    rw [List.filterMap_cons]
    rcases hfx : f x with _ | z
    · simp only [ih hxs, isFirst_cons_of_none hfx]
    · have hfirst : IsFirst f (x :: xs) x := isFirst_cons_self (by rw [hfx]; rfl) hx
      constructor
      · intro hhead
        exact ⟨x, hfirst, hfx.trans (by simpa using hhead)⟩
      · rintro ⟨v, hv, hfv⟩
        rw [hv.unique hfirst, hfx] at hfv
        simpa using hfv

theorem isFirst_congr {ys : List α} (h : ∀ x, x ∈ xs ↔ x ∈ ys) :
    IsFirst f xs v ↔ IsFirst f ys v := by
  constructor
  · intro hv
    exact ⟨(h v).1 hv.mem, hv.accepted, fun w hw => hv.least w ((h w).2 hw)⟩
  · intro hv
    exact ⟨(h v).2 hv.mem, hv.accepted, fun w hw => hv.least w ((h w).1 hw)⟩

theorem head?_filterMap_mergeSort :
    ((xs.mergeSort fun a b => a ≤ b).filterMap f).head? = some y
      ↔ ∃ v, IsFirst f xs v ∧ f v = some y := by
  have hsorted : (xs.mergeSort fun a b => a ≤ b).Pairwise (· ≤ ·) := by
    have htrans : ∀ a b c : α, decide (a ≤ b) → decide (b ≤ c) → decide (a ≤ c) := by
      simp only [decide_eq_true_eq]
      exact fun a b c => le_trans
    have htotal : ∀ a b : α, decide (a ≤ b) || decide (b ≤ a) := by
      simpa using le_total
    exact (List.pairwise_mergeSort htrans htotal xs).imp fun hle => of_decide_eq_true hle
  rw [head?_filterMap_of_pairwise hsorted]
  simp only [isFirst_congr (fun x => List.mem_mergeSort)]

end FirstInOrder
