import Mathlib.Data.List.Perm.Basic
import Mathlib.Tactic.Common

/-!
# The first that is found, in any order

What is found first depends on the order that things come in: each that is found is the first in
some order (`exists_first`). So what is asked of the first has the same answer in every order
exactly where all that are found answer alike (`first_alike_iff`).
-/

namespace AnyOrder

variable {α β : Type*} {f : α → Option β} {xs ys : List α} {y : β}

theorem exists_first (h : y ∈ xs.filterMap f) :
    ∃ ys : List α, ys.Perm xs ∧ (ys.filterMap f).head? = some y := by
  obtain ⟨x, hx, hfx⟩ := List.mem_filterMap.1 h
  obtain ⟨before, after, rfl⟩ := List.append_of_mem hx
  refine ⟨x :: (before ++ after), List.perm_middle.symm, ?_⟩
  rw [List.filterMap_cons_some hfx, List.head?_cons]

theorem mem_of_first (hperm : ys.Perm xs) (h : (ys.filterMap f).head? = some y) :
    y ∈ xs.filterMap f :=
  (hperm.filterMap f).subset (List.mem_of_head? h)

theorem first_alike_iff (q : β → Bool) :
    (∀ ys : List α, ys.Perm xs → (ys.filterMap f).head?.any q = (xs.filterMap f).head?.any q)
      ↔ ∀ y ∈ xs.filterMap f, ∀ z ∈ xs.filterMap f, q y = q z := by
  constructor
  · intro h y hy z hz
    obtain ⟨ys, hys, hy⟩ := exists_first hy
    obtain ⟨zs, hzs, hz⟩ := exists_first hz
    have heq := (h ys hys).trans (h zs hzs).symm
    rw [hy, hz] at heq
    exact heq
  · intro h ys hperm
    have hfound := hperm.filterMap f
    rcases hys : ys.filterMap f with _ | ⟨y, rest⟩
    · rw [hys] at hfound
      rw [hfound.nil_eq]
    · rcases hxs : xs.filterMap f with _ | ⟨x, others⟩
      · rw [hxs, hys] at hfound
        exact absurd hfound.eq_nil (List.cons_ne_nil y rest)
      · have hy : y ∈ xs.filterMap f := hfound.subset (hys ▸ List.mem_cons_self)
        have hx : x ∈ xs.filterMap f := hxs ▸ List.mem_cons_self
        exact h y hy x hx

end AnyOrder
