import Mathlib.Data.List.Basic

/-!
# The elements of a list that a mask keeps

A mask is a list of booleans beside the list; where it is shorter, the rest is left out. Filters
and the parts before and after a place are masks, and a mask splits at every place of the list.
-/

namespace Masks

variable {α : Type*}

def masked : List Bool → List α → List α
  | keep :: mask, x :: xs => if keep then x :: masked mask xs else masked mask xs
  | [], _ => []
  | _ :: _, [] => []

@[simp] theorem masked_nil (xs : List α) : masked [] xs = [] := by cases xs <;> rfl

@[simp] theorem masked_nil_right (mask : List Bool) : masked mask ([] : List α) = [] := by
  cases mask <;> rfl

theorem masked_map (p : α → Bool) (xs : List α) : masked (xs.map p) xs = xs.filter p := by
  induction xs with
  | nil => rfl
  | cons x xs ih =>
    rw [List.map_cons, List.filter_cons, masked, ih]

theorem masked_append (p : α → Bool) (xs ys : List α) (mask : List Bool) :
    masked (xs.map p ++ mask) (xs ++ ys) = xs.filter p ++ masked mask ys := by
  induction xs with
  | nil => rfl
  | cons x xs ih =>
    rw [List.map_cons, List.cons_append, List.cons_append, masked, ih, List.filter_cons]
    split <;> rfl

theorem masked_prefix (p : α → Bool) (xs ys : List α) :
    masked (xs.map p) (xs ++ ys) = xs.filter p := by
  have h := masked_append p xs ys []
  rwa [List.append_nil, masked_nil, List.append_nil] at h

/-- Of the parts before a place and after it, a mask does not look at the other. -/
theorem masked_cases (mask : List Bool) (xs ys : List α) :
    (∃ before after, ∀ x, masked mask (xs ++ x :: ys) = before ++ x :: after)
      ∨ ∃ rest, ∀ x, masked mask (xs ++ x :: ys) = rest := by
  induction xs generalizing mask with
  | nil =>
    rcases mask with _ | ⟨keep, mask⟩
    · exact .inr ⟨[], fun x => rfl⟩
    · rcases keep with _ | _
      · exact .inr ⟨masked mask ys, fun x => rfl⟩
      · exact .inl ⟨[], masked mask ys, fun x => rfl⟩
  | cons y xs ih =>
    rcases mask with _ | ⟨keep, mask⟩
    · exact .inr ⟨[], fun x => rfl⟩
    · rcases keep with _ | _
      · exact ih mask
      · rcases ih mask with ⟨before, after, h⟩ | ⟨rest, h⟩
        · exact .inl ⟨y :: before, after, fun x => by rw [List.cons_append, masked, if_pos rfl, h,
            List.cons_append]⟩
        · exact .inr ⟨y :: rest, fun x => by rw [List.cons_append, masked, if_pos rfl, h]⟩

end Masks
