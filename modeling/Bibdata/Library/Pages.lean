import Mathlib.Data.List.Nodup
import Mathlib.Data.List.Pairwise
import Mathlib.Order.Lattice
import Mathlib.Tactic.Common

/-!
# Listings page by page

A page holds the first items after a key, in the order of the keys, and a listing goes on after
the last key of its page. The table may change from one page to the next: an item that is in the
table for a page is on it, or comes after it.
-/

namespace Pages

variable {α κ : Type*} [LinearOrder κ] (key : α → κ)

def After (token : Option κ) (x : α) : Prop := ∀ k ∈ token, k < key x

instance (token : Option κ) (x : α) : Decidable (After key token x) :=
  inferInstanceAs (Decidable (∀ k ∈ token, k < key x))

def remaining (xs : List α) (token : Option κ) : List α :=
  (xs.filter (After key token ·)).mergeSort (key · ≤ key ·)

def page (xs : List α) (token : Option κ) (size : ℕ) : List α := (remaining key xs token).take size

/-- Where the listing goes on, if there is more. -/
def next (xs : List α) (token : Option κ) (size : ℕ) : Option κ :=
  if size < (remaining key xs token).length then (page key xs token size).getLast?.map key else none

variable {key} {xs : List α} {token : Option κ} {size : ℕ} {x : α}

theorem after_none : After key none x := by simp [After]

theorem after_some {k : κ} : After key (some k) x ↔ k < key x := by simp [After]

theorem mem_remaining : x ∈ remaining key xs token ↔ x ∈ xs ∧ After key token x := by
  simp [remaining]

theorem pairwise_remaining : (remaining key xs token).Pairwise (key · ≤ key ·) := by
  have h : (remaining key xs token).Pairwise fun a b => decide (key a ≤ key b) = true := by
    refine List.pairwise_mergeSort (fun a b c hab hbc => ?_) (fun a b => ?_) _
    · simp only [decide_eq_true_eq] at hab hbc ⊢
      exact le_trans hab hbc
    · simpa using le_total (key a) (key b)
  exact h.imp fun hab => of_decide_eq_true hab

theorem nodup_remaining (h : (xs.map key).Nodup) : ((remaining key xs token).map key).Nodup :=
  ((List.mergeSort_perm _ _).map key).nodup_iff.2 ((List.filter_sublist.map key).nodup h)

theorem mem_page_or_after (hdistinct : (xs.map key).Nodup) (hsize : 0 < size) (hx : x ∈ xs)
    (hafter : After key token x) :
    x ∈ page key xs token size ∨ ∃ k, next key xs token size = some k ∧ k < key x := by
  have hsplit : page key xs token size ++ (remaining key xs token).drop size
      = remaining key xs token := List.take_append_drop ..
  rcases List.mem_append.1 (hsplit ▸ mem_remaining.2 ⟨hx, hafter⟩) with hpage | hrest
  · exact .inl hpage
  · have hlen : size < (remaining key xs token).length := by
      have := List.length_pos_of_mem hrest
      rw [List.length_drop] at this
      omega
    have hnil : page key xs token size ≠ [] := by
      rw [← List.length_pos_iff, page, List.length_take]
      omega
    obtain ⟨p, hp⟩ : ∃ p, (page key xs token size).getLast? = some p :=
      ⟨_, List.getLast?_eq_some_getLast hnil⟩
    have hmem : p ∈ page key xs token size := List.mem_of_getLast? hp
    have hle : key p ≤ key x :=
      (List.pairwise_append.1 (hsplit ▸ pairwise_remaining)).2.2 p hmem x hrest
    have hne : key p ≠ key x := by
      have hnodup : ((remaining key xs token).map key).Nodup := nodup_remaining hdistinct
      rw [← hsplit, List.map_append, List.nodup_append] at hnodup
      exact hnodup.2.2 _ (List.mem_map_of_mem hmem) _ (List.mem_map_of_mem hrest)
    exact .inr ⟨key p, by rw [next, if_pos hlen, hp, Option.map_some], lt_of_le_of_ne hle hne⟩

end Pages
