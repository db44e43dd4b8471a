import Mathlib.Logic.Function.Basic
import Mathlib.Tactic.Common

/-!
# Updates of a store by key

A store holds at most one value for a key, and an update puts a value there or takes it away. What
a key holds after some updates is what it held, or what an update of it says.
-/

namespace KeyedStore

variable {κ ν : Type*} [DecidableEq κ]

def write (store : κ → Option ν) (us : List (κ × Option ν)) : κ → Option ν :=
  us.foldl (fun store u => Function.update store u.1 u.2) store

variable {store : κ → Option ν} {us : List (κ × Option ν)}

@[simp] theorem write_nil : write store [] = store := rfl

theorem write_cons {u : κ × Option ν} :
    write store (u :: us) = write (Function.update store u.1 u.2) us := rfl

/-- An update of the key is what it holds in the end, if there is one. -/
theorem write_cases (store : κ → Option ν) (us : List (κ × Option ν)) (k : κ) :
    (∀ u ∈ us, u.1 ≠ k) ∧ write store us k = store k ∨ (k, write store us k) ∈ us := by
  induction us generalizing store with
  | nil => exact .inl ⟨by simp, rfl⟩
  | cons u us ih =>
    rw [write_cons]
    rcases ih (Function.update store u.1 u.2) with ⟨hnone, heq⟩ | hmem
    · by_cases hk : u.1 = k
      · refine .inr ?_
        rw [heq, ← hk, Function.update_self]
        exact List.mem_cons_self
      · refine .inl ⟨?_, ?_⟩
        · intro u' hu'
          rcases List.mem_cons.1 hu' with rfl | hu'
          · exact hk
          · exact hnone u' hu'
        · rw [heq, Function.update_of_ne (Ne.symm hk)]
    · exact .inr (List.mem_cons_of_mem u hmem)

end KeyedStore
