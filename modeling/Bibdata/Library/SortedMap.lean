import Mathlib.Data.List.Basic
import Mathlib.Order.Lattice
import Mathlib.Tactic.Common

/-!
# Maps with their keys in order

Entries sorted by their keys, each key once. What is pushed to the entry of a key stands there after
what was pushed before, so nothing that is filed under a label is lost (`get_pushAll`).
-/

structure SortedMap (κ β : Type*) [LinearOrder κ] where
  entries : List (κ × β) := []
  sorted : entries.Pairwise fun e e' => e.1 < e'.1 := by simp

namespace SortedMap

variable {κ α β : Type*} [LinearOrder κ] {k k' : κ}

section Alter

variable (k) (f : Option β → β)

/-- The entry of the key becomes this of what it was, or of nothing. -/
def alterEntries : List (κ × β) → List (κ × β)
  | [] => [(k, f none)]
  | (k', v) :: es =>
    if k < k' then (k, f none) :: (k', v) :: es
    else if k = k' then (k', f (some v)) :: es
    else (k', v) :: alterEntries es

variable {k f}

theorem key_mem_alterEntries {e : κ × β} : ∀ {es : List (κ × β)},
    e ∈ alterEntries k f es → e.1 = k ∨ e ∈ es
  | [], he => by
    rw [alterEntries, List.mem_singleton] at he
    exact .inl (by rw [he])
  | (k', v) :: es, he => by
    unfold alterEntries at he
    split_ifs at he with hlt heq
    · rcases List.mem_cons.1 he with rfl | he
      · exact .inl rfl
      · exact .inr he
    · rcases List.mem_cons.1 he with rfl | he
      · exact .inl heq.symm
      · exact .inr (List.mem_cons_of_mem _ he)
    · rcases List.mem_cons.1 he with rfl | he
      · exact .inr List.mem_cons_self
      · exact (key_mem_alterEntries he).imp_right (List.mem_cons_of_mem _)

theorem pairwise_alterEntries : ∀ {es : List (κ × β)}, es.Pairwise (fun e e' => e.1 < e'.1) →
    (alterEntries k f es).Pairwise fun e e' => e.1 < e'.1
  | [], _ => List.pairwise_singleton _ _
  | (k', v) :: es, h => by
    obtain ⟨hhead, htail⟩ := List.pairwise_cons.1 h
    unfold alterEntries
    split_ifs with hlt heq
    · refine List.pairwise_cons.2 ⟨fun e he => ?_, h⟩
      rcases List.mem_cons.1 he with rfl | he
      · exact hlt
      · exact hlt.trans (hhead e he)
    · exact List.pairwise_cons.2 ⟨hhead, htail⟩
    · refine List.pairwise_cons.2 ⟨fun e he => ?_, pairwise_alterEntries htail⟩
      rcases key_mem_alterEntries he with hkey | he
      · rw [hkey]
        exact lt_of_le_of_ne (not_lt.1 hlt) (Ne.symm heq)
      · exact hhead e he

end Alter

def alter (m : SortedMap κ β) (k : κ) (f : Option β → β) : SortedMap κ β :=
  ⟨alterEntries k f m.entries, pairwise_alterEntries m.sorted⟩

def get (m : SortedMap κ β) (k : κ) : Option β := (m.entries.find? (·.1 = k)).map Prod.snd

theorem find_eq_none {es : List (κ × β)} (h : ∀ e ∈ es, k < e.1) :
    es.find? (·.1 = k) = none := by
  refine List.find?_eq_none.2 fun e he => ?_
  have := (h e he).ne'
  simpa using this

theorem find_alterEntries {f : Option β → β} : ∀ {es : List (κ × β)},
    es.Pairwise (fun e e' => e.1 < e'.1) → ((alterEntries k f es).find? (·.1 = k')).map Prod.snd
      = if k' = k then some (f ((es.find? (·.1 = k)).map Prod.snd))
        else (es.find? (·.1 = k')).map Prod.snd
  | [], _ => by
    by_cases hk : k = k'
    · simp [alterEntries, hk]
    · simp [alterEntries, hk, Ne.symm hk]
  | (k₀, v) :: es, h => by
    obtain ⟨hhead, htail⟩ := List.pairwise_cons.1 h
    unfold alterEntries
    by_cases hlt : k < k₀
    · rw [if_pos hlt]
      have hnone : ((k₀, v) :: es).find? (·.1 = k) = none := by
        refine find_eq_none fun e he => ?_
        rcases List.mem_cons.1 he with rfl | he
        · exact hlt
        · exact hlt.trans (hhead e he)
      by_cases hk : k' = k
      · rw [if_pos hk, List.find?_cons_of_pos (by simp [hk]), hnone]
        rfl
      · rw [if_neg hk, List.find?_cons_of_neg (by simp [Ne.symm hk])]
    · rw [if_neg hlt]
      by_cases heq : k = k₀
      · rw [if_pos heq]
        by_cases hk : k' = k
        · rw [if_pos hk, List.find?_cons_of_pos (by simp [hk, heq]),
            List.find?_cons_of_pos (by simp [heq])]
          rfl
        · have hk₀ : k₀ ≠ k' := heq ▸ Ne.symm hk
          rw [if_neg hk, List.find?_cons_of_neg (by simp [hk₀]),
            List.find?_cons_of_neg (by simp [hk₀])]
      · rw [if_neg heq]
        by_cases hk₀ : k₀ = k'
        · have hk : k' ≠ k := hk₀ ▸ Ne.symm heq
          rw [if_neg hk, List.find?_cons_of_pos (by simp [hk₀]),
            List.find?_cons_of_pos (by simp [hk₀])]
        · rw [List.find?_cons_of_neg (by simp [hk₀]), find_alterEntries htail,
            List.find?_cons_of_neg (by simp [Ne.symm heq]), List.find?_cons_of_neg (by simp [hk₀])]

theorem get_alter (m : SortedMap κ β) {f : Option β → β} :
    (m.alter k f).get k' = if k' = k then some (f (m.get k)) else m.get k' :=
  find_alterEntries m.sorted

section Push

/-- `entry(k).or_default().push(x)`. -/
def push (m : SortedMap κ (List α)) (k : κ) (x : α) : SortedMap κ (List α) :=
  m.alter k fun xs => xs.getD [] ++ [x]

def pushAll (m : SortedMap κ (List α)) (pairs : List (κ × α)) : SortedMap κ (List α) :=
  pairs.foldl (fun m pair => m.push pair.1 pair.2) m

/-- Under each key stands what was pushed there, in its order. -/
theorem get_pushAll (m : SortedMap κ (List α)) (pairs : List (κ × α)) :
    (m.pushAll pairs).get k
      = if (∃ pair ∈ pairs, pair.1 = k) ∨ (m.get k).isSome then
          some ((m.get k).getD [] ++ (pairs.filter (·.1 = k)).map Prod.snd)
        else none := by
  unfold pushAll
  induction pairs generalizing m with
  | nil =>
    cases hk : m.get k <;> simp [hk]
  | cons pair pairs ih =>
    rw [List.foldl_cons, ih, push, get_alter]
    by_cases hk : k = pair.1
    · simp [hk]
    · have hex : (∃ other ∈ pair :: pairs, other.1 = k) ↔ ∃ other ∈ pairs, other.1 = k := by
        simp [Ne.symm hk]
      rw [if_neg hk, List.filter_cons_of_neg (by simp [Ne.symm hk])]
      simp only [hex]

end Push

end SortedMap
