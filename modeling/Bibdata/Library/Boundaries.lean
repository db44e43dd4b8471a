import Mathlib.Data.List.Infix
import Mathlib.Tactic.Common

/-!
# The prefixes of a text that end at a delimiter

`prefixes` are the beginnings of a text that a delimiter follows, and the text itself
(`mem_prefixes`). A scan over the parts of the text joins one part after the other and writes no
delimiter while it has nothing yet. It finds the prefixes unless the text starts with a delimiter
(`scan_splitOn`); nothing it finds starts with one (`head?_of_mem_scan`).
-/

namespace Boundaries

variable {α : Type*} [DecidableEq α] {c : α} {xs p : List α}

def EndsAt (c : α) (xs p : List α) : Prop := p = xs ∨ p ++ [c] <+: xs

def prefixes (c : α) : List α → List (List α)
  | [] => [[]]
  | x :: xs =>
    if x = c then [] :: (prefixes c xs).map (x :: ·) else (prefixes c xs).map (x :: ·)

def scan (c : α) : List α → List (List α) → List (List α)
  | _, [] => []
  | running, part :: parts =>
    let next := (if running = [] then running else running ++ [c]) ++ part
    next :: scan c next parts

section Prefixes

theorem mem_prefixes : p ∈ prefixes c xs ↔ EndsAt c xs p := by
  unfold EndsAt
  induction xs generalizing p with
  | nil => simp [prefixes]
  | cons x xs ih =>
    rcases p with _ | ⟨y, p⟩
    · by_cases hx : x = c
      · simp [prefixes, hx]
      · simp [prefixes, hx, Ne.symm hx]
    · have hmap : y :: p ∈ (prefixes c xs).map (x :: ·) ↔ y = x ∧ p ∈ prefixes c xs := by
        simp [eq_comm, and_comm]
      have htail : y :: p ∈ prefixes c (x :: xs) ↔ y :: p ∈ (prefixes c xs).map (x :: ·) := by
        rw [prefixes]
        split_ifs
        · simp
        · rfl
      rw [htail, hmap, ih, List.cons_append, List.cons_prefix_cons, List.cons.injEq]
      exact and_or_left

theorem pairwise_prefixes (c : α) (xs : List α) :
    (prefixes c xs).Pairwise fun p q => p.length < q.length := by
  induction xs with
  | nil => exact List.pairwise_singleton _ _
  | cons x xs ih =>
    have hmap : ((prefixes c xs).map (x :: ·)).Pairwise fun p q => p.length < q.length := by
      rw [List.pairwise_map]
      exact ih.imp fun h => by simpa using h
    rw [prefixes]
    split_ifs
    · refine List.pairwise_cons.2 ⟨fun q hq => ?_, hmap⟩
      obtain ⟨q, -, rfl⟩ := List.mem_map.1 hq
      simp
    · exact hmap

theorem getLast?_prefixes (c : α) (xs : List α) : (prefixes c xs).getLast? = some xs := by
  induction xs with
  | nil => rfl
  | cons x xs ih =>
    rw [prefixes]
    split_ifs
    · rw [List.getLast?_cons, List.getLast?_map, ih]
      rfl
    · rw [List.getLast?_map, ih]
      rfl

end Prefixes

section Scan

/-- The parts joined, from the first on. -/
def joins (c : α) : List (List α) → List (List α)
  | [] => []
  | part :: parts => part :: (joins c parts).map fun rest => part ++ c :: rest

theorem joins_splitOn (c : α) (xs : List α) : joins c (xs.splitOn c) = prefixes c xs := by
  induction xs with
  | nil => rfl
  | cons x xs ih =>
    rw [List.splitOn_cons_eq_if_modifyHead, prefixes, ← ih]
    by_cases hx : x = c
    · simp [hx, joins]
    · rcases hsplit : xs.splitOn c with _ | ⟨part, parts⟩
      · exact absurd hsplit (List.splitOn_ne_nil c xs)
      · simp [hx, joins]

omit [DecidableEq α] in
theorem scan_of_ne_nil {running : List α} (h : running ≠ []) (parts : List (List α)) :
    scan c running parts = (joins c parts).map fun rest => running ++ c :: rest := by
  induction parts generalizing running with
  | nil => rfl
  | cons part parts ih =>
    have hnext : running ++ [c] ++ part ≠ [] := by simp
    rw [scan, if_neg h, ih hnext, joins, List.map_cons, List.map_map]
    simp

theorem scan_splitOn (h : xs.head? ≠ some c) : scan c [] (xs.splitOn c) = prefixes c xs := by
  rw [← joins_splitOn]
  rcases xs with _ | ⟨x, xs⟩
  · rfl
  · have hx : x ≠ c := by simpa using h
    rcases hsplit : xs.splitOn c with _ | ⟨part, parts⟩
    · exact absurd hsplit (List.splitOn_ne_nil c xs)
    · have hparts : (x :: xs).splitOn c = (x :: part) :: parts := by
        rw [List.splitOn_cons_eq_if_modifyHead, hsplit]
        simp [hx]
      have hscan := scan_of_ne_nil (c := c) (List.cons_ne_nil x part) parts
      rw [hparts, scan, joins, ← hscan]
      rfl

omit [DecidableEq α] in
/-- No delimiter is written before there is something to separate. -/
theorem head?_of_mem_scan {running : List α} {parts : List (List α)}
    (hrunning : running.head? ≠ some c) (hparts : ∀ part ∈ parts, c ∉ part) {q : List α}
    (hq : q ∈ scan c running parts) : q.head? ≠ some c := by
  induction parts generalizing running with
  | nil => cases hq
  | cons part parts ih =>
    have hnext : ((if running = [] then running else running ++ [c]) ++ part).head? ≠ some c := by
      split_ifs with h
      · rw [h, List.nil_append]
        intro hhead
        exact hparts part List.mem_cons_self (List.mem_of_head? hhead)
      · rw [List.append_assoc, List.head?_append_of_ne_nil _ h]
        exact hrunning
    rw [scan] at hq
    rcases List.mem_cons.1 hq with rfl | hq
    · exact hnext
    · exact ih hnext (fun part hpart => hparts part (List.mem_cons_of_mem _ hpart)) hq

end Scan

end Boundaries
