import Mathlib.Data.List.DropRight
import Mathlib.Data.List.Infix
import Mathlib.Tactic.Common

/-!
# Lists written with a delimiter

A list of parts is written with a delimiter between them, and read back by cutting at the
delimiter. `parts` leaves out the empty parts at the end, which stand for delimiters at the end of
the text (`eq_intercalate_parts`) and which no window without empty parts reaches
(`infix_of_infix_append_replicate`).

Parts can also bring their delimiter with them: written `before` the marked ones alone, or `between`
all of them, a space where a part is not marked. The two agree only when the first part is not
marked and the others are (`before_eq_between_iff`).
-/

namespace Delimited

variable {α : Type*}

theorem intercalate_append {sep : List α} {qs : List (List α)} (hqs : qs ≠ []) :
    ∀ {ps : List (List α)}, ps ≠ [] →
      sep.intercalate (ps ++ qs) = sep.intercalate ps ++ sep ++ sep.intercalate qs
  | [p], _ => by
    obtain ⟨q, qs, rfl⟩ := List.exists_cons_of_ne_nil hqs
    rw [List.singleton_append, List.intercalate_cons_cons, List.intercalate_singleton]
  | p :: q :: ps, _ => by
    rw [List.cons_append, List.cons_append, List.intercalate_cons_cons, ← List.cons_append,
      intercalate_append hqs (List.cons_ne_nil q ps), List.intercalate_cons_cons]
    simp only [List.append_assoc]

theorem intercalate_concat {sep w : List α} {ps : List (List α)} (h : ps ≠ []) :
    sep.intercalate (ps ++ [w]) = sep.intercalate ps ++ sep ++ w := by
  rw [intercalate_append (List.cons_ne_nil w []) h, List.intercalate_singleton]

theorem intercalate_append_replicate {c : α} {ps : List (List α)} (h : ps ≠ []) (n : ℕ) :
    [c].intercalate (ps ++ List.replicate n []) = [c].intercalate ps ++ List.replicate n c := by
  induction n with
  | zero => simp
  | succ n ih =>
    rw [List.replicate_succ', ← List.append_assoc, intercalate_concat (by simp [h]), ih,
      List.replicate_succ']
    simp

theorem infix_of_infix_append_replicate {e : α} {w xs : List α} {n : ℕ}
    (h : w <:+: xs ++ List.replicate n e) (hne : w ≠ []) (he : e ∉ w) : w <:+: xs := by
  induction n with
  | zero => simpa using h
  | succ n ih =>
    refine ih ?_
    rw [List.replicate_succ', ← List.append_assoc] at h
    rcases List.infix_concat_iff.1 h with hsuffix | hinfix
    · obtain ⟨s, hs⟩ := hsuffix
      have hlast := congrArg List.getLast? hs
      rw [List.getLast?_append, List.getLast?_concat, List.getLast?_eq_some_getLast hne] at hlast
      have := List.getLast_mem hne
      rw [Option.some_inj.1 hlast] at this
      exact absurd this he
    · exact hinfix

variable [DecidableEq α] {c : α} {xs : List α}

def parts (c : α) (xs : List α) : List (List α) := (xs.splitOn c).rdropWhile (·.isEmpty)

theorem not_mem_of_mem_splitOn {xs w : List α} (h : w ∈ xs.splitOn c) : c ∉ w := by
  by_cases hc : c ∈ xs
  · obtain ⟨as, bs, he, has⟩ := List.eq_append_cons_of_mem hc
    rw [he, List.splitOn_append_cons_self_of_not_mem has] at h
    rcases List.mem_cons.1 h with rfl | h
    · exact has
    · exact not_mem_of_mem_splitOn h
  · rw [List.splitOn_eq_singleton hc, List.mem_singleton] at h
    rwa [h]
termination_by xs.length
decreasing_by
  rw [he, List.length_append, List.length_cons]
  omega

theorem exists_splitOn_eq (c : α) (xs : List α) :
    ∃ n, xs.splitOn c = parts c xs ++ List.replicate n [] := by
  refine ⟨((xs.splitOn c).rtakeWhile (·.isEmpty)).length, ?_⟩
  have hempty : (xs.splitOn c).rtakeWhile (·.isEmpty)
      = List.replicate ((xs.splitOn c).rtakeWhile (·.isEmpty)).length [] := by
    refine List.eq_replicate_of_mem fun w hw => ?_
    simpa using List.mem_rtakeWhile_imp hw
  rw [← hempty]
  exact List.rdropWhile_append_rtakeWhile.symm

/-- What is cut off are delimiters at the end. -/
theorem eq_intercalate_parts (h : parts c xs ≠ []) :
    ∃ n, xs = [c].intercalate (parts c xs) ++ List.replicate n c := by
  obtain ⟨n, hn⟩ := exists_splitOn_eq c xs
  refine ⟨n, ?_⟩
  rw [← intercalate_append_replicate h, ← hn, List.intercalate_splitOn]

/-- What is left ends in a part. -/
theorem getLast?_intercalate_parts (h : parts c xs ≠ []) :
    ∃ y, ([c].intercalate (parts c xs)).getLast? = some y ∧ y ≠ c := by
  have hlast : (parts c xs).getLast h ≠ [] := by
    have := List.rdropWhile_last_not (fun w : List α => w.isEmpty) (xs.splitOn c) h
    rwa [List.isEmpty_iff] at this
  have hmem : (parts c xs).getLast h ∈ xs.splitOn c :=
    (List.rdropWhile_prefix _ _).subset (List.getLast_mem h)
  obtain ⟨y, hy⟩ := Option.ne_none_iff_exists'.1 (mt List.getLast?_eq_none_iff.1 hlast)
  have hc : y ≠ c := by
    rintro rfl
    exact not_mem_of_mem_splitOn hmem (List.mem_of_getLast? hy)
  refine ⟨y, ?_, hc⟩
  rw [← List.dropLast_concat_getLast h]
  by_cases hd : (parts c xs).dropLast = []
  · rw [hd, List.nil_append, List.intercalate_singleton, hy]
  · rw [intercalate_concat hd, List.getLast?_append, hy]
    rfl

theorem eq_replicate_of_parts_eq_nil (h : parts c xs = []) : ∃ n, xs = List.replicate n c := by
  obtain ⟨n, hn⟩ := exists_splitOn_eq c xs
  rw [h, List.nil_append] at hn
  cases n with
  | zero => exact absurd hn (List.splitOn_ne_nil c xs)
  | succ n =>
    refine ⟨n, ?_⟩
    have hxs : xs = [c].intercalate ([[]] ++ List.replicate n []) := by
      rw [List.singleton_append, ← List.replicate_succ, ← hn, List.intercalate_splitOn]
    rw [hxs, intercalate_append_replicate (List.cons_ne_nil _ _), List.intercalate_singleton,
      List.nil_append]

/-- A text that ends in a part is what its parts make. -/
theorem intercalate_parts_eq_self {y : α} (h : xs.getLast? = some y) (hy : y ≠ c) :
    parts c xs ≠ [] ∧ [c].intercalate (parts c xs) = xs := by
  have hne : parts c xs ≠ [] := by
    intro hp
    obtain ⟨n, hn⟩ := eq_replicate_of_parts_eq_nil hp
    rw [hn] at h
    exact hy (List.eq_of_mem_replicate (List.mem_of_getLast? h))
  refine ⟨hne, ?_⟩
  obtain ⟨n, hn⟩ := eq_intercalate_parts hne
  cases n with
  | zero => simpa using hn.symm
  | succ n =>
    rw [hn, List.replicate_succ', ← List.append_assoc, List.getLast?_concat] at h
    exact absurd (Option.some.inj h).symm hy

section Marked

variable {β : Type*} (c blank : α) (marked : β → Bool) (text : β → List α)

def before (x : β) : List α := (if marked x then [c] else []) ++ text x

def between (x : β) : List α := (if marked x then c else blank) :: text x

omit [DecidableEq α] in
/-- What is additive, and one more for each marked part, is counted so for all parts. -/
theorem flatMap_add_countP (m : List α → ℕ) (hnil : m [] = 0)
    (happend : ∀ xs ys, m (xs ++ ys) = m xs + m ys) {f : β → List α}
    (hone : ∀ x, m (f x) = m (text x) + if marked x then 1 else 0) (xs : List β) :
    m (xs.flatMap f) = m (xs.flatMap text) + xs.countP marked := by
  induction xs with
  | nil => simp [hnil]
  | cons x xs ih =>
    rw [List.flatMap_cons, List.flatMap_cons, happend, happend, ih, hone, List.countP_cons]
    omega

theorem count_before (xs : List β) :
    (xs.flatMap (before c marked text)).count c
      = (xs.flatMap text).count c + xs.countP marked := by
  refine flatMap_add_countP marked text (List.count c) rfl (fun _ _ => List.count_append) ?_ xs
  intro x
  rw [before, List.count_append, Nat.add_comm]
  split_ifs <;> simp

omit [DecidableEq α] in
theorem length_before (xs : List β) :
    (xs.flatMap (before c marked text)).length
      = (xs.flatMap text).length + xs.countP marked := by
  refine flatMap_add_countP marked text List.length rfl (fun _ _ => List.length_append) ?_ xs
  intro x
  rw [before, List.length_append, Nat.add_comm]
  split_ifs <;> simp

variable {c blank}

theorem count_between (hblank : blank ≠ c) (xs : List β) :
    (xs.flatMap (between c blank marked text)).count c
      = (xs.flatMap text).count c + xs.countP marked := by
  refine flatMap_add_countP marked text (List.count c) rfl (fun _ _ => List.count_append) ?_ xs
  intro x
  cases hx : marked x
  · simp [between, hx, hblank]
  · simp [between, hx]

omit [DecidableEq α] in
theorem length_between (xs : List β) :
    (xs.flatMap (between c blank marked text)).length
      = (xs.flatMap text).length + xs.length := by
  have hcount := flatMap_add_countP (fun _ => true) text List.length rfl
    (fun _ _ => List.length_append) (f := between c blank marked text) (fun _ => rfl) xs
  simpa using hcount

/-- The delimiters are counted on both sides, and then all that stands between the parts. -/
theorem before_append_eq_between_iff (hblank : blank ≠ c) (x : β) (xs : List β) (n : ℕ) :
    (x :: xs).flatMap (before c marked text) ++ List.replicate n c
        = text x ++ xs.flatMap (between c blank marked text)
      ↔ n = 0 ∧ marked x = false ∧ ∀ y ∈ xs, marked y = true := by
  constructor
  · intro h
    have hcount := congrArg (List.count c) h
    have hlength := congrArg List.length h
    rw [List.count_append, List.count_append, count_before, count_between marked text hblank,
      List.countP_cons, List.flatMap_cons, List.count_append, List.count_replicate_self] at hcount
    rw [List.length_append, List.length_append, length_before, length_between marked text,
      List.countP_cons, List.flatMap_cons, List.length_append, List.length_replicate] at hlength
    have hn : n = 0 := by omega
    have hx : marked x = false := by
      cases hx : marked x
      · rfl
      · rw [hx] at hcount
        simp at hcount
        omega
    refine ⟨hn, hx, List.countP_eq_length.1 ?_⟩
    rw [hx] at hlength
    simp at hlength
    omega
  · rintro ⟨rfl, hx, hxs⟩
    have hsame : xs.flatMap (before c marked text) = xs.flatMap (between c blank marked text) := by
      refine List.flatMap_congr fun y hy => ?_
      simp [before, between, hxs y hy]
    simp [hsame, before, hx]

theorem before_eq_between_iff (hblank : blank ≠ c) (x : β) (xs : List β) :
    (x :: xs).flatMap (before c marked text)
        = text x ++ xs.flatMap (between c blank marked text)
      ↔ marked x = false ∧ ∀ y ∈ xs, marked y = true := by
  simpa using before_append_eq_between_iff marked text hblank x xs 0

end Marked

end Delimited
