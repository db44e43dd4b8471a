import Bibdata.Library.Delimited

/-!
# Words between blanks

`spaced` cuts a text at its blanks and writes the words with one separator between them. Two texts
with a blank in between give the two spaced texts joined (`spaced_append`), and what is spaced
neither starts nor ends with a blank.
-/

namespace Words

variable {α : Type*} {p : α → Bool} {sep : α} {xs ys : List α}

def words (p : α → Bool) (xs : List α) : List (List α) := (xs.splitOnP p).filter (· ≠ [])

def spaced (p : α → Bool) (sep : α) (xs : List α) : List α := [sep].intercalate (words p xs)

/-- Two texts with a separator, where both have something. -/
def join (sep : α) (xs ys : List α) : List α :=
  if xs = [] then ys else if ys = [] then xs else xs ++ sep :: ys

@[simp] theorem nil_join (sep : α) (ys : List α) : join sep [] ys = ys := if_pos rfl

@[simp] theorem join_nil (sep : α) (xs : List α) : join sep xs [] = xs := by
  rw [join, if_pos rfl]
  split_ifs with h
  · exact h.symm
  · rfl

section Parts

theorem not_blank_of_mem_splitOnP {w : List α} (h : w ∈ xs.splitOnP p) : ∀ x ∈ w, p x = false := by
  induction xs generalizing w with
  | nil =>
    rw [List.splitOnP_nil, List.mem_singleton] at h
    simp [h]
  | cons x xs ih =>
    rw [List.splitOnP_cons_eq_if_modifyHead] at h
    split_ifs at h with hx
    · rcases List.mem_cons.1 h with rfl | h
      · simp
      · exact ih h
    · rcases hsplit : xs.splitOnP p with _ | ⟨first, rest⟩
      · simp [hsplit] at h
      · rw [hsplit, List.modifyHead_cons] at h
        rw [hsplit] at ih
        rcases List.mem_cons.1 h with rfl | h
        · have hfirst := ih List.mem_cons_self
          simpa [hx] using hfirst
        · exact ih (List.mem_cons_of_mem _ h)

theorem of_mem_words {w : List α} (h : w ∈ words p xs) : w ≠ [] ∧ ∀ x ∈ w, p x = false := by
  obtain ⟨hmem, hne⟩ := List.mem_filter.1 h
  exact ⟨of_decide_eq_true hne, not_blank_of_mem_splitOnP hmem⟩

theorem words_append_cons {b : α} (hb : p b = true) (xs ys : List α) :
    words p (xs ++ b :: ys) = words p xs ++ words p ys := by
  rw [words, List.splitOnP_append_cons xs ys hb, List.filter_append]
  rfl

theorem words_ne_nil_of_mem {x : α} (h : x ∈ xs) (hx : p x = false) : words p xs ≠ [] := by
  induction xs with
  | nil => cases h
  | cons y xs ih =>
    by_cases hy : p y = true
    · rcases List.mem_cons.1 h with rfl | h
      · simp [hy] at hx
      · rw [← List.nil_append (y :: xs), words_append_cons hy]
        exact List.append_ne_nil_of_right_ne_nil _ (ih h)
    · obtain ⟨w, ws, hws⟩ := List.exists_cons_of_ne_nil (List.splitOnP_ne_nil p xs)
      rw [words, List.splitOnP_cons_eq_if_modifyHead, if_neg hy, hws]
      simp

end Parts

section Spaced

theorem words_ne_nil (h : spaced p sep xs ≠ []) : words p xs ≠ [] := by
  intro hwords
  rw [spaced, hwords] at h
  exact h rfl

theorem not_blank_head (h : spaced p sep xs ≠ []) :
    ∃ x rest, spaced p sep xs = x :: rest ∧ p x = false := by
  obtain ⟨w, ws, hws⟩ := List.exists_cons_of_ne_nil (words_ne_nil h)
  obtain ⟨hne, hblank⟩ := of_mem_words (hws ▸ List.mem_cons_self : w ∈ words p xs)
  obtain ⟨x, w, rfl⟩ := List.exists_cons_of_ne_nil hne
  rw [spaced, hws]
  rcases ws with _ | ⟨v, ws⟩
  · exact ⟨x, w, List.intercalate_singleton, hblank x List.mem_cons_self⟩
  · refine ⟨x, w ++ [sep] ++ [sep].intercalate (v :: ws), ?_, hblank x List.mem_cons_self⟩
    rw [List.intercalate_cons_cons]
    rfl

theorem not_blank_last (h : spaced p sep xs ≠ []) :
    ∃ x rest, spaced p sep xs = rest ++ [x] ∧ p x = false := by
  obtain ⟨ws, w, hws⟩ : ∃ ws w, words p xs = ws ++ [w] :=
    ⟨_, _, (List.dropLast_concat_getLast (words_ne_nil h)).symm⟩
  obtain ⟨hne, hblank⟩ := of_mem_words (hws ▸ List.mem_concat_self : w ∈ words p xs)
  obtain ⟨w, x, rfl⟩ : ∃ v x, w = v ++ [x] := ⟨_, _, (List.dropLast_concat_getLast hne).symm⟩
  have hx := hblank x List.mem_concat_self
  rw [spaced, hws]
  rcases ws with _ | ⟨v, ws⟩
  · exact ⟨x, w, List.intercalate_singleton, hx⟩
  · refine ⟨x, [sep].intercalate (v :: ws) ++ [sep] ++ w, ?_, hx⟩
    rw [Delimited.intercalate_concat (List.cons_ne_nil v ws)]
    simp only [List.append_assoc]

theorem spaced_eq_nil_iff : spaced p sep xs = [] ↔ words p xs = [] := by
  constructor
  · intro h
    by_contra hwords
    obtain ⟨w, ws, hws⟩ := List.exists_cons_of_ne_nil hwords
    obtain ⟨hne, -⟩ := of_mem_words (hws ▸ List.mem_cons_self : w ∈ words p xs)
    rw [spaced, hws] at h
    rcases ws with _ | ⟨v, ws⟩
    · rw [List.intercalate_singleton] at h
      exact hne h
    · rw [List.intercalate_cons_cons] at h
      simp [hne] at h
  · intro h
    rw [spaced, h]
    rfl

theorem mem_spaced {x : α} (h : x ∈ spaced p sep xs) : p x = false ∨ x = sep := by
  have hwords : ∀ ws : List (List α), (∀ w ∈ ws, ∀ y ∈ w, p y = false) →
      x ∈ [sep].intercalate ws → p x = false ∨ x = sep := by
    intro ws
    induction ws with
    | nil => simp
    | cons w ws ih =>
      intro hws hx
      rcases ws with _ | ⟨v, ws⟩
      · rw [List.intercalate_singleton] at hx
        exact .inl (hws w List.mem_cons_self x hx)
      · simp only [List.intercalate_cons_cons, List.mem_append, List.mem_singleton] at hx
        rcases hx with (hx | hx) | hx
        · exact .inl (hws w List.mem_cons_self x hx)
        · exact .inr hx
        · exact ih (fun u hu => hws u (List.mem_cons_of_mem w hu)) hx
  exact hwords (words p xs) (fun w hw => (of_mem_words hw).2) h

/-- A blank between two texts is a blank between their words. -/
theorem spaced_append {b : α} (hb : p b = true) (xs ys : List α) :
    spaced p sep (xs ++ b :: ys) = join sep (spaced p sep xs) (spaced p sep ys) := by
  rw [join]
  split_ifs with hxs hys
  · rw [spaced, words_append_cons hb, spaced_eq_nil_iff.1 hxs]
    rfl
  · rw [spaced, words_append_cons hb, spaced_eq_nil_iff.1 hys, List.append_nil]
    rfl
  · rw [spaced, words_append_cons hb,
      Delimited.intercalate_append (mt spaced_eq_nil_iff.2 hys) (mt spaced_eq_nil_iff.2 hxs),
      List.append_assoc]
    rfl

end Spaced

end Words
