import Bibdata.Library.Brackets
import Bibdata.Proofs.TrimmedHeadings

/-!
# What trimming punctuation takes away

The marks and full stops at the end come off first, then one bracket at each end if no other is
left, then the white space around the rest. So a piece is left of the text, and its brackets are
balanced if they were: either they stay as they are or there are none.
-/

namespace Bibdata

variable {isWord : Char → Bool}

open Brackets

section Ends

/-- What may be taken away at the end. -/
def IsEndMark (c : Char) : Prop := isSpace c = true ∨ c ∈ [',', '/', ';', ':', '.', ']']

/-- At the front white space is taken away and at most one opening bracket. -/
structure TrimsTo (cs pre ds post : List Char) : Prop where
  split : cs = pre ++ ds ++ post
  front : ∀ c ∈ pre, isSpace c = true ∨ c = '['
  bracket : pre.count '[' ≤ 1
  back : ∀ c ∈ post, IsEndMark c

/-- The marks before the brackets are looked at. -/
def IsMark (c : Char) : Prop := c ∈ [' ', ',', '/', ';', ':', '.']

theorem isMark_of_mem_rtakeWhile {cs : List Char} {mark c : Char} (hmark : IsMark mark)
    (h : c ∈ cs.rtakeWhile (· = mark)) : IsMark c := by
  have hc : c = mark := by simpa using List.mem_rtakeWhile_imp h
  rwa [hc]

theorem isMark_blank : IsMark ' ' := by simp [IsMark]

theorem IsMark.isEndMark {c : Char} (h : IsMark c) : IsEndMark c := by
  rcases List.mem_cons.1 h with rfl | h
  · exact .inl isSpace_blank
  · refine .inr ?_
    simp only [List.mem_cons, List.not_mem_nil, or_false] at h ⊢
    tauto

theorem free_of_isMark {cs : List Char} (h : ∀ c ∈ cs, IsMark c) : Free '[' ']' cs := by
  refine ⟨fun hc => ?_, fun hc => ?_⟩
  · simpa [IsMark] using h _ hc
  · simpa [IsMark] using h _ hc

theorem free_of_isSpace {cs : List Char} (h : ∀ c ∈ cs, isSpace c = true) : Free '[' ']' cs := by
  refine ⟨fun hc => ?_, fun hc => ?_⟩
  · exact absurd (h _ hc) (by decide)
  · exact absurd (h _ hc) (by decide)

theorem trimTrailing_append (cs : List Char) :
    ∃ post, cs = trimTrailing cs ++ post ∧ ∀ c ∈ post, IsMark c := by
  have hbare : cs.rdropWhile (· = ' ') ++ cs.rtakeWhile (· = ' ') = cs :=
    List.rdropWhile_append_rtakeWhile
  simp only [trimTrailing]
  split
  · rename_i c hlast
    split_ifs with hc
    · obtain ⟨rest, hrest⟩ := List.getLast?_eq_some_iff.1 hlast
      refine ⟨rest.rtakeWhile (· = ' ') ++ [c] ++ cs.rtakeWhile (· = ' '), ?_, fun d hd => ?_⟩
      · rw [hrest, List.dropLast_concat, ← List.append_assoc, ← List.append_assoc,
          List.rdropWhile_append_rtakeWhile, ← hrest, hbare]
      · simp only [List.mem_append, List.mem_singleton] at hd
        rcases hd with (hd | rfl) | hd
        · exact isMark_of_mem_rtakeWhile isMark_blank hd
        · revert hc
          simp only [IsMark, List.mem_cons]
          tauto
        · exact isMark_of_mem_rtakeWhile isMark_blank hd
    · exact ⟨_, hbare.symm, fun d hd => isMark_of_mem_rtakeWhile isMark_blank hd⟩
  · exact ⟨_, hbare.symm, fun d hd => isMark_of_mem_rtakeWhile isMark_blank hd⟩

theorem trimTrailingPeriod_append (isWord : Char → Bool) (cs : List Char) :
    ∃ post, cs = trimTrailingPeriod isWord cs ++ post ∧ ∀ c ∈ post, IsMark c := by
  simp only [trimTrailingPeriod]
  split_ifs
  · refine ⟨(cs.rdropWhile (· = '.')).rtakeWhile (· = ' ') ++ cs.rtakeWhile (· = '.'), ?_,
      fun c hc => ?_⟩
    · rw [← List.append_assoc, List.rdropWhile_append_rtakeWhile,
        List.rdropWhile_append_rtakeWhile]
    · rcases List.mem_append.1 hc with hc | hc
      · exact isMark_of_mem_rtakeWhile isMark_blank hc
      · exact isMark_of_mem_rtakeWhile (by simp [IsMark]) hc
  · exact ⟨[], by simp, by simp⟩

theorem openBracket_eq (cs : List Char) :
    ∃ pre, cs = pre ++ openBracket cs ∧ pre ∈ [[], ['[']] := by
  unfold openBracket
  split
  · exact ⟨['['], rfl, by simp⟩
  · exact ⟨[], rfl, by simp⟩

theorem closeBracket_eq (cs : List Char) :
    ∃ post, cs = closeBracket cs ++ post ∧ post ∈ [[], [']']] := by
  rw [closeBracket]
  split_ifs with hlast
  · obtain ⟨rest, rfl⟩ := List.getLast?_eq_some_iff.1 hlast
    exact ⟨[']'], by rw [List.dropLast_concat], by simp⟩
  · exact ⟨[], by simp, by simp⟩

/-- The brackets either stay, or there are none left. -/
theorem trimBrackets_cases (cs : List Char) :
    (∃ pre post, cs = pre ++ trimStartingAndEndingBrackets cs ++ post ∧ pre ∈ [[], ['[']]
        ∧ post ∈ [[], [']']])
      ∧ (trimStartingAndEndingBrackets cs = cs
        ∨ Free '[' ']' (trimStartingAndEndingBrackets cs)) := by
  rw [trimBrackets_eq]
  split_ifs with hfree
  · obtain ⟨pre, hpre, hopen⟩ := openBracket_eq cs
    obtain ⟨post, hpost, hclose⟩ := closeBracket_eq (openBracket cs)
    refine ⟨⟨pre, post, ?_, hopen, hclose⟩, .inr (by simpa [bracketFree, Free] using hfree)⟩
    rw [List.append_assoc, ← hpost, ← hpre]
  · exact ⟨⟨[], [], by simp, by simp, by simp⟩, .inl rfl⟩

theorem strip_append (cs : List Char) :
    ∃ pre post, cs = pre ++ (cs.dropWhile isSpace).rdropWhile isSpace ++ post
      ∧ (∀ c ∈ pre, isSpace c = true) ∧ ∀ c ∈ post, isSpace c = true := by
  refine ⟨cs.takeWhile isSpace, (cs.dropWhile isSpace).rtakeWhile isSpace, ?_,
    fun c hc => List.mem_takeWhile_imp hc, fun c hc => List.mem_rtakeWhile_imp hc⟩
  rw [List.append_assoc, List.rdropWhile_append_rtakeWhile, List.takeWhile_append_dropWhile]

theorem strip_ends (cs : List Char) :
    (∀ c ∈ ((cs.dropWhile isSpace).rdropWhile isSpace).head?, isSpace c = false)
      ∧ ∀ c ∈ ((cs.dropWhile isSpace).rdropWhile isSpace).getLast?, isSpace c = false := by
  refine ⟨fun c hc => ?_, fun c hc => ?_⟩
  · have hhead : c ∈ (cs.dropWhile isSpace).head? := by
      obtain ⟨post, hpost⟩ := List.rdropWhile_prefix isSpace (cs.dropWhile isSpace)
      rw [← hpost, List.head?_append, hc]
      rfl
    have hnot := List.head?_dropWhile_not isSpace cs
    rw [hhead] at hnot
    simpa using hnot
  · have hne : (cs.dropWhile isSpace).rdropWhile isSpace ≠ [] := by
      rintro hnil
      rw [hnil] at hc
      cases hc
    have hnot := List.rdropWhile_last_not _ _ hne
    rw [List.getLast?_eq_some_getLast hne] at hc
    cases hc
    simpa using hnot

theorem trim_trim (s : String) : trim (trim s) = trim s := by
  obtain ⟨hhead, hlast⟩ := strip_ends s.toList
  rw [trim, trim, String.toList_ofList, String.ofList_inj]
  generalize (s.toList.dropWhile isSpace).rdropWhile isSpace = cs at hhead hlast
  have hdrop : cs.dropWhile isSpace = cs := by
    rcases cs with _ | ⟨c, cs⟩
    · rfl
    · exact List.dropWhile_cons_of_neg (by simp [hhead c rfl])
  rw [hdrop]
  rcases List.eq_nil_or_concat cs with rfl | ⟨cs, c, rfl⟩
  · rfl
  · rw [List.concat_eq_append] at hlast ⊢
    exact List.rdropWhile_concat_neg _ _ _ (by simp [hlast c (by simp)])

end Ends

section Trimmed

theorem isEndMark_of_mem_bracket {post : List Char} (h : post ∈ [[], [']']]) :
    ∀ c ∈ post, IsEndMark c := by
  simp only [List.mem_cons, List.not_mem_nil, or_false] at h
  rcases h with rfl | rfl
  · simp
  · simp [IsEndMark]

theorem front_of_mem_bracket {pre : List Char} (h : pre ∈ [[], ['[']]) :
    (∀ c ∈ pre, c = '[') ∧ pre.count '[' ≤ 1 := by
  simp only [List.mem_cons, List.not_mem_nil, or_false] at h
  rcases h with rfl | rfl
  · simp
  · simp

/-- The steps after the marks at the end. -/
theorem trimsTo_afterTrailing (isWord : Char → Bool) (cs : List Char) :
    ∃ pre post, TrimsTo cs pre (afterTrailing isWord cs) post := by
  obtain ⟨periods, hperiods, hmark⟩ := trimTrailingPeriod_append isWord cs
  obtain ⟨⟨opened, closed, hbrackets, hopened, hclosed⟩, -⟩ :=
    trimBrackets_cases (trimTrailingPeriod isWord cs)
  obtain ⟨before, behind, hstrip, hbefore, hbehind⟩ :=
    strip_append (trimStartingAndEndingBrackets (trimTrailingPeriod isWord cs))
  obtain ⟨hfront, hcount⟩ := front_of_mem_bracket hopened
  refine ⟨opened ++ before, behind ++ closed ++ periods, ?_, fun c hc => ?_, ?_, fun c hc => ?_⟩
  · calc cs = trimTrailingPeriod isWord cs ++ periods := hperiods
      _ = opened ++ trimStartingAndEndingBrackets (trimTrailingPeriod isWord cs) ++ closed
          ++ periods := by rw [← hbrackets]
      _ = opened ++ (before ++ afterTrailing isWord cs ++ behind) ++ closed ++ periods := by
          rw [afterTrailing, ← hstrip]
      _ = _ := by simp only [List.append_assoc]
  · rcases List.mem_append.1 hc with hc | hc
    · exact .inr (hfront c hc)
    · exact .inl (hbefore c hc)
  · rw [List.count_append, (free_of_isSpace hbefore).count_eq_zero.1]
    omega
  · simp only [List.mem_append] at hc
    rcases hc with (hc | hc) | hc
    · exact .inl (hbehind c hc)
    · exact isEndMark_of_mem_bracket hclosed c hc
    · exact (hmark c hc).isEndMark

theorem balanced_afterTrailing {cs : List Char} (h : Balanced '[' ']' cs) :
    Balanced '[' ']' (afterTrailing isWord cs) := by
  obtain ⟨periods, hperiods, hmark⟩ := trimTrailingPeriod_append isWord cs
  have hbare : Balanced '[' ']' (trimTrailingPeriod isWord cs) := by
    rw [hperiods] at h
    exact h.of_append (free_of_isMark hmark)
  have hbrackets : Balanced '[' ']'
      (trimStartingAndEndingBrackets (trimTrailingPeriod isWord cs)) := by
    rcases (trimBrackets_cases (trimTrailingPeriod isWord cs)).2 with hsame | hfree
    · rwa [hsame]
    · exact hfree.balanced
  obtain ⟨before, behind, hstrip, hbefore, hbehind⟩ :=
    strip_append (trimStartingAndEndingBrackets (trimTrailingPeriod isWord cs))
  rw [hstrip] at hbrackets
  exact hbrackets.middle (free_of_isSpace hbefore) (free_of_isSpace hbehind)

theorem trimPunctuation_piece (isWord : Char → Bool) (s : String) :
    (∃ pre post, TrimsTo s.toList pre (trimPunctuation isWord s).toList post)
      ∧ (Balanced '[' ']' s.toList → Balanced '[' ']' (trimPunctuation isWord s).toList)
      ∧ (∀ c ∈ (trimPunctuation isWord s).toList.head?, isSpace c = false)
      ∧ ∀ c ∈ (trimPunctuation isWord s).toList.getLast?, isSpace c = false := by
  obtain ⟨marks, hmarks, hmark⟩ := trimTrailing_append s.toList
  rw [toList_trimPunctuation]
  refine ⟨?_, fun hbalanced => ?_, strip_ends _⟩
  · obtain ⟨pre, post, htrims⟩ := trimsTo_afterTrailing isWord (trimTrailing s.toList)
    refine ⟨pre, post ++ marks, ?_, htrims.front, htrims.bracket, fun c hc => ?_⟩
    · rw [← List.append_assoc, ← htrims.split, ← hmarks]
    · rcases List.mem_append.1 hc with hc | hc
      · exact htrims.back c hc
      · exact (hmark c hc).isEndMark
  · rw [hmarks] at hbalanced
    exact balanced_afterTrailing (hbalanced.of_append (free_of_isMark hmark))

end Trimmed

end Bibdata
