import Bibdata.Library.Words
import Bibdata.Proofs.Scripts

/-!
# What trimming leaves of a name and a title

A heading is a name and a title with a blank between them, trimmed as a whole. The punctuation and
the full stops at its end are those of the title, as long as there is something else in it, and of
the brackets one may be taken off the name and one off the title. Where a part is taken away
altogether, the heading is no more than the other part (`beginsAndContinues_iff`).
-/

namespace Bibdata

variable (isWord : Char → Bool) {name title : List Char}

/-- A text that neither starts nor ends with a blank, and has no other white space. -/
structure Tight (cs : List Char) : Prop where
  head : ∃ c rest, cs = c :: rest ∧ isSpace c = false
  last : ∃ c rest, cs = rest ++ [c] ∧ isSpace c = false
  blank : ∀ c ∈ cs, isSpace c = true → c = ' '

def bracketFree (cs : List Char) : Bool := '[' ∉ cs ∧ ']' ∉ cs

/-- Without an opening bracket. -/
def openBracket : List Char → List Char
  | '[' :: cs => cs
  | cs => cs

/-- Without a closing bracket. -/
def closeBracket (cs : List Char) : List Char :=
  if cs.getLast? = some ']' then cs.dropLast else cs

/-- What `trim_punctuation` does after the punctuation at the end. -/
def afterTrailing (cs : List Char) : List Char :=
  ((trimStartingAndEndingBrackets (trimTrailingPeriod isWord cs)).dropWhile isSpace).rdropWhile
    isSpace

theorem toList_trimPunctuation (s : String) :
    (trimPunctuation isWord s).toList = afterTrailing isWord (trimTrailing s.toList) := by
  rw [trimPunctuation, trim, String.toList_ofList, String.toList_ofList]
  rfl

section Ends

variable {p : Char → Bool}

theorem rdropWhile_append (xs ys : List Char) :
    (xs ++ ys).rdropWhile p
      = if ys.rdropWhile p = [] then xs.rdropWhile p else xs ++ ys.rdropWhile p := by
  simp only [List.rdropWhile, List.reverse_append, List.dropWhile_append, List.isEmpty_iff,
    List.reverse_eq_nil_iff]
  split_ifs
  · rfl
  · rw [List.reverse_append, List.reverse_reverse]

theorem rtakeWhile_append_cons {x : Char} (hx : p x = false) (xs ys : List Char) :
    (xs ++ x :: ys).rtakeWhile p = ys.rtakeWhile p := by
  have htake : ∀ zs : List Char, (zs ++ x :: xs.reverse).takeWhile p = zs.takeWhile p := by
    intro zs
    induction zs with
    | nil => simp [hx]
    | cons z zs ih => simp [List.takeWhile_cons, ih]
  simp only [List.rtakeWhile, List.reverse_append, List.reverse_cons, List.append_assoc,
    List.singleton_append, htake]

theorem isSpace_blank : isSpace ' ' = true := by decide

theorem Tight.ne_nil {cs : List Char} (h : Tight cs) : cs ≠ [] := by
  obtain ⟨c, rest, rfl, -⟩ := h.head
  exact List.cons_ne_nil c rest

theorem ne_blank {c : Char} (h : isSpace c = false) : c ≠ ' ' := by
  rintro rfl
  rw [isSpace_blank] at h
  cases h

theorem Tight.rdropWhile_eq {cs : List Char} (h : Tight cs) :
    cs.rdropWhile (· = ' ') = cs ∧ cs.rdropWhile isSpace = cs := by
  obtain ⟨c, rest, rfl, hc⟩ := h.last
  exact ⟨List.rdropWhile_concat_neg _ _ _ (by simpa using ne_blank hc),
    List.rdropWhile_concat_neg _ _ _ (by simp [hc])⟩

theorem Tight.dropWhile_eq {cs : List Char} (h : Tight cs) : cs.dropWhile isSpace = cs := by
  obtain ⟨c, rest, rfl, hc⟩ := h.head
  exact List.dropWhile_cons_of_neg (by simp [hc])

/-- A beginning of a tight text that something other than a blank ends. -/
theorem Tight.of_isPrefix {cs ds : List Char} (h : Tight cs) (hbegins : ds <+: cs) (hne : ds ≠ [])
    (hlast : ∀ c ∈ ds.getLast?, c ≠ ' ') : Tight ds := by
  have hblank : ∀ c ∈ ds, isSpace c = true → c = ' ' := fun c hc =>
    h.blank c (hbegins.subset hc)
  refine ⟨?_, ?_, hblank⟩
  · obtain ⟨c, rest, rfl, hc⟩ := h.head
    obtain ⟨d, rest', rfl⟩ := List.exists_cons_of_ne_nil hne
    obtain ⟨rfl, -⟩ := List.cons_prefix_cons.1 hbegins
    exact ⟨d, rest', rfl, hc⟩
  · obtain ⟨rest, d, rfl⟩ : ∃ rest d, ds = rest ++ [d] :=
      ⟨_, _, (List.dropLast_concat_getLast hne).symm⟩
    refine ⟨d, rest, rfl, ?_⟩
    by_contra hspace
    exact hlast d (by simp) (hblank d List.mem_concat_self (Bool.not_eq_false _ ▸ hspace))

theorem Tight.rdropWhile {cs ds : List Char} (h : Tight cs) (hbegins : ds <+: cs)
    (hne : ds.rdropWhile (· = ' ') ≠ []) : Tight (ds.rdropWhile (· = ' ')) := by
  refine h.of_isPrefix ((List.rdropWhile_prefix _ _).trans hbegins) hne fun c hc => ?_
  have hnot := List.rdropWhile_last_not _ _ hne
  rw [List.getLast?_eq_some_getLast hne] at hc
  cases hc
  simpa using hnot

/-- The head of a tight text stays when blanks are dropped at the end. -/
theorem Tight.rdropWhile_ne_nil {cs ds : List Char} (h : Tight cs) (hbegins : ds <+: cs)
    (hne : ds ≠ []) : ds.rdropWhile (· = ' ') ≠ [] ∧ ds.rdropWhile isSpace ≠ [] := by
  obtain ⟨c, rest, rfl, hc⟩ := h.head
  obtain ⟨d, rest', rfl⟩ := List.exists_cons_of_ne_nil hne
  obtain ⟨rfl, -⟩ := List.cons_prefix_cons.1 hbegins
  rw [ne_eq, ne_eq, List.rdropWhile_eq_nil_iff, List.rdropWhile_eq_nil_iff]
  refine ⟨fun hall => ne_blank hc ?_, fun hall => ?_⟩
  · simpa using hall d List.mem_cons_self
  · rw [hall d List.mem_cons_self] at hc
    cases hc

end Ends

section Steps

variable {isWord}

theorem trimTrailing_concat {c : Char} (hc : c ≠ ' ') (rest : List Char) :
    trimTrailing (rest ++ [c])
      = if c ∈ [',', '/', ';', ':'] then rest.rdropWhile (· = ' ') else rest ++ [c] := by
  rw [trimTrailing]
  rw [List.rdropWhile_concat_neg _ _ _ (by simpa using hc)]
  simp

/-- The punctuation at the end is that of the title. -/
theorem trimTrailing_join (hname : Tight name) (htitle : Tight title) :
    trimTrailing (name ++ ' ' :: title)
      = if trimTrailing title = [] then name else name ++ ' ' :: trimTrailing title := by
  obtain ⟨c, rest, rfl, hc⟩ := htitle.last
  have hjoin : name ++ ' ' :: (rest ++ [c]) = (name ++ ' ' :: rest) ++ [c] := by simp
  rw [hjoin, trimTrailing_concat (ne_blank hc), trimTrailing_concat (ne_blank hc)]
  by_cases hmark : c ∈ [',', '/', ';', ':']
  · have hrest : name ++ ' ' :: rest = (name ++ [' ']) ++ rest := by simp
    simp only [if_pos hmark]
    rw [hrest, rdropWhile_append, List.rdropWhile_concat_pos _ _ _ (by simp),
      hname.rdropWhile_eq.1, List.append_assoc, List.singleton_append]
  · simp only [if_neg hmark]
    simp

theorem trimTrailing_isPrefix (htitle : Tight title) : trimTrailing title <+: title := by
  obtain ⟨c, rest, rfl, hc⟩ := htitle.last
  rw [trimTrailing_concat (ne_blank hc)]
  split_ifs
  · exact (List.rdropWhile_prefix _ _).trans (List.prefix_append _ _)
  · exact List.prefix_refl _

theorem tight_trimTrailing (htitle : Tight title) (hne : trimTrailing title ≠ []) :
    Tight (trimTrailing title) := by
  obtain ⟨c, rest, rfl, hc⟩ := htitle.last
  rw [trimTrailing_concat (ne_blank hc)] at hne ⊢
  split_ifs at hne ⊢
  · exact htitle.rdropWhile (List.prefix_append _ _) hne
  · exact htitle

/-- The full stops at the end are those of the title, if it is more than that. -/
theorem trimTrailingPeriod_join (hname : Tight name) (htitle : Tight title)
    (hword : isWord ' ' = false) :
    trimTrailingPeriod isWord (name ++ ' ' :: title)
      = if title.rdropWhile (· = '.') = [] ∧ 3 ≤ (name.rtakeWhile isWord).length then name
        else name ++ ' ' :: trimTrailingPeriod isWord title := by
  have hjoin : name ++ ' ' :: title = (name ++ [' ']) ++ title := by simp
  by_cases hdots : title.rdropWhile (· = '.') = []
  · have hbare : ((name ++ ' ' :: title).rdropWhile (· = '.')).rdropWhile (· = ' ') = name := by
      rw [hjoin, rdropWhile_append, if_pos hdots, List.rdropWhile_concat_neg _ _ _ (by decide),
        List.rdropWhile_concat_pos _ _ _ (by simp), hname.rdropWhile_eq.1]
    have hkept : trimTrailingPeriod isWord title = title := by
      simp [trimTrailingPeriod, hdots]
    simp only [trimTrailingPeriod, hbare, hdots, true_and] at hkept ⊢
    rw [hkept]
  · have hbegins : title.rdropWhile (· = '.') <+: title := List.rdropWhile_prefix _ _
    have hbare : ((name ++ ' ' :: title).rdropWhile (· = '.')).rdropWhile (· = ' ')
        = name ++ ' ' :: (title.rdropWhile (· = '.')).rdropWhile (· = ' ') := by
      rw [hjoin, rdropWhile_append, if_neg hdots, rdropWhile_append,
        if_neg (htitle.rdropWhile_ne_nil hbegins hdots).1, List.append_assoc,
        List.singleton_append]
    rw [if_neg fun h => hdots h.1]
    simp only [trimTrailingPeriod, hbare, rtakeWhile_append_cons hword]
    split_ifs <;> rfl

theorem trimTrailingPeriod_isPrefix (title : List Char) :
    trimTrailingPeriod isWord title <+: title := by
  simp only [trimTrailingPeriod]
  split_ifs
  · exact (List.rdropWhile_prefix _ _).trans (List.rdropWhile_prefix _ _)
  · exact List.prefix_refl _

theorem tight_trimTrailingPeriod (htitle : Tight title) :
    Tight (trimTrailingPeriod isWord title) := by
  simp only [trimTrailingPeriod]
  split_ifs with hlong
  · refine htitle.rdropWhile (List.rdropWhile_prefix _ _) fun h => ?_
    rw [h] at hlong
    simp at hlong
  · exact htitle

theorem trimBrackets_eq (cs : List Char) :
    trimStartingAndEndingBrackets cs
      = if bracketFree (closeBracket (openBracket cs)) then closeBracket (openBracket cs)
        else cs := by
  rcases cs with _ | ⟨c, rest⟩
  · rfl
  · simp only [bracketFree, decide_eq_true_eq]
    by_cases hopen : c = '['
    · subst hopen
      rfl
    · have hstays : openBracket (c :: rest) = c :: rest := by simp [openBracket, hopen]
      rw [hstays, closeBracket]
      by_cases hclose : (c :: rest).getLast? = some ']'
      · simp [trimStartingAndEndingBrackets, hopen, hclose]
      · simp [trimStartingAndEndingBrackets, hopen, hclose]

theorem openBracket_append (hname : name ≠ []) (cs : List Char) :
    openBracket (name ++ cs) = openBracket name ++ cs := by
  obtain ⟨c, rest, rfl⟩ := List.exists_cons_of_ne_nil hname
  by_cases hopen : c = '['
  · subst hopen
    rfl
  · simp [openBracket, hopen]

theorem closeBracket_append_cons (c : Char) (cs : List Char) (htitle : title ≠ []) :
    closeBracket (cs ++ c :: title) = cs ++ c :: closeBracket title := by
  rw [closeBracket, closeBracket, List.getLast?_append_cons, List.getLast?_cons_of_ne_nil htitle,
    List.dropLast_append_cons, List.dropLast_cons_of_ne_nil htitle]
  split_ifs <;> rfl

/-- One bracket is taken off the name and one off the title, if no other is left. -/
theorem trimBrackets_join (hname : name ≠ []) (htitle : title ≠ []) :
    trimStartingAndEndingBrackets (name ++ ' ' :: title)
      = if bracketFree (openBracket name ++ ' ' :: closeBracket title) then
          openBracket name ++ ' ' :: closeBracket title
        else name ++ ' ' :: title := by
  rw [trimBrackets_eq, openBracket_append hname, closeBracket_append_cons _ _ htitle]

theorem strip_join (hname : name.dropWhile isSpace ≠ []) (htitle : title.rdropWhile isSpace ≠ []) :
    ((name ++ ' ' :: title).dropWhile isSpace).rdropWhile isSpace
      = name.dropWhile isSpace ++ ' ' :: title.rdropWhile isSpace := by
  have hdrop : (name ++ ' ' :: title).dropWhile isSpace
      = (name.dropWhile isSpace ++ [' ']) ++ title := by
    rw [List.dropWhile_append, if_neg (by simpa using hname)]
    simp
  rw [hdrop, rdropWhile_append, if_neg htitle, List.append_assoc, List.singleton_append]

theorem dropWhile_openBracket_ne_nil (hname : Tight name) (h : name ≠ ['[']) :
    (openBracket name).dropWhile isSpace ≠ [] := by
  obtain ⟨c, rest, rfl, hc⟩ := hname.last
  rw [ne_eq, List.dropWhile_eq_nil_iff, not_forall]
  refine ⟨c, fun hall => ?_⟩
  have hspace : isSpace c = true := hall (by
    rcases rest with _ | ⟨d, rest⟩
    · by_cases hopen : c = '['
      · exact absurd (by rw [hopen]; rfl) h
      · simp [openBracket, hopen]
    · rw [openBracket_append (List.cons_ne_nil d rest)]
      exact List.mem_concat_self)
  rw [hspace] at hc
  cases hc

theorem rdropWhile_closeBracket_ne_nil (htitle : Tight title) (h : title ≠ [']']) :
    (closeBracket title).rdropWhile isSpace ≠ [] := by
  rw [closeBracket]
  split_ifs with hclose
  · refine (htitle.rdropWhile_ne_nil (List.dropLast_prefix _) fun hnil => h ?_).2
    obtain ⟨rest, rfl⟩ := List.getLast?_eq_some_iff.1 hclose
    rw [List.dropLast_concat] at hnil
    rw [hnil, List.nil_append]
  · rw [htitle.rdropWhile_eq.2]
    exact htitle.ne_nil

end Steps

section Shown

/-- The heading begins with the name, perhaps without its bracket, and goes on with the title. -/
def BeginsAndContinues (name title heading : List Char) : Prop :=
  ∃ n t, (n = name ∨ n = (openBracket name).dropWhile isSpace) ∧ n ≠ [] ∧ t ≠ [] ∧ t <+: title
    ∧ heading = n ++ ' ' :: t

/-- The title without the punctuation and the full stops at its end. -/
def trimmedTitle (title : List Char) : List Char := trimTrailingPeriod isWord (trimTrailing title)

/-- Trimming takes neither the name nor the title away altogether. -/
structure NameAndTitleShow (name title : List Char) : Prop where
  hasName : name ≠ []
  hasTitle : title ≠ []
  mark : trimTrailing title ≠ []
  dots : ¬((trimTrailing title).rdropWhile (· = '.') = [] ∧ 3 ≤ (name.rtakeWhile isWord).length)
  brackets : bracketFree (openBracket name ++ ' ' :: closeBracket (trimmedTitle isWord title)) →
    name ≠ ['['] ∧ trimmedTitle isWord title ≠ [']']

variable {isWord} {heading : List Char}

theorem Trims.sublist {cs ds : List Char} (h : Trims cs ds) : ds.Sublist cs := by
  obtain ⟨pre, post, rfl, -⟩ := h
  exact (List.sublist_append_right pre ds).trans (List.sublist_append_left (pre ++ ds) post)

theorem strip_sublist (cs : List Char) :
    ((cs.dropWhile isSpace).rdropWhile isSpace).Sublist cs :=
  (List.rdropWhile_prefix _ _).sublist.trans (List.dropWhile_suffix _).sublist

theorem afterTrailing_sublist (cs : List Char) : (afterTrailing isWord cs).Sublist cs :=
  (strip_sublist _).trans
    ((trims_trimTrailingPeriod isWord cs).trans (trims_trimBrackets _)).sublist

theorem count_openBracket {c : Char} (hc : c ≠ '[') (cs : List Char) :
    (openBracket cs).count c = cs.count c := by
  unfold openBracket
  split
  · rw [List.count_cons_of_ne hc.symm]
  · rfl

theorem count_dropWhile {c : Char} (hc : isSpace c = false) (cs : List Char) :
    (cs.dropWhile isSpace).count c = cs.count c := by
  have hnone : (cs.takeWhile isSpace).count c = 0 := by
    refine List.count_eq_zero.2 fun hmem => ?_
    rw [List.mem_takeWhile_imp hmem] at hc
    cases hc
  conv_rhs => rw [← List.takeWhile_append_dropWhile (p := isSpace) (l := cs)]
  rw [List.count_append, hnone, Nat.zero_add]

theorem mem_of_isPrefix {c : Char} {t : List Char} (hhead : title.head? = some c) (hne : t ≠ [])
    (hbegins : t <+: title) : c ∈ t := by
  obtain ⟨d, rest, rfl⟩ := List.exists_cons_of_ne_nil hne
  obtain ⟨rest', rfl⟩ := hbegins
  rw [List.cons_append, List.head?_cons, Option.some_inj] at hhead
  rw [hhead]
  exact List.mem_cons_self

/-- The name alone has not enough for both. -/
theorem not_beginsAndContinues_of_sublist {c : Char} (hhead : title.head? = some c)
    (hopen : c ≠ '[') (hspace : isSpace c = false) (h : heading.Sublist name) :
    ¬BeginsAndContinues name title heading := by
  rintro ⟨n, t, hn, -, hne, hbegins, rfl⟩
  have hcount : n.count c = name.count c := by
    rcases hn with rfl | rfl
    · rfl
    · rw [count_dropWhile hspace, count_openBracket hopen]
  have ht : 0 < t.count c := List.count_pos_iff.2 (mem_of_isPrefix hhead hne hbegins)
  have hle := h.count_le c
  rw [List.count_append, List.count_cons] at hle
  omega

theorem head_of_trimTrailing_eq_nil (htitle : Tight title) (h : trimTrailing title = []) :
    ∃ c, title.head? = some c ∧ c ≠ '[' ∧ isSpace c = false := by
  obtain ⟨c, rest, rfl, hc⟩ := htitle.last
  rw [trimTrailing_concat (ne_blank hc)] at h
  split_ifs at h with hmark
  · have hrest : rest = [] := by
      by_contra hne
      exact (htitle.rdropWhile_ne_nil (List.prefix_append _ _) hne).1 h
    refine ⟨c, by rw [hrest]; rfl, ?_, hc⟩
    rintro rfl
    simp at hmark
  · simp at h

theorem head_of_dots (htitle : Tight title) (hne : trimTrailing title ≠ [])
    (h : (trimTrailing title).rdropWhile (· = '.') = []) :
    ∃ c, title.head? = some c ∧ c ≠ '[' ∧ isSpace c = false := by
  obtain ⟨c, rest, hrest⟩ := List.exists_cons_of_ne_nil hne
  have hdot : c = '.' := by
    rw [hrest, List.rdropWhile_eq_nil_iff] at h
    simpa using h c List.mem_cons_self
  obtain ⟨tail, htail⟩ := trimTrailing_isPrefix htitle
  refine ⟨c, ?_, ?_⟩
  · rw [← htail, hrest]
    rfl
  · rw [hdot]
    decide

theorem closeBracket_isPrefix (cs : List Char) : closeBracket cs <+: cs := by
  rw [closeBracket]
  split_ifs
  · exact List.dropLast_prefix cs
  · exact List.prefix_refl cs

/-- The bracket that is the whole name or the whole title is not in the heading. -/
theorem ne_brackets_of_beginsAndContinues {kept : List Char} (hbegins : kept <+: title)
    (hfree : bracketFree (openBracket name ++ ' ' :: closeBracket kept))
    (hsub : heading ⊆ openBracket name ++ ' ' :: closeBracket kept)
    (h : BeginsAndContinues name title heading) : name ≠ ['['] ∧ kept ≠ [']'] := by
  obtain ⟨n, t, hn, hne, htne, ht, rfl⟩ := h
  obtain ⟨hopen, hclose⟩ := of_decide_eq_true hfree
  refine ⟨?_, ?_⟩
  · rintro rfl
    rcases hn with rfl | rfl
    · exact hopen (hsub (by simp))
    · exact hne rfl
  · rintro rfl
    have hhead : title.head? = some ']' := by
      obtain ⟨rest, rfl⟩ := hbegins
      rfl
    exact hclose (hsub (by simp [mem_of_isPrefix hhead htne ht]))

theorem beginsAndContinues_brackets_iff {kept : List Char} (hname : Tight name)
    (hkept : Tight kept) (hbegins : kept <+: title) :
    BeginsAndContinues name title
        (((trimStartingAndEndingBrackets (name ++ ' ' :: kept)).dropWhile isSpace).rdropWhile
          isSpace)
      ↔ (bracketFree (openBracket name ++ ' ' :: closeBracket kept) →
        name ≠ ['['] ∧ kept ≠ [']']) := by
  rw [trimBrackets_join hname.ne_nil hkept.ne_nil]
  by_cases hfree : bracketFree (openBracket name ++ ' ' :: closeBracket kept)
  · rw [if_pos hfree]
    constructor
    · intro h _
      exact ne_brackets_of_beginsAndContinues hbegins hfree (strip_sublist _).subset h
    · intro h
      obtain ⟨hone, hother⟩ := h hfree
      have hn := dropWhile_openBracket_ne_nil hname hone
      have ht := rdropWhile_closeBracket_ne_nil hkept hother
      refine ⟨_, _, .inr rfl, hn, ht, ?_, strip_join hn ht⟩
      exact ((List.rdropWhile_prefix _ _).trans (closeBracket_isPrefix kept)).trans hbegins
  · rw [if_neg hfree]
    refine ⟨fun _ h => absurd h hfree, fun _ => ?_⟩
    refine ⟨name, kept, .inl rfl, hname.ne_nil, hkept.ne_nil, hbegins, ?_⟩
    rw [strip_join (by rw [hname.dropWhile_eq]; exact hname.ne_nil)
      (by rw [hkept.rdropWhile_eq.2]; exact hkept.ne_nil), hname.dropWhile_eq,
      hkept.rdropWhile_eq.2]

/-- A name and a title make a heading of both, exactly where neither is taken away. -/
theorem beginsAndContinues_iff (hname : name ≠ [] → Tight name) (htitle : title ≠ [] → Tight title)
    (hword : isWord ' ' = false) :
    BeginsAndContinues name title (afterTrailing isWord (trimTrailing (Words.join ' ' name title)))
      ↔ NameAndTitleShow isWord name title := by
  rcases eq_or_ne name [] with rfl | hn
  · refine ⟨?_, fun h => absurd rfl h.hasName⟩
    rintro ⟨n, t, rfl | rfl, hn, -⟩
    · exact absurd rfl hn
    · exact absurd rfl hn
  rcases eq_or_ne title [] with rfl | ht
  · refine ⟨?_, fun h => absurd rfl h.hasTitle⟩
    rintro ⟨n, t, -, -, ht, hbegins, -⟩
    exact absurd (List.prefix_nil.1 hbegins) ht
  replace hname := hname hn
  replace htitle := htitle ht
  rw [Words.join, if_neg hn, if_neg ht, trimTrailing_join hname htitle]
  rcases eq_or_ne (trimTrailing title) [] with hmark | hmark
  · rw [if_pos hmark]
    refine ⟨fun h => ?_, fun h => absurd hmark h.mark⟩
    obtain ⟨c, hhead, hopen, hspace⟩ := head_of_trimTrailing_eq_nil htitle hmark
    exact absurd h (not_beginsAndContinues_of_sublist hhead hopen hspace (afterTrailing_sublist _))
  rw [if_neg hmark]
  have htitle₁ := tight_trimTrailing htitle hmark
  rw [afterTrailing, trimTrailingPeriod_join hname htitle₁ hword]
  by_cases hdots : (trimTrailing title).rdropWhile (· = '.') = []
      ∧ 3 ≤ (name.rtakeWhile isWord).length
  · rw [if_pos hdots]
    refine ⟨fun h => ?_, fun h => absurd hdots h.dots⟩
    obtain ⟨c, hhead, hopen, hspace⟩ := head_of_dots htitle hmark hdots.1
    refine absurd h (not_beginsAndContinues_of_sublist hhead hopen hspace ?_)
    exact (strip_sublist _).trans (trims_trimBrackets _).sublist
  rw [if_neg hdots]
  have hkept : trimTrailingPeriod isWord (trimTrailing title) <+: trimTrailing title :=
    trimTrailingPeriod_isPrefix _
  have hbegins := hkept.trans (trimTrailing_isPrefix htitle)
  refine (beginsAndContinues_brackets_iff hname (tight_trimTrailingPeriod htitle₁) hbegins).trans ?_
  exact ⟨fun h => ⟨hn, ht, hmark, hdots, h⟩, fun h => h.brackets⟩

end Shown

section Named

/-- Of a name alone, something is left that is not white space. -/
def NameShows (name : List Char) : Prop :=
  ∃ c ∈ closeBracket (openBracket (trimTrailing name)), isSpace c = false

variable {isWord} {cs : List Char}

def letters (cs : List Char) : ℕ := cs.countP fun c => !isSpace c

theorem letters_pos : 0 < letters cs ↔ ∃ c ∈ cs, isSpace c = false := by
  simp [letters, List.countP_pos_iff]

theorem letters_trimmed_le (cs : List Char) :
    letters cs ≤ letters (closeBracket (openBracket cs)) + 2 := by
  have hopen : letters cs ≤ letters (openBracket cs) + 1 := by
    unfold openBracket
    split
    · simp only [letters, List.countP_cons]
      split_ifs <;> omega
    · omega
  have hclose : ∀ ds : List Char, letters ds ≤ letters (closeBracket ds) + 1 := by
    intro ds
    rw [closeBracket]
    split_ifs with hlast
    · obtain ⟨rest, rfl⟩ := List.getLast?_eq_some_iff.1 hlast
      simp only [List.dropLast_concat, letters, List.countP_append, List.countP_singleton]
      split_ifs <;> omega
    · omega
  have := hclose (openBracket cs)
  omega

theorem strip_ne_nil_iff (cs : List Char) :
    (cs.dropWhile isSpace).rdropWhile isSpace ≠ [] ↔ 0 < letters cs := by
  rw [ne_eq, List.rdropWhile_eq_nil_iff, letters_pos]
  constructor
  · intro h
    push Not at h
    obtain ⟨c, hc, hspace⟩ := h
    exact ⟨c, (List.dropWhile_suffix _).subset hc, by simpa using hspace⟩
  · rintro ⟨c, hc, hspace⟩ hall
    have hcount := count_dropWhile hspace cs
    have hpos := List.count_pos_iff.2 hc
    rw [← hcount, List.count_pos_iff] at hpos
    rw [hall c hpos] at hspace
    cases hspace

/-- Brackets that stay are something left themselves. -/
theorem letters_trimBrackets (htitle : Tight cs) :
    0 < letters (trimStartingAndEndingBrackets cs)
      ↔ 0 < letters (closeBracket (openBracket cs)) := by
  rw [trimBrackets_eq]
  by_cases hfree : bracketFree (closeBracket (openBracket cs))
  · rw [if_pos hfree]
  · rw [if_neg hfree, letters_pos, letters_pos]
    refine ⟨fun _ => ?_, fun _ => ?_⟩
    · simp only [bracketFree, decide_eq_true_eq] at hfree
      rcases not_and_or.1 hfree with hmem | hmem
      · exact ⟨'[', not_not.1 hmem, by decide⟩
      · exact ⟨']', not_not.1 hmem, by decide⟩
    · obtain ⟨c, rest, rfl, hc⟩ := htitle.head
      exact ⟨c, List.mem_cons_self, hc⟩

theorem letters_trimTrailingPeriod (hcs : Tight cs) (hword : isWord ' ' = false) :
    0 < letters (closeBracket (openBracket (trimTrailingPeriod isWord cs)))
      ↔ 0 < letters (closeBracket (openBracket cs)) := by
  have hbegins : (cs.rdropWhile (· = '.')).rdropWhile (· = ' ') <+: cs :=
    (List.rdropWhile_prefix _ _).trans (List.rdropWhile_prefix _ _)
  simp only [trimTrailingPeriod]
  generalize (cs.rdropWhile (· = '.')).rdropWhile (· = ' ') = bare at hbegins
  split_ifs with hlong
  · have hletters : letters (bare.rtakeWhile isWord) = (bare.rtakeWhile isWord).length := by
      refine List.countP_eq_length.2 fun c hc => ?_
      by_contra hspace
      have hblank := hcs.blank c (hbegins.subset ((List.rtakeWhile_suffix _ _).subset hc))
        (by simpa using hspace)
      rw [hblank] at hc
      rw [List.mem_rtakeWhile_imp hc] at hword
      cases hword
    have hle : letters (bare.rtakeWhile isWord) ≤ letters bare :=
      (List.rtakeWhile_suffix _ _).sublist.countP_le
    have hle' : letters bare ≤ letters cs := hbegins.sublist.countP_le
    have := letters_trimmed_le bare
    have := letters_trimmed_le cs
    omega
  · rfl

/-- A name is trimmed to something exactly where it shows. -/
theorem afterTrailing_ne_nil_iff (hname : name ≠ [] → Tight name) (hword : isWord ' ' = false) :
    afterTrailing isWord (trimTrailing name) ≠ [] ↔ NameShows name := by
  rw [NameShows, ← letters_pos, afterTrailing, strip_ne_nil_iff]
  rcases eq_or_ne (trimTrailing name) [] with hnil | hne
  · rw [hnil]
    simp [trimTrailingPeriod, trimBrackets_eq, openBracket, closeBracket, letters]
  · have hcs : Tight (trimTrailing name) := by
      refine tight_trimTrailing (hname ?_) hne
      rintro rfl
      exact hne rfl
    rw [letters_trimBrackets (tight_trimTrailingPeriod hcs), letters_trimTrailingPeriod hcs hword]

end Named

end Bibdata
