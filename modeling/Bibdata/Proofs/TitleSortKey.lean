import Bibdata.Proofs.Theses
import Bibdata.Proofs.TrimmedHeadings

/-!
# Articles at the start of a title

A title is sorted without its leading article. Each article is trimmed as often as it stands at the
start, and the next one after that: so a word that is spelled like an article is lost when it comes
right after the same article, or after one that is trimmed earlier (`titleSortKey_iff`).
-/

namespace Bibdata

variable {env : ThesisPackages}

section Trims

variable {article : List Char} {articles : List (List Char)}

/-- Trimmed as long as it is there: each time the text gets shorter. -/
def trimArticle (article cs : List Char) : List Char := trimStartMatches article cs.length cs

theorem trimStartMatches_of_le (hne : article ≠ []) {n m : ℕ} {cs : List Char}
    (hn : cs.length ≤ n) (hm : cs.length ≤ m) :
    trimStartMatches article n cs = trimStartMatches article m cs := by
  induction n generalizing m cs with
  | zero =>
    obtain rfl : cs = [] := List.length_eq_zero_iff.1 (by omega)
    cases m <;> simp [trimStartMatches, hne]
  | succ n ih =>
    have hpos := List.length_pos_iff.2 hne
    rcases m with _ | m
    · obtain rfl : cs = [] := List.length_eq_zero_iff.1 (by omega)
      simp [trimStartMatches, hne]
    · rw [trimStartMatches, trimStartMatches]
      split_ifs with hbegins
      · have hle := (List.isPrefixOf_iff_prefix.1 hbegins).length_le
        exact ih (by rw [List.length_drop]; omega) (by rw [List.length_drop]; omega)
      · rfl

theorem trimArticle_append (hne : article ≠ []) (rest : List Char) :
    trimArticle article (article ++ rest) = trimArticle article rest := by
  have hpos := List.length_pos_iff.2 hne
  obtain ⟨n, hn⟩ : ∃ n, (article ++ rest).length = n + 1 :=
    ⟨article.length + rest.length - 1, by rw [List.length_append]; omega⟩
  rw [trimArticle, hn, trimStartMatches,
    if_pos (List.isPrefixOf_iff_prefix.2 (List.prefix_append article rest)), List.drop_left]
  refine trimStartMatches_of_le hne ?_ le_rfl
  rw [List.length_append] at hn
  omega

theorem trimArticle_of_not {cs : List Char} (h : ¬article <+: cs) :
    trimArticle article cs = cs := by
  rw [trimArticle]
  cases cs.length with
  | zero => rfl
  | succ n => rw [trimStartMatches, if_neg (mt List.isPrefixOf_iff_prefix.1 h)]

theorem trimStartMatches_suffix (article : List Char) (n : ℕ) (cs : List Char) :
    trimStartMatches article n cs <:+ cs := by
  induction n generalizing cs with
  | zero => exact List.suffix_rfl
  | succ n ih =>
    rw [trimStartMatches]
    split_ifs
    · exact (ih _).trans (List.drop_suffix _ cs)
    · exact List.suffix_rfl

theorem foldl_trimArticle_suffix (articles : List (List Char)) (cs : List Char) :
    articles.foldl (fun rest article => trimArticle article rest) cs <:+ cs := by
  induction articles generalizing cs with
  | nil => exact List.suffix_rfl
  | cons article articles ih => exact (ih _).trans (trimStartMatches_suffix article _ cs)

/-- What the key is made of. -/
def nonblank (cs : List Char) : List Char := cs.filter fun c => !isSpace c

theorem length_nonblank (cs : List Char) : (nonblank cs).length = letters cs :=
  List.countP_eq_length_filter.symm

theorem ne_nil_of_letters (h : 0 < letters article) : article ≠ [] := by
  rintro rfl
  simp [letters] at h

/-- An article that is trimmed takes its letters with it. -/
theorem nonblank_foldl (harticles : ∀ article ∈ articles, 0 < letters article)
    (cs : List Char) :
    nonblank (articles.foldl (fun rest article => trimArticle article rest) cs) = nonblank cs
      ↔ ∀ article ∈ articles, ¬article <+: cs := by
  induction articles with
  | nil => simp
  | cons article articles ih =>
    rw [List.forall_mem_cons] at harticles ⊢
    obtain ⟨hletters, hrest⟩ := harticles
    rw [List.foldl_cons]
    by_cases hbegins : article <+: cs
    · obtain ⟨rest, rfl⟩ := hbegins
      refine ⟨fun heq => ?_, fun h => absurd (List.prefix_append article rest) h.1⟩
      have hlength := congrArg List.length heq
      rw [trimArticle_append (ne_nil_of_letters hletters), length_nonblank, length_nonblank]
        at hlength
      have hle := ((foldl_trimArticle_suffix articles _).trans
        (trimStartMatches_suffix article rest.length rest)).sublist.countP_le
        (p := fun c => !isSpace c)
      have happend : letters (article ++ rest) = letters article + letters rest :=
        List.countP_append
      simp only [letters, trimArticle] at *
      omega
    · rw [trimArticle_of_not hbegins, ih hrest]
      exact ⟨fun h => ⟨hbegins, h⟩, And.right⟩

/-- At most one article is left out. -/
def withoutArticle : List (List Char) → List Char → List Char
  | [], cs => cs
  | article :: articles, cs =>
    if article.isPrefixOf cs then cs.drop article.length else withoutArticle articles cs

/-- After the article at the start comes the same one, or one that is later in the list. -/
def ArticleAgain : List (List Char) → List Char → Prop
  | [], _ => False
  | article :: articles, cs =>
    (article <+: cs ∧ ∃ next ∈ article :: articles, next <+: cs.drop article.length)
      ∨ (¬article <+: cs ∧ ArticleAgain articles cs)

theorem nonblank_foldl_iff (harticles : ∀ article ∈ articles, 0 < letters article)
    (cs : List Char) :
    nonblank (articles.foldl (fun rest article => trimArticle article rest) cs)
        = nonblank (withoutArticle articles cs)
      ↔ ¬ArticleAgain articles cs := by
  induction articles with
  | nil => simp [withoutArticle, ArticleAgain]
  | cons article articles ih =>
    obtain ⟨hletters, hrest⟩ := List.forall_mem_cons.1 harticles
    rw [withoutArticle, ArticleAgain]
    by_cases hbegins : article <+: cs
    · obtain ⟨rest, rfl⟩ := hbegins
      rw [if_pos (List.isPrefixOf_iff_prefix.2 (List.prefix_append article rest)), List.drop_left,
        List.foldl_cons, trimArticle_append (ne_nil_of_letters hletters),
        ← List.foldl_cons (f := fun rest article => trimArticle article rest),
        nonblank_foldl harticles rest]
      simp
    · rw [if_neg (mt List.isPrefixOf_iff_prefix.1 hbegins), List.foldl_cons,
        trimArticle_of_not hbegins, ih hrest]
      simp [hbegins]

end Trims

section SortKey

/-- Lower-cased and without punctuation. -/
def plainTitle (env : ThesisPackages) (title : String) : List Char :=
  (env.toLowercase title).toList.filter fun c => !isAsciiPunctuation c

def articles : List (List Char) := ["a ".toList, "an ".toList, "the ".toList]

/-- What a title is to be sorted by. -/
def sortedBy (env : ThesisPackages) (title : String) : String :=
  String.ofList (nonblank (withoutArticle articles (plainTitle env title)))

theorem letters_articles : ∀ article ∈ articles, 0 < letters article := by decide

theorem titleSortKey_eq (title : String) (titles : List String) :
    titleSortKey env (some (title :: titles)) = some (String.ofList (nonblank
      (articles.foldl (fun rest article => trimArticle article rest) (plainTitle env title)))) :=
  rfl

theorem titleSortKey_iff (env : ThesisPackages) (title : String) (titles : List String) :
    titleSortKey env (some (title :: titles)) = some (sortedBy env title)
      ↔ ¬ArticleAgain articles (plainTitle env title) := by
  rw [titleSortKey_eq, sortedBy, Option.some_inj, String.ofList_inj,
    nonblank_foldl_iff letters_articles]

/-- `A a posteriori estimate` is sorted as `posterioriestimate`. -/
theorem titleSortKey_repeated :
    ¬∀ (env : ThesisPackages) (title : String) (titles : List String),
      titleSortKey env (some (title :: titles)) = some (sortedBy env title) := by
  intro h
  exact absurd (h plainPackages "A a posteriori estimate" []) (by decide)

end SortKey

end Bibdata
