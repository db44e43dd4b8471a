import Bibdata.Library.WordBlocks
import Bibdata.PrimarySources
import Bibdata.Proofs.IndigenousStudies

/-!
# Terms and their words

A term is compared by its pieces, and where two separators stand together there is an empty piece
between them. So a listed term of several words is only found where it is written with the same
separators, and of no term that it is a part of do the words alone say whether it is.
-/

namespace Bibdata

open WordBlocks

section Listed

variable (isAlphanumeric : Char → Bool) (toLowercase : String → String)

def isSeparator (c : Char) : Bool := !isAlphanumeric c

def lowerPart (part : List Char) : String := toLowercase (String.ofList part)

/-- The words, whatever is between them. -/
def termWords (value : String) : List String :=
  folded (isSeparator isAlphanumeric) (lowerPart toLowercase) value.toList

/-- The words of a listed term follow one another in the value. -/
def HasBlock (listed : List String) (value : String) : Prop :=
  ∃ term ∈ listed, termWords isAlphanumeric toLowercase term
    <:+: termWords isAlphanumeric toLowercase value

/-- A part of the value, between separators, is written as a listed term, with as many separators
between its words and at its ends. -/
def StandsAsListed (listed : List String) (value : String) : Prop :=
  ∃ term ∈ listed, Stands (isSeparator isAlphanumeric) (lowerPart toLowercase) term.toList
    value.toList

/-- A listed term that is a word, and no more, is one of the words. -/
def HasListedWord (listed : List String) (value : String) : Prop :=
  ∃ term ∈ listed, ∃ w ∈ termWords isAlphanumeric toLowercase value,
    (ComparableTerm.ofString isAlphanumeric toLowercase term).words = [w]

/-- Recognised by the words alone. -/
structure ByWords (recognised : String → Bool) (listed : List String) (value : String) : Prop where
  alike : ∀ other, termWords isAlphanumeric toLowercase other
    = termWords isAlphanumeric toLowercase value → recognised other = recognised value
  block : recognised value = true ↔ HasBlock isAlphanumeric toLowercase listed value

/-- What is found is a block of words; when a block is found, and when it is however it is set. -/
structure RightWhere (recognised : String → Bool) (listed : List String) : Prop where
  found : ∀ value, (recognised value = true ↔ HasBlock isAlphanumeric toLowercase listed value)
    ↔ (HasBlock isAlphanumeric toLowercase listed value
      → StandsAsListed isAlphanumeric toLowercase listed value)
  words : ∀ value, ByWords isAlphanumeric toLowercase recognised listed value
    ↔ (HasBlock isAlphanumeric toLowercase listed value
      → HasListedWord isAlphanumeric toLowercase listed value)

end Listed

section Found

variable {isAlphanumeric : Char → Bool} {toLowercase : String → String}

theorem words_ofString (value : String) :
    (ComparableTerm.ofString isAlphanumeric toLowercase value).words
      = pieces (isSeparator isAlphanumeric) (lowerPart toLowercase) value.toList := rfl

theorem any_contains_iff (listed : List String) (value : String) :
    (listed.map (ComparableTerm.ofString isAlphanumeric toLowercase)).any
        (ComparableTerm.ofString isAlphanumeric toLowercase value).contains = true
      ↔ ∃ term ∈ listed, pieces (isSeparator isAlphanumeric) (lowerPart toLowercase) term.toList
        <:+: pieces (isSeparator isAlphanumeric) (lowerPart toLowercase) value.toList := by
  simp only [List.any_map, List.any_eq_true, Function.comp_apply, ComparableTerm.contains,
    containsSubslice_iff, words_ofString]

theorem lowerPart_eq (hlower : ∀ s, toLowercase s = "" ↔ s = "") (part : List Char)
    (h : lowerPart toLowercase part = lowerPart toLowercase []) : part = [] := by
  have hempty : lowerPart toLowercase [] = "" := (hlower _).2 rfl
  rw [hempty, lowerPart, hlower] at h
  simpa using congrArg String.toList h

/-- A word of letters alone, or a word with a separator behind it and a letter later on. -/
def wordOrWords (term : List Char) : Bool :=
  match term.takeWhile Char.isAlpha, term.dropWhile Char.isAlpha with
  | [], _ => false
  | _ :: _, [] => true
  | _ :: _, sep :: rest => sep ∈ [' ', ',', '-'] && rest.any Char.isAlpha

theorem wordOrWords_listed :
    ∀ term ∈ primarySourceGenres ++ primarySourceLcgftGenres, wordOrWords term.toList = true := by
  decide +kernel

variable (hletters : ∀ c : Char, c.isAlpha → isAlphanumeric c = true)
  (hseparators : ∀ c ∈ [' ', ',', '-'], isAlphanumeric c = false)
  (hlower : ∀ s, toLowercase s = "" ↔ s = "")
include hletters hseparators hlower

theorem word_or_words {term : List Char} (h : wordOrWords term = true) :
    (∃ w, w ≠ lowerPart toLowercase []
        ∧ pieces (isSeparator isAlphanumeric) (lowerPart toLowercase) term = [w])
      ∨ 2 ≤ (folded (isSeparator isAlphanumeric) (lowerPart toLowercase) term).length := by
  have hfirst : ∀ c ∈ term.takeWhile Char.isAlpha, isSeparator isAlphanumeric c = false := by
    intro c hc
    simp [isSeparator, hletters c (List.mem_takeWhile_imp hc)]
  have hterm := List.takeWhile_append_dropWhile (p := Char.isAlpha) (l := term)
  unfold wordOrWords at h
  split at h
  · cases h
  · rename_i c first htake hdrop
    rw [hdrop, List.append_nil] at hterm
    rw [hterm] at hfirst
    refine .inl ⟨lowerPart toLowercase term, fun hempty => ?_, ?_⟩
    · rw [lowerPart_eq hlower term hempty] at htake
      cases htake
    · rw [pieces, List.splitOnP_eq_singleton hfirst]
      rfl
  · rename_i c first sep rest htake hdrop
    simp only [Bool.and_eq_true, decide_eq_true_eq, List.any_eq_true] at h
    obtain ⟨hsep, d, hd, hletter⟩ := h
    have hsep' : isSeparator isAlphanumeric sep = true := by
      simp [isSeparator, hseparators sep hsep]
    have hrest : Words.words (isSeparator isAlphanumeric) rest ≠ [] :=
      Words.words_ne_nil_of_mem hd (by simp [isSeparator, hletters d hletter])
    have hone : Words.words (isSeparator isAlphanumeric) (c :: first) ≠ [] :=
      Words.words_ne_nil_of_mem List.mem_cons_self (hfirst c (htake ▸ List.mem_cons_self))
    rw [hdrop, htake] at hterm
    right
    rw [folded, ← hterm, Words.words_append_cons hsep', List.length_map, List.length_append]
    have := List.length_pos_iff.2 hrest
    have := List.length_pos_iff.2 hone
    omega

theorem rightWhere_any {listed : List String}
    (hlisted : ∀ term ∈ listed, wordOrWords term.toList = true) :
    RightWhere isAlphanumeric toLowercase
      (fun value => (listed.map (ComparableTerm.ofString isAlphanumeric toLowercase)).any
        (ComparableTerm.ofString isAlphanumeric toLowercase value).contains) listed := by
  have hf := lowerPart_eq hlower
  have hb : isSeparator isAlphanumeric ' ' = true := by
    simp [isSeparator, hseparators ' ' List.mem_cons_self]
  refine ⟨fun value => ?_, fun value => ?_⟩
  · rw [any_contains_iff]
    simp only [pieces_infix_iff]
    refine ⟨fun h hblock => h.2 hblock, fun h => ⟨?_, h⟩⟩
    rintro ⟨term, hterm, hstands⟩
    exact ⟨term, hterm, folded_infix hf (pieces_infix_iff.2 hstands)⟩
  · have hwords : ∀ term ∈ listed.map String.toList,
        (∃ w, w ≠ lowerPart toLowercase []
            ∧ pieces (isSeparator isAlphanumeric) (lowerPart toLowercase) term = [w])
          ∨ 2 ≤ (folded (isSeparator isAlphanumeric) (lowerPart toLowercase) term).length := by
      intro term hterm
      obtain ⟨s, hs, rfl⟩ := List.mem_map.1 hterm
      exact word_or_words hletters hseparators hlower (hlisted s hs)
    have halike := found_alike_iff hb hf hwords value.toList
    simp only [List.mem_map, exists_exists_and_eq_and] at halike
    refine ⟨fun h => halike.1 ⟨fun zs hzs => ?_, ?_⟩, fun h => ⟨fun other hother => ?_, ?_⟩⟩
    · have hother := h.alike (String.ofList zs) (by rw [termWords, String.toList_ofList, hzs]; rfl)
      rwa [Bool.eq_iff_iff, any_contains_iff, any_contains_iff, String.toList_ofList] at hother
    · exact (any_contains_iff listed value).symm.trans h.block
    · rw [Bool.eq_iff_iff, any_contains_iff, any_contains_iff]
      exact (halike.2 h).1 other.toList hother
    · exact (any_contains_iff listed value).trans (halike.2 h).2

end Found

section Mapped

theorem indicatePrimarySource_rightWhere (isAlphanumeric : Char → Bool)
    (toLowercase : String → String)
    (hletters : ∀ c : Char, c.isAlpha → isAlphanumeric c = true)
    (hseparators : ∀ c ∈ [' ', ',', '-'], isAlphanumeric c = false)
    (hlower : ∀ s, toLowercase s = "" ↔ s = "") :
    RightWhere isAlphanumeric toLowercase
        (doesLcshGenreTermIndicatePrimarySource isAlphanumeric toLowercase) primarySourceGenres
      ∧ RightWhere isAlphanumeric toLowercase
        (doesLcgftGenreTermIndicatePrimarySource isAlphanumeric toLowercase)
        primarySourceLcgftGenres :=
  ⟨rightWhere_any hletters hseparators hlower fun term hterm =>
      wordOrWords_listed term (List.mem_append_left _ hterm),
    rightWhere_any hletters hseparators hlower fun term hterm =>
      wordOrWords_listed term (List.mem_append_right _ hterm)⟩

theorem separators_isAlphanum : ∀ c ∈ [' ', ',', '-'], c.isAlphanum = false := by
  simp only [List.forall_mem_cons]
  exact ⟨rfl, rfl, rfl, by simp⟩

theorem indicatePrimarySource_rightWhere_ascii :
    RightWhere Char.isAlphanum lowercaseLetters
        (doesLcshGenreTermIndicatePrimarySource Char.isAlphanum lowercaseLetters)
        primarySourceGenres
      ∧ RightWhere Char.isAlphanum lowercaseLetters
        (doesLcgftGenreTermIndicatePrimarySource Char.isAlphanum lowercaseLetters)
        primarySourceLcgftGenres :=
  indicatePrimarySource_rightWhere Char.isAlphanum lowercaseLetters
    (fun c hc => by simp [Char.isAlphanum, hc]) separators_isAlphanum lowercaseLetters_eq_empty

/-- `Pictorial  works`, with two blanks, is not recognised. -/
theorem indicatePrimarySource_twoBlanks :
    ¬∀ (isAlphanumeric : Char → Bool) (toLowercase : String → String),
      (∀ c : Char, c.isAlpha → isAlphanumeric c = true) →
      (∀ c ∈ [' ', ',', '-'], isAlphanumeric c = false) →
      (∀ s, toLowercase s = "" ↔ s = "") →
      ∀ value, ByWords isAlphanumeric toLowercase
        (doesLcshGenreTermIndicatePrimarySource isAlphanumeric toLowercase)
        primarySourceGenres value := by
  intro h
  have hby := h Char.isAlphanum lowercaseLetters (fun c hc => by simp [Char.isAlphanum, hc])
    separators_isAlphanum lowercaseLetters_eq_empty "Pictorial  works"
  have hone := hby.alike "Pictorial works" (by decide +kernel)
  exact absurd hone (by decide +kernel)

end Mapped

end Bibdata
