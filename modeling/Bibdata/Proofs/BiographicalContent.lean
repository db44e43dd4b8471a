import Bibdata.Genre

/-!
# Who a biography is by

The names of authors and subjects are compared one subfield at a time, so any subfield that two of
them share counts as one person (`ofRecord_eq_autobiography`).
-/

namespace Bibdata

variable (M : Marctk) (isWord : Char → Bool) (toLowercase : String → String)

def nameCodes : List Char := ['a', 'b', 'c', 'd', 'j', 'q']

/-- The texts of the subfields of a name. -/
def nameParts (field : Field) : List String :=
  subfieldContents (filterByCode nameCodes field.subfields)

def wholeName (field : Field) : String :=
  comparableName isWord toLowercase (" ".intercalate (nameParts field))

/-- Some author has the whole name of some subject. -/
def SamePerson (r : Record) : Prop :=
  ∃ author ∈ r.getFields "100", ∃ subject ∈ r.getFields "600",
    wholeName isWord toLowercase author = wholeName isWord toLowercase subject

/-- Some subfield of an author reads as one of a subject. -/
def SharesNamePart (r : Record) : Prop :=
  ∃ author ∈ r.getFields "100", ∃ subject ∈ r.getFields "600",
    ∃ part ∈ nameParts author, ∃ part' ∈ nameParts subject,
      comparableName isWord toLowercase part = comparableName isWord toLowercase part'

structure OnlySamePerson (r : Record) : Prop where
  classified : BiographicalContent.ofRecord M isWord toLowercase r = .autobiography →
    SamePerson isWord toLowercase r
  genres : "Primary sources" ∈ genresFromBiographicalContent M isWord toLowercase r →
    SamePerson isWord toLowercase r

variable {M isWord toLowercase} {r : Record}

theorem extractValues_eq {query tag : String} {codes : List Char}
    (h : M.GivesEachSubfield query [tag] codes) (r : Record) :
    M.extractValues query r = (r.getFields tag).flatMap fun field =>
      subfieldContents (filterByCode codes field.subfields) := by
  rw [h r, Record.getFields]
  simp only [List.mem_singleton]

theorem authorMatchesSubject_iff (hauthors : M.GivesEachSubfield "100abcdjq" ["100"] nameCodes)
    (hsubjects : M.GivesEachSubfield "600abcdjq" ["600"] nameCodes) :
    authorMatchesSubject M isWord toLowercase r = true ↔ SharesNamePart isWord toLowercase r := by
  have hauthors := extractValues_eq hauthors r
  have hsubjects := extractValues_eq hsubjects r
  simp only [authorMatchesSubject, hauthors, hsubjects, List.any_map, List.any_eq_true,
    List.mem_flatMap, List.mem_map, Function.comp_apply, decide_eq_true_eq]
  constructor
  · rintro ⟨part, ⟨author, hauthor, hpart⟩, part', ⟨subject, hsubject, hpart'⟩, heq⟩
    exact ⟨author, hauthor, subject, hsubject, part, hpart, part', hpart', heq.symm⟩
  · rintro ⟨author, hauthor, subject, hsubject, part, hpart, part', hpart', heq⟩
    exact ⟨part, ⟨author, hauthor, hpart⟩, part', ⟨subject, hsubject, hpart'⟩, heq.symm⟩

theorem ofRecord_eq_autobiography :
    BiographicalContent.ofRecord M isWord toLowercase r = .autobiography
      ↔ biography M isWord r = true ∧ authorMatchesSubject M isWord toLowercase r = true := by
  unfold BiographicalContent.ofRecord
  cases biography M isWord r <;> cases authorMatchesSubject M isWord toLowercase r <;> simp

theorem ofRecord_of_mem_genres {genre : String}
    (h : genre ∈ genresFromBiographicalContent M isWord toLowercase r) :
    BiographicalContent.ofRecord M isWord toLowercase r = .autobiography := by
  unfold genresFromBiographicalContent at h
  split_ifs at h with hif
  · rw [Bool.and_eq_true, decide_eq_true_eq] at hif
    exact hif.1
  · cases h

theorem onlySamePerson_iff (hauthors : M.GivesEachSubfield "100abcdjq" ["100"] nameCodes)
    (hsubjects : M.GivesEachSubfield "600abcdjq" ["600"] nameCodes) (r : Record) :
    OnlySamePerson M isWord toLowercase r ↔ biography M isWord r = false
      ∨ ¬SharesNamePart isWord toLowercase r ∨ SamePerson isWord toLowercase r := by
  have hauto : BiographicalContent.ofRecord M isWord toLowercase r = .autobiography
      ↔ biography M isWord r = true ∧ SharesNamePart isWord toLowercase r := by
    rw [ofRecord_eq_autobiography, authorMatchesSubject_iff hauthors hsubjects]
  constructor
  · intro h
    by_cases hbiography : biography M isWord r = true
    · by_cases hshares : SharesNamePart isWord toLowercase r
      · exact .inr (.inr (h.classified (hauto.2 ⟨hbiography, hshares⟩)))
      · exact .inr (.inl hshares)
    · exact .inl (Bool.not_eq_true _ ▸ hbiography)
  · intro h
    have hclassified : BiographicalContent.ofRecord M isWord toLowercase r = .autobiography →
        SamePerson isWord toLowercase r := by
      intro hofRecord
      obtain ⟨hbiography, hshares⟩ := hauto.1 hofRecord
      rcases h with h | h | h
      · rw [h] at hbiography
        cases hbiography
      · exact absurd hshares h
      · exact h
    exact ⟨hclassified, fun hgenre => hclassified (ofRecord_of_mem_genres hgenre)⟩

theorem plainMarctk_authors : plainMarctk.GivesEachSubfield "100abcdjq" ["100"] nameCodes :=
  plainMarctk_givesEachSubfield (by decide +kernel)

theorem plainMarctk_subjects : plainMarctk.GivesEachSubfield "600abcdjq" ["600"] nameCodes :=
  plainMarctk_givesEachSubfield (by decide +kernel)

def autobiographical : Record :=
  ⟨[], [⟨"100", [⟨'a', "Barilaro, Javier,"⟩, ⟨'d', "1974-"⟩], " "⟩,
    ⟨"600", [⟨'a', "Barilaro, Javier,"⟩, ⟨'d', "1974-"⟩, ⟨'v', "Biography."⟩], "0"⟩], ""⟩

theorem onlySamePerson_autobiographical :
    OnlySamePerson plainMarctk Char.isAlpha lowercaseLetters autobiographical :=
  (onlySamePerson_iff plainMarctk_authors plainMarctk_subjects autobiographical).2
    (.inr (.inr ⟨⟨"100", [⟨'a', "Barilaro, Javier,"⟩, ⟨'d', "1974-"⟩], " "⟩, by decide,
      ⟨"600", [⟨'a', "Barilaro, Javier,"⟩, ⟨'d', "1974-"⟩, ⟨'v', "Biography."⟩], "0"⟩, by decide,
      by decide +kernel⟩))

/-- Two people of one year. -/
def sameYear : Record :=
  ⟨[], [⟨"100", [⟨'a', "Barilaro, Javier,"⟩, ⟨'d', "1974-"⟩], " "⟩,
    ⟨"600", [⟨'a', "Cucurto, Washington,"⟩, ⟨'d', "1974-"⟩, ⟨'v', "Biography."⟩], "0"⟩], ""⟩

theorem not_onlySamePerson_sameYear :
    plainMarctk.GivesEachSubfield "100abcdjq" ["100"] nameCodes
      ∧ plainMarctk.GivesEachSubfield "600abcdjq" ["600"] nameCodes
      ∧ BiographicalContent.ofRecord plainMarctk Char.isAlpha lowercaseLetters sameYear
        = .autobiography
      ∧ ¬OnlySamePerson plainMarctk Char.isAlpha lowercaseLetters sameYear := by
  have hauto : BiographicalContent.ofRecord plainMarctk Char.isAlpha lowercaseLetters sameYear
      = .autobiography := by
    decide +kernel
  refine ⟨plainMarctk_authors, plainMarctk_subjects, hauto, fun h => ?_⟩
  have hsame := h.classified hauto
  revert hsame
  unfold SamePerson
  decide +kernel

end Bibdata
