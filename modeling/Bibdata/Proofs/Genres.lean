import Bibdata.Genres
import Bibdata.Proofs.NameTitleBrowse
import Bibdata.Proofs.TrimPunctuation

/-!
# What the genres of a record are

The terms of the subject vocabularies are not filtered, so one of them that is nothing but
punctuation is listed as an empty genre. In a literary book `Primary sources` is a genre only where
the record says so itself.
-/

namespace Bibdata

variable {M : Marctk} {extractFields : String → Record → List Field} {isWord : Char → Bool}
  {isAlphanumeric : Char → Bool} {toLowercase : String → String} {r : Record}

section Terms

def genreTags : List String := ["600", "610", "611", "630", "650", "651", "655"]

/-- A subdivision of a subject, or a genre. -/
def OwnTerm (r : Record) (s : Subfield) : Prop :=
  ∃ field ∈ r.fields, field.tag ∈ genreTags ∧ s ∈ field.subfields
    ∧ (s.code ∈ ['v', 'x'] ∨ field.tag = "655" ∧ s.code = 'a')

/-- A term of one of the vocabularies. -/
structure VocabularyTerm (r : Record) (field : Field) (s : Subfield) : Prop where
  mem : field ∈ r.fields
  tag : field.tag ∈ ["650", "655"]
  ind2 : field.ind2 = "7"
  vocabulary : anyVocabulariesMatch field subjectGenreVocabularies = true
  subfield : s ∈ field.subfields
  code : s.code ∈ if field.tag = "650" then ['v'] else ['a', 'v']

theorem VocabularyTerm.own {field : Field} {s : Subfield} (h : VocabularyTerm r field s) :
    OwnTerm r s := by
  refine ⟨field, h.mem, ?_, h.subfield, ?_⟩
  · have htag := h.tag
    simp only [List.mem_cons, List.not_mem_nil, or_false] at htag
    rcases htag with htag | htag <;> simp [genreTags, htag]
  · have hcode := h.code
    have htag := h.tag
    simp only [List.mem_cons, List.not_mem_nil, or_false] at htag
    rcases htag with htag | htag
    · simp [htag] at hcode
      simp [hcode]
    · simp [htag] at hcode
      rcases hcode with hcode | hcode <;> simp [hcode, htag]

theorem mem_genresFromSubjectVocabularies {genre : String} :
    genre ∈ genresFromSubjectVocabularies isWord r
      ↔ ∃ field s, VocabularyTerm r field s ∧ trimPunctuation isWord s.content = genre := by
  simp only [genresFromSubjectVocabularies, extractFieldValuesBy_some, List.mem_flatten,
    List.mem_map, List.mem_filter, Bool.and_eq_true, decide_eq_true_eq, subfieldContents,
    filterByCode]
  constructor
  · rintro ⟨_, ⟨field, ⟨hfield, ⟨htag, hind2⟩, hvocabulary⟩, rfl⟩, hgenre⟩
    obtain ⟨_, hcontent, rfl⟩ := List.mem_map.1 hgenre
    obtain ⟨s, hs, rfl⟩ := List.mem_map.1 hcontent
    obtain ⟨hmem, hcode⟩ := List.mem_filter.1 hs
    exact ⟨field, s, ⟨hfield, htag, hind2, hvocabulary, hmem, of_decide_eq_true hcode⟩, rfl⟩
  · rintro ⟨field, s, h, rfl⟩
    refine ⟨_, ⟨field, ⟨h.mem, ⟨h.tag, h.ind2⟩, h.vocabulary⟩, rfl⟩, ?_⟩
    exact List.mem_map_of_mem (List.mem_map_of_mem
      (List.mem_filter.2 ⟨h.subfield, decide_eq_true h.code⟩))

end Terms

section Literary

theorem genresFromPrimarySourceLcshMapping_literary (h : isLiteraryBook r = true) :
    genresFromPrimarySourceLcshMapping M isAlphanumeric toLowercase r = [] := if_pos h

theorem genresFromPrimarySourceLcgftMapping_literary (h : isLiteraryBook r = true) :
    genresFromPrimarySourceLcgftMapping extractFields isAlphanumeric toLowercase r = [] := if_pos h

theorem genresFromBiographicalContent_literary (h : isLiteraryBook r = true) :
    genresFromBiographicalContent M isWord toLowercase r = [] := by
  simp [genresFromBiographicalContent, h]

def subfieldVQuery : String :=
  "600(*0)v:610(*0)v:611(*0)v:630(*0)v:650(*0)v:651(*0)v:655(*0)a:655(*0)v"

/-- What a query gives is in the subfields that it asks for. -/
def Marctk.GivesQueried (M : Marctk) (query : String) : Prop :=
  ∀ r : Record, ∀ v ∈ M.extractValues query r, ∃ field ∈ r.fields,
    ∃ s ∈ queriedSubfields query field, s.content = v

theorem own_of_queried {field : Field} (hfield : field ∈ r.fields) {s : Subfield}
    (h : s ∈ queriedSubfields subfieldVQuery field) : OwnTerm r s := by
  have hqueries : ((splitChar ':' subfieldVQuery).map FieldQuery.ofString).all (fun q =>
      decide (q.tag ∈ genreTags)
        && q.codes.all fun c => c ∈ ['v', 'x'] || q.tag = "655" && c = 'a') = true := by
    decide +kernel
  simp only [List.all_eq_true, Bool.and_eq_true, Bool.or_eq_true, decide_eq_true_eq] at hqueries
  rw [queriedSubfields, List.mem_filter, List.any_eq_true] at h
  obtain ⟨hs, q, hq, hasked⟩ := h
  obtain ⟨htag, hcodes⟩ := hqueries q hq
  simp only [FieldQuery.covers, Bool.and_eq_true, decide_eq_true_eq] at hasked
  obtain ⟨⟨hsame, -⟩, hcode⟩ := hasked
  rw [← hsame] at htag hcodes
  exact ⟨field, hfield, htag, hs, hcodes s.code hcode⟩

theorem mem_genresFromSubfieldV (hquery : M.GivesQueried subfieldVQuery) {genre : String}
    (h : genre ∈ genresFromSubfieldV M isWord r) :
    genre ≠ "" ∧ ∃ s, OwnTerm r s ∧ trimPunctuation isWord s.content = genre := by
  rw [genresFromSubfieldV, List.mem_filter, List.mem_map] at h
  obtain ⟨⟨trimmed, htrimmed, rfl⟩, hne⟩ := h
  obtain ⟨v, hv, rfl⟩ := List.mem_map.1 htrimmed
  obtain ⟨field, hfield, s, hs, rfl⟩ := hquery r v hv
  refine ⟨of_decide_eq_true hne, s, own_of_queried hfield hs, ?_⟩
  rw [trimPunctuation, trim_trim]

theorem mem_genresFromSubfieldX {genre : String} (h : genre ∈ genresFromSubfieldX M isWord r) :
    genre ≠ "" ∧ isLikelyGenreTerm genre = true := by
  rw [genresFromSubfieldX, List.mem_filter, List.mem_filter] at h
  exact ⟨of_decide_eq_true h.1.2, h.2⟩

theorem isLikelyGenreTerm_primarySources : isLikelyGenreTerm "Primary sources" = false := by
  decide +kernel

end Literary

section Genres

/-- What the three rules give. -/
theorem mem_rules {genre : String}
    (h : genre ∈ genresFromPrimarySourceLcshMapping M isAlphanumeric toLowercase r
      ∨ genre ∈ genresFromPrimarySourceLcgftMapping extractFields isAlphanumeric toLowercase r
      ∨ genre ∈ genresFromBiographicalContent M isWord toLowercase r) :
    genre = "Primary sources" ∧ isLiteraryBook r = false := by
  have hliterary : isLiteraryBook r = false := by
    by_contra hbook
    rw [Bool.not_eq_false] at hbook
    rw [genresFromPrimarySourceLcshMapping_literary hbook,
      genresFromPrimarySourceLcgftMapping_literary hbook,
      genresFromBiographicalContent_literary hbook] at h
    simp at h
  refine ⟨?_, hliterary⟩
  rcases h with h | h | h
  · unfold genresFromPrimarySourceLcshMapping at h
    split_ifs at h
    · cases h
    · exact List.mem_singleton.1 h
    · cases h
  · unfold genresFromPrimarySourceLcgftMapping at h
    split_ifs at h
    · cases h
    · exact List.mem_singleton.1 h
    · cases h
  · unfold genresFromBiographicalContent at h
    split_ifs at h
    · exact List.mem_singleton.1 h
    · cases h

theorem mem_genres {genre : String} :
    genre ∈ genres M extractFields isWord isAlphanumeric toLowercase r
      ↔ genre ∈ genresFromSubfieldV M isWord r ∨ genre ∈ genresFromSubfieldX M isWord r
        ∨ genre ∈ genresFromSubjectVocabularies isWord r
        ∨ genre ∈ genresFromPrimarySourceLcshMapping M isAlphanumeric toLowercase r
        ∨ genre ∈ genresFromPrimarySourceLcgftMapping extractFields isAlphanumeric toLowercase r
        ∨ genre ∈ genresFromBiographicalContent M isWord toLowercase r := by
  simp only [genres, List.mem_eraseDups, List.mem_append, or_assoc]

theorem empty_mem_genres_iff :
    "" ∈ genres M extractFields isWord isAlphanumeric toLowercase r
      ↔ ∃ field s, VocabularyTerm r field s ∧ trimPunctuation isWord s.content = "" := by
  rw [mem_genres, ← mem_genresFromSubjectVocabularies]
  refine ⟨?_, fun h => .inr (.inr (.inl h))⟩
  rintro (h | h | h | h)
  · rw [genresFromSubfieldV, List.mem_filter] at h
    exact absurd h.2 (by simp)
  · exact absurd rfl (mem_genresFromSubfieldX h).1
  · exact h
  · exact absurd (mem_rules h).1 (by decide)

structure GenresSound (M : Marctk) (extractFields : String → Record → List Field)
    (isWord isAlphanumeric : Char → Bool) (toLowercase : String → String) (r : Record) :
    Prop where
  nonempty : "" ∉ genres M extractFields isWord isAlphanumeric toLowercase r
  nodup : (genres M extractFields isWord isAlphanumeric toLowercase r).Nodup
  literary : isLiteraryBook r = true →
    "Primary sources" ∈ genres M extractFields isWord isAlphanumeric toLowercase r →
      ∃ s, OwnTerm r s ∧ trimPunctuation isWord s.content = "Primary sources"
  rules : isLiteraryBook r = true →
    genresFromPrimarySourceLcshMapping M isAlphanumeric toLowercase r = []
      ∧ genresFromPrimarySourceLcgftMapping extractFields isAlphanumeric toLowercase r = []
      ∧ genresFromBiographicalContent M isWord toLowercase r = []

theorem genres_literary (hquery : M.GivesQueried subfieldVQuery) (hbook : isLiteraryBook r = true)
    (h : "Primary sources" ∈ genres M extractFields isWord isAlphanumeric toLowercase r) :
    ∃ s, OwnTerm r s ∧ trimPunctuation isWord s.content = "Primary sources" := by
  rcases mem_genres.1 h with h | h | h | h
  · exact (mem_genresFromSubfieldV hquery h).2
  · have hlikely := (mem_genresFromSubfieldX h).2
    rw [isLikelyGenreTerm_primarySources] at hlikely
    cases hlikely
  · obtain ⟨field, s, hterm, hs⟩ := mem_genresFromSubjectVocabularies.1 h
    exact ⟨s, hterm.own, hs⟩
  · rw [(mem_rules h).2] at hbook
    cases hbook

theorem genresSound_iff (M : Marctk) (extractFields : String → Record → List Field)
    (isWord isAlphanumeric : Char → Bool) (toLowercase : String → String) (r : Record)
    (hquery : M.GivesQueried subfieldVQuery) :
    GenresSound M extractFields isWord isAlphanumeric toLowercase r
      ↔ ∀ field s, VocabularyTerm r field s → trimPunctuation isWord s.content ≠ "" := by
  have hempty : "" ∉ genres M extractFields isWord isAlphanumeric toLowercase r
      ↔ ∀ field s, VocabularyTerm r field s → trimPunctuation isWord s.content ≠ "" := by
    rw [empty_mem_genres_iff]
    push Not
    rfl
  refine ⟨fun h => hempty.1 h.nonempty, fun h => ⟨hempty.2 h, nodup_eraseDups _,
    fun hbook => genres_literary hquery hbook, fun hbook => ?_⟩⟩
  exact ⟨genresFromPrimarySourceLcshMapping_literary hbook,
    genresFromPrimarySourceLcgftMapping_literary hbook,
    genresFromBiographicalContent_literary hbook⟩

theorem plainMarctk_givesQueried (query : String) : plainMarctk.GivesQueried query := by
  intro r v hv
  obtain ⟨field, hfield, hv⟩ := List.mem_flatMap.1 hv
  obtain ⟨s, hs, rfl⟩ := List.mem_map.1 hv
  exact ⟨field, hfield, s, hs, rfl⟩

/-- A field with a comma instead of a term. -/
def commaRecord : Record := ⟨[], [⟨"655", [⟨'a', ","⟩, ⟨'2', "lcgft"⟩], "7"⟩], ""⟩

def mapsRecord : Record := ⟨[], [⟨"655", [⟨'a', "Maps."⟩, ⟨'2', "lcgft"⟩], "7"⟩], ""⟩

def plainExtractFields (tag : String) (r : Record) : List Field := r.getFields tag

theorem genresSound_mapsRecord :
    GenresSound plainMarctk plainExtractFields Char.isAlpha Char.isAlphanum lowercaseLetters
      mapsRecord := by
  refine (genresSound_iff plainMarctk plainExtractFields Char.isAlpha Char.isAlphanum
    lowercaseLetters mapsRecord (plainMarctk_givesQueried subfieldVQuery)).2 fun field s h => ?_
  obtain rfl := List.mem_singleton.1 h.mem
  have hcode := h.code
  have hmem := h.subfield
  simp only [List.mem_cons, List.not_mem_nil, or_false] at hmem
  rcases hmem with rfl | rfl
  · decide +kernel
  · simp at hcode

theorem not_genresSound_commaRecord : plainMarctk.GivesQueried subfieldVQuery
    ∧ ¬GenresSound plainMarctk plainExtractFields Char.isAlpha Char.isAlphanum lowercaseLetters
      commaRecord := by
  refine ⟨plainMarctk_givesQueried subfieldVQuery, fun hsound => ?_⟩
  refine hsound.nonempty (empty_mem_genres_iff.2
    ⟨⟨"655", [⟨'a', ","⟩, ⟨'2', "lcgft"⟩], "7"⟩, ⟨'a', ","⟩, ?_, by decide +kernel⟩)
  exact ⟨List.mem_cons_self, by simp, rfl, by decide +kernel, by simp, by simp⟩

end Genres

end Bibdata
