import Bibdata.Proofs.ParallelFields
import Bibdata.Proofs.PartnerHoldings
import Bibdata.SolrFields

/-!
# The fields that are left out

Not every field of a record is copied from Ruby to Rust. Whichever are left out, as long as none of
the functions reads their tags (`IsRead`), the values that are found are those of the whole record
(`fieldsInUse_without`): each function gives the same without them, and the queries of the crate
read what they name. Two values are of the whole record: its XML, and the parallel fields that are
paired with nothing, among them those that are linked to a field that was left out.
-/

namespace Bibdata

section LeftOut

def Record.without (unused : List String) (r : Record) : Record :=
  { r with fields := r.fields.filter (·.tag ∉ unused) }

def MarctkRecord.without (unused : List String) (r : MarctkRecord) : MarctkRecord :=
  { r with fields := r.fields.filter (·.tag ∉ unused) }

variable {unused : List String} {r : Record}

@[simp] theorem MarctkRecord.without_toRecord {r : MarctkRecord} :
    (r.without unused).toRecord = r.toRecord.without unused := by
  simp only [MarctkRecord.without, MarctkRecord.toRecord, Record.without, List.filter_map]
  rfl

variable {α : Type}

theorem filterMap_without {f : Field → Option α}
    (hf : ∀ field, field.tag ∈ unused → f field = none) :
    (r.without unused).fields.filterMap f = r.fields.filterMap f := by
  rw [Record.without, List.filterMap_filter]
  refine List.filterMap_congr fun field _ => ?_
  by_cases hfield : field.tag ∈ unused
  · simp [hfield, hf field hfield]
  · simp [hfield]

theorem flatMap_without {f : Field → List α} (hf : ∀ field, field.tag ∈ unused → f field = []) :
    (r.without unused).fields.flatMap f = r.fields.flatMap f := by
  show (r.fields.filter _).flatMap f = _
  induction r.fields with
  | nil => rfl
  | cons field fields ih =>
    rw [List.filter_cons, List.flatMap_cons]
    by_cases hfield : field.tag ∈ unused
    · simpa [hfield, hf field hfield] using ih
    · simpa [hfield] using ih

theorem filter_without {p : Field → Bool} (hp : ∀ field, field.tag ∈ unused → p field = false) :
    (r.without unused).fields.filter p = r.fields.filter p := by
  rw [Record.without, List.filter_filter]
  refine List.filter_congr fun field _ => ?_
  by_cases hfield : field.tag ∈ unused
  · simp [hp field hfield]
  · simp [hfield]

theorem find_without {p : Field → Bool} (hp : ∀ field, field.tag ∈ unused → p field = false) :
    (r.without unused).fields.find? p = r.fields.find? p := by
  rw [← List.head?_filter, ← List.head?_filter, filter_without hp]

theorem any_without {p : Field → Bool} (hp : ∀ field, field.tag ∈ unused → p field = false) :
    (r.without unused).fields.any p = r.fields.any p := by
  rw [Record.without, List.any_filter, Bool.eq_iff_iff]
  simp only [List.any_eq_true, Bool.and_eq_true, decide_eq_true_eq]
  refine exists_congr fun field => and_congr_right fun _ => and_iff_right_of_imp fun hfield => ?_
  intro hmem
  rw [hp field hmem] at hfield
  cases hfield

theorem extractFieldValuesBy_without {criteria : Field → Bool} {extractor : Field → Option α}
    (hcriteria : ∀ field, field.tag ∈ unused → criteria field = false) :
    extractFieldValuesBy (r.without unused) criteria extractor
      = extractFieldValuesBy r criteria extractor :=
  filterMap_without fun field hfield => by simp [hcriteria field hfield]

theorem getFields_without {tag : String} (htag : tag ∉ unused) :
    (r.without unused).getFields tag = r.getFields tag :=
  filter_without fun _ hfield => decide_eq_false fun heq => htag (heq ▸ hfield)

theorem getFieldValues_without {tag : String} {code : Char} (htag : tag ∉ unused) :
    (r.without unused).getFieldValues tag code = r.getFieldValues tag code := by
  rw [Record.getFieldValues, getFields_without htag, Record.getFieldValues]

end LeftOut

section Read

/-- The tags that the functions ask for by name. -/
def readTags : List String :=
  ["010", "020", "022", "024", "027", "028", "030", "034", "035", "040", "041", "086", "088",
    "100", "110", "111", "130", "210", "211", "212", "214", "222", "240", "242", "243", "245",
    "246", "247", "250", "254", "255", "256", "260", "264", "300", "310", "321", "342", "343",
    "351", "352", "355", "362", "400", "410", "411", "440", "490", "500", "501", "502", "504",
    "505", "506", "507", "508", "511", "513", "514", "515", "516", "518", "521", "522", "524",
    "525", "530", "533", "534", "535", "536", "538", "540", "544", "545", "546", "547", "550",
    "556", "562", "563", "565", "567", "580", "581", "583", "585", "590", "600", "610", "611",
    "630", "648", "650", "651", "654", "655", "656", "690", "691", "700", "710", "711", "730",
    "740", "752", "753", "755", "760", "762", "765", "767", "770", "772", "773", "774", "775",
    "776", "777", "780", "785", "786", "787", "800", "810", "811", "830", "840", "852", "866",
    "867", "868", "876", "880", "950", "951"]

/-- The notes and the subjects are asked for by their first figure too. -/
def isRead (tag : String) : Bool := startsWith tag "5" || startsWith tag "6" || tag ∈ readTags

def NoneIsRead (unused : List String) : Prop := ∀ tag ∈ unused, isRead tag = false

instance (unused : List String) : Decidable (NoneIsRead unused) :=
  inferInstanceAs (Decidable (∀ tag ∈ unused, isRead tag = false))

/-- The tags that a query names. -/
def queryTags (query : String) : List String :=
  (splitChar ':' query).map fun part => String.ofList (part.toList.take 3)

def queries : List String :=
  ["010a", "020a", "020az:776z", "022a", "022alyz:776x", "035a", "041(1*)hn", "041ad", "100a",
    "100abcdjq", "260abcefg", "264abcefg3", "506(1*)a", "600abcdjq",
    "600(*0)vx:610(*0)vx:611(*0)vx:630(*0)vx:650(*0)avx:651(*0)vx:655(*0)avx",
    "600(*0)vx:610(*0)vx:611(*0)vx:630(*0)vx:650(*0)vx:651(*0)vx:655(*0)a:655(*0)vx",
    "600(*0)x:610(*0)x:611(*0)x:630(*0)x:650(*0)x:651(*0)x:655(*0)x",
    "600(*0)v:610(*0)v:611(*0)v:630(*0)v:650(*0)v:651(*0)v:655(*0)a:655(*0)v", "655",
    "776w:787w"]

/-- The specifications that `extract_marc!` is given. -/
def specLists : List (List String) :=
  SolrFields.extractedFields.map Prod.snd ++ SolrFields.trimmedFields.map Prod.snd
    ++ [["024a"], ["245abcfghknps"], ["260abcefg", "264abcefg3"]]

/-- The tag does not depend on the scripts. -/
theorem map_tag_new (spec : String) (scripts : ScriptsToIndex) :
    (ExtractSpec.new spec scripts).map (·.tag) = (ExtractSpec.new spec .all).map (·.tag) := by
  unfold ExtractSpec.new
  cases firstBytes 3 spec.toList with
  | none => rfl
  | some tag =>
    simp only [Option.bind_some]
    split_ifs <;> rfl

theorem specTags_read (scripts : ScriptsToIndex) : ∀ specs ∈ specLists,
    (specs.filterMap (ExtractSpec.new · scripts)).map (·.tag) ⊆ readTags := by
  have hread : ∀ specs ∈ specLists,
      (specs.filterMap fun spec => (ExtractSpec.new spec .all).map (·.tag)).all (· ∈ readTags) := by
    decide +kernel
  intro specs hspecs tag htag
  rw [List.map_filterMap] at htag
  simp only [map_tag_new] at htag
  exact of_decide_eq_true (List.all_eq_true.1 (hread specs hspecs) tag htag)

theorem queryTags_read : ∀ query ∈ queries, queryTags query ⊆ readTags := by
  have hread : ∀ query ∈ queries, (queryTags query).all (· ∈ readTags) = true := by
    decide +kernel
  intro query hquery tag htag
  exact of_decide_eq_true (List.all_eq_true.1 (hread query hquery) tag htag)

variable {unused : List String} (h : NoneIsRead unused)

include h

theorem NoneIsRead.notMem {tag : String} (hread : tag ∈ readTags) : tag ∉ unused := by
  intro hmem
  have hunread := h tag hmem
  simp [isRead, hread] at hunread

theorem NoneIsRead.notMem_tags {tags : List String} (hread : tags ⊆ readTags) {tag : String}
    (hmem : tag ∈ unused) : tag ∉ tags := fun htag => h.notMem (hread htag) hmem

theorem NoneIsRead.notMem_query {query : String} (hread : query ∈ queries) :
    ∀ tag ∈ queryTags query, tag ∉ unused := fun _ htag =>
  h.notMem (queryTags_read query hread htag)

theorem NoneIsRead.startsWith_five {tag : String} (hmem : tag ∈ unused) :
    startsWith tag "5" = false := by
  have hunread := h tag hmem
  rw [isRead, Bool.or_eq_false_iff, Bool.or_eq_false_iff] at hunread
  exact hunread.1.1

theorem NoneIsRead.startsWith_six {tag : String} (hmem : tag ∈ unused) :
    startsWith tag "6" = false := by
  have hunread := h tag hmem
  rw [isRead, Bool.or_eq_false_iff, Bool.or_eq_false_iff] at hunread
  exact hunread.1.2

theorem NoneIsRead.tag_ne {field : Field} (hfield : field.tag ∈ unused) {tag : String}
    (hread : tag ∈ readTags) : field.tag ≠ tag := by
  rintro rfl
  exact h.notMem hread hfield

variable {field : Field} (hfield : field.tag ∈ unused)

include hfield

theorem nonLatinTag_unused : nonLatinTag field = none :=
  if_pos (h.tag_ne hfield (by simp [readTags]))

theorem latinOrNonLatinTag_unused : latinOrNonLatinTag field = field.tag := by
  rw [latinOrNonLatinTag, nonLatinTag_unused h hfield, Option.getD_none]

theorem nonLatinTagIncludedIn_unused (tags : List String) :
    nonLatinTagIncludedIn tags field = false := by
  rw [nonLatinTagIncludedIn, nonLatinTag_unused h hfield, Option.any_none]

variable {tags : List String} (hread : tags ⊆ readTags)

include hread

theorem latinTagIncludedIn_unused : latinTagIncludedIn tags field = false :=
  decide_eq_false (h.notMem_tags hread hfield)

theorem latinOrNonLatinTagIncludedIn_unused : latinOrNonLatinTagIncludedIn tags field = false := by
  rw [latinOrNonLatinTagIncludedIn, nonLatinTag_unused h hfield, Option.any_none, Bool.or_false]
  exact decide_eq_false (h.notMem_tags hread hfield)

theorem fieldTagMatches_unused (scripts : ScriptsToIndex) :
    fieldTagMatches field scripts tags = false := by
  cases scripts
  · exact latinOrNonLatinTagIncludedIn_unused h hfield hread
  · exact latinTagIncludedIn_unused h hfield hread
  · exact nonLatinTagIncludedIn_unused h hfield tags

end Read

section Functions

variable {unused : List String} (h : NoneIsRead unused) {r : Record}

section Extraction

include h

theorem extractMarc_without {specs : List ExtractSpec}
    (hread : specs.map (·.tag) ⊆ readTags) :
    extractMarc specs (r.without unused) = extractMarc specs r := by
  refine extractFieldValuesBy_without fun field hfield => List.any_eq_false.2 fun spec hspec => ?_
  have htag : spec.tag ∈ readTags := hread (List.mem_map_of_mem hspec)
  rw [ExtractSpec.tagMatcher, fieldTagMatches_unused h hfield (by simpa using htag)]
  simp

theorem extractMarcOf_without {scripts : ScriptsToIndex} {specs : List String}
    (hspecs : specs ∈ specLists) :
    SolrFields.extractMarcOf scripts specs (r.without unused)
      = SolrFields.extractMarcOf scripts specs r :=
  extractMarc_without h (specTags_read scripts specs hspecs)

theorem latin_without {α : Type} {tags : List String} {extractor : Field → Option α}
    (hread : tags ⊆ readTags) :
    extractFieldValuesBy (r.without unused) (latinTagIncludedIn tags) extractor
      = extractFieldValuesBy r (latinTagIncludedIn tags) extractor :=
  extractFieldValuesBy_without fun _ hfield => latinTagIncludedIn_unused h hfield hread

theorem nonLatin_without {α : Type} {tags : List String} {extractor : Field → Option α} :
    extractFieldValuesBy (r.without unused) (nonLatinTagIncludedIn tags) extractor
      = extractFieldValuesBy r (nonLatinTagIncludedIn tags) extractor :=
  extractFieldValuesBy_without fun _ hfield => nonLatinTagIncludedIn_unused h hfield tags

theorem latinOrNonLatin_without {α : Type} {tags : List String} {extractor : Field → Option α}
    (hread : tags ⊆ readTags) :
    extractFieldValuesBy (r.without unused) (latinOrNonLatinTagIncludedIn tags) extractor
      = extractFieldValuesBy r (latinOrNonLatinTagIncludedIn tags) extractor :=
  extractFieldValuesBy_without fun _ hfield => latinOrNonLatinTagIncludedIn_unused h hfield hread

theorem tag_without {α : Type} {tag : String} {extractor : Field → Option α}
    (hread : tag ∈ readTags) :
    extractFieldValuesBy (r.without unused) (·.tag = tag) extractor
      = extractFieldValuesBy r (·.tag = tag) extractor :=
  extractFieldValuesBy_without fun _ hfield => decide_eq_false (h.tag_ne hfield hread)

theorem addedEntryFields_without {tags : List String} {secondIndicator : Option String}
    (hread : tags ⊆ readTags) :
    addedEntryFields (r.without unused) tags secondIndicator
      = addedEntryFields r tags secondIndicator := by
  rw [addedEntryFields, filter_without fun _ hfield =>
    latinOrNonLatinTagIncludedIn_unused h hfield hread, addedEntryFields]

end Extraction

/-- A query reads the fields with the tags that it names. -/
structure SolrTools.ReadsNamed {N : Type} (tools : SolrTools N) : Prop where
  extractValues : ∀ query unused r, (∀ tag ∈ queryTags query, tag ∉ unused) →
    tools.marctk.extractValues query (Record.without unused r)
      = tools.marctk.extractValues query r
  extractPartialFields : ∀ query unused r, (∀ tag ∈ queryTags query, tag ∉ unused) →
    tools.marctk.extractPartialFields query (Record.without unused r)
      = tools.marctk.extractPartialFields query r
  getParallelFields : ∀ tag unused r, "880" ∉ unused →
    tools.marctk.getParallelFields tag (Record.without unused r)
      = tools.marctk.getParallelFields tag r
  extractFields : ∀ query unused r, (∀ tag ∈ queryTags query, tag ∉ unused) →
    tools.extractFields query (Record.without unused r) = tools.extractFields query r
  extractNotes : ∀ unused r, (∀ tag ∈ unused, startsWith tag "5" = false) →
    tools.extractFieldsInRange 500 599 (Record.without unused r)
      = tools.extractFieldsInRange 500 599 r
  extractByIndicator : ∀ query unused r, (∀ tag ∈ queryTags query, tag ∉ unused) →
    tools.extractByIndicator query (MarctkRecord.without unused r)
      = tools.extractByIndicator query r

section Groups

variable {N : Type} {tools : SolrTools N} (hnamed : tools.ReadsNamed)

include h hnamed in
theorem SolrTools.ReadsNamed.values_without {query : String} (hquery : query ∈ queries) :
    tools.marctk.extractValues query (r.without unused) = tools.marctk.extractValues query r :=
  hnamed.extractValues _ _ _ (h.notMem_query hquery)

include h hnamed in
theorem SolrTools.ReadsNamed.byIndicator_without {r : MarctkRecord} {query : String}
    (hquery : query ∈ queries) :
    tools.extractByIndicator query (r.without unused) = tools.extractByIndicator query r :=
  hnamed.extractByIndicator _ _ _ (h.notMem_query hquery)

open SolrFields

section

include h

theorem extracted_without :
    SolrFields.extracted (r.without unused) = SolrFields.extracted r := by
  refine List.map_congr_left fun entry hentry => ?_
  have hspecs : entry.2 ∈ specLists :=
    List.mem_append_left _ (List.mem_append_left _ (List.mem_map_of_mem hentry))
  show (entry.1, RubyValue.texts _) = (entry.1, RubyValue.texts _)
  rw [extractMarcOf_without h hspecs]

theorem trimmed_without : trimmed tools (r.without unused) = trimmed tools r := by
  refine List.map_congr_left fun entry hentry => ?_
  have hspecs : entry.2 ∈ specLists :=
    List.mem_append_left _ (List.mem_append_right _ (List.mem_map_of_mem hentry))
  show (entry.1, RubyValue.texts _) = (entry.1, RubyValue.texts _)
  rw [extractMarcOf_without h hspecs]

theorem titleDisplay_without : titleDisplay (r.without unused) = titleDisplay r := by
  rw [titleDisplay, extractMarcOf_without h (by simp [specLists]), titleDisplay]

end

section Names

include h

theorem authorCitationDisplay_without {isWord : Char → Bool} :
    Contributors.authorCitationDisplay isWord (r.without unused)
      = Contributors.authorCitationDisplay isWord r := by
  rw [Contributors.authorCitationDisplay, extractMarc_without h (by simp [readTags]),
    Contributors.authorCitationDisplay]

theorem authorSortKey_without {isAlphabetic : Char → Bool} :
    Contributors.authorSortKey isAlphabetic (r.without unused)
      = Contributors.authorSortKey isAlphabetic r := by
  rw [Contributors.authorSortKey,
    extractMarc_without h (by simp [Contributors.authorSpecs, readTags]),
    Contributors.authorSortKey]

theorem authorS_without {isWord : Char → Bool} :
    Contributors.authorS isWord (r.without unused) = Contributors.authorS isWord r := by
  rw [Contributors.authorS, latin_without h (by simp [readTags]), Contributors.authorS]

theorem otherAuthorFields_without :
    Contributors.otherAuthorFields (r.without unused) = Contributors.otherAuthorFields r := by
  refine filter_without fun field hfield => ?_
  have htag : field.tag ∉ Contributors.otherAuthorTags :=
    h.notMem_tags (by simp [Contributors.otherAuthorTags, readTags]) hfield
  simp [htag]

theorem addedEntries_without {isWord : Char → Bool} {tags : List String}
    {secondIndicator : Option String} {includeName : Bool} (hread : tags ⊆ readTags) :
    addedEntries isWord (r.without unused) tags secondIndicator includeName
      = addedEntries isWord r tags secondIndicator includeName := by
  rw [addedEntries, addedEntryFields_without h hread, addedEntries]

theorem linkedTitles_without {isWord : Char → Bool} :
    linkedTitles isWord (r.without unused) = linkedTitles isWord r := by
  rw [linkedTitles, filter_without, linkedTitles]
  intro field hfield
  rw [latinOrNonLatinTag_unused h hfield]
  exact decide_eq_false (h.notMem_tags (by simp [linkedTitleTags, readTags]) hfield)

theorem authorAndTitle_without {isWord : Char → Bool} :
    authorAndTitle isWord (r.without unused) = authorAndTitle isWord r := by
  have hmatches : ∀ scripts, ∀ {tags : List String}, tags ⊆ readTags →
      ∀ field : Field, field.tag ∈ unused → fieldTagMatches field scripts tags = false :=
    fun scripts _ hread field hfield => fieldTagMatches_unused h hfield hread scripts
  have hauthor : ∀ scripts, firstAuthor isWord (r.without unused) scripts
      = firstAuthor isWord r scripts := by
    intro scripts
    rw [firstAuthor, firstMatchingFieldValue,
      extractFieldValuesBy_without (hmatches scripts (by simp [mainEntryTags, readTags])),
      firstAuthor,
      firstMatchingFieldValue]
  have huniform : ∀ scripts, firstUniform240 (r.without unused) scripts
      = firstUniform240 r scripts := by
    intro scripts
    rw [firstUniform240, find_without (hmatches scripts (by simp [readTags])), firstUniform240]
  have htitle : ∀ scripts, mainTitle isWord (r.without unused) scripts
      = mainTitle isWord r scripts := by
    intro scripts
    rw [mainTitle, find_without (hmatches scripts (by simp [readTags])), mainTitle]
  unfold authorAndTitle authorAndTitleFor
  simp only [hauthor, huniform, htitle]

theorem nameTitleBrowseS_without {isWord : Char → Bool} :
    nameTitleBrowseS isWord (r.without unused) = nameTitleBrowseS isWord r := by
  have hseries : seriesTags ⊆ readTags := by simp [seriesTags, readTags]
  have hrelated : relatedTags ⊆ readTags := by simp [relatedTags, readTags]
  unfold nameTitleBrowseS analyticalEntries relatedWorks containsEntries
  rw [addedEntries_without h hseries, addedEntries_without h hrelated,
    addedEntries_without h hrelated, linkedTitles_without h, authorAndTitle_without h]

end Names

section Titles

include h

theorem otherTitlesDisplay_without :
    Titles.otherTitlesDisplay (r.without unused) = Titles.otherTitlesDisplay r := by
  refine filterMap_without fun field hfield => ?_
  rw [Titles.otherTitle, latinOrNonLatinTag_unused h hfield,
    if_neg (h.tag_ne hfield (by simp [readTags])), List.findSome?_eq_none_iff]
  intro spec hspec
  have hread : ∀ spec ∈ Titles.otherTitleSpecs, spec.tag ∈ readTags := by
    simp [Titles.otherTitleSpecs, readTags]
  rw [ExtractSpec.getSubfields, ExtractSpec.tagMatcher,
    fieldTagMatches_unused h hfield (by simpa using hread spec hspec)]
  rfl

theorem latinScriptTitle_without : latinScriptTitle (r.without unused) = latinScriptTitle r := by
  rw [latinScriptTitle, firstMatchingFieldValue, tag_without h (by simp [readTags]),
    latinScriptTitle, firstMatchingFieldValue]

theorem titles_without : titles tools (r.without unused) = titles tools r := by
  have hmain : ["245"] ⊆ readTags := by simp [readTags]
  unfold titles Titles.containsTitlesIndex Titles.otherTitle1display Titles.labeledOtherTitles
    Titles.seriesTitleIndex Titles.nonLatinTitleSort Titles.titleNoHIndex Titles.titleSortKey
    Titles.titleVernDisplay Titles.uniform130NonLatin Titles.uniformTitle firstMatchingFieldValue
  rw [latinOrNonLatin_without h (by simp [readTags]),
    latinOrNonLatin_without h (by simp [readTags]),
    otherTitlesDisplay_without h, extractMarc_without h (by simp [readTags]),
    latinOrNonLatin_without h (by simp [readTags]), nonLatin_without h,
    latinOrNonLatin_without h hmain, latin_without h hmain, latinScriptTitle_without h,
    nonLatin_without h, nonLatin_without h, latinOrNonLatin_without h (by simp [readTags]),
    latinOrNonLatin_without h (by simp [readTags])]

end Titles

section Scripts

include h

theorem allTexts_without {maybe : String → Option String} :
    allTexts maybe (r.without unused) = allTexts maybe r := by
  rw [allTexts, tag_without h (by simp [readTags]), allTexts]

theorem authorTexts_without {isWord : Char → Bool} {maybe : String → Option String} :
    authorTexts isWord maybe (r.without unused) = authorTexts isWord maybe r := by
  rw [authorTexts, nonLatin_without h, authorTexts]

theorem titleTexts_without {isWord : Char → Bool} {maybe : String → Option String}
    {T : TitleFields} {cut : List Subfield → List Subfield} :
    titleTexts isWord maybe T cut (r.without unused) = titleTexts isWord maybe T cut r := by
  rw [titleTexts, nonLatin_without h, nonLatin_without h, titleTexts]

include hnamed

theorem notesCjk_without : notesCjk tools.isCjk tools.extractFieldsInRange (r.without unused)
    = notesCjk tools.isCjk tools.extractFieldsInRange r := by
  rw [notesCjk, hnamed.extractNotes _ _ fun _ => h.startsWith_five,
    getFields_without (h.notMem (by simp [readTags])), notesCjk]

theorem scripts_without : scripts tools (r.without unused) = scripts tools r := by
  unfold scripts cjkAll cjkAuthors cjkSeriesTitles subjectsCjk cjkTitles nonLatinNonCjkAll
    nonLatinNonCjkAuthors nonLatinNonCjkSeriesTitles nonLatinNonCjkTitles
  simp only [allTexts_without h, authorTexts_without h, titleTexts_without h,
    notesCjk_without h hnamed, nonLatin_without h]

end Scripts

section Subjects

include h

theorem hasGenre_without {α : Type} {vocab : GenreVocabulary} {extractor : Field → Option α} :
    extractFieldValuesBy (r.without unused) (hasGenre vocab) extractor
      = extractFieldValuesBy r (hasGenre vocab) extractor := by
  refine extractFieldValuesBy_without fun field hfield => ?_
  rw [hasGenre, latinOrNonLatinTagIncludedIn_unused h hfield (by simp [readTags]),
    Bool.false_and]

theorem fastSubjects_without : fastSubjects (r.without unused) = fastSubjects r := by
  have hloc : ∀ field : Field, field.tag ∈ unused → isLocSubject field = false := by
    intro field hfield
    rw [isLocSubject,
      decide_eq_false (h.notMem_tags (by simp [locSubjectTags, readTags]) hfield), Bool.false_and]
  have hfast : ∀ field : Field, field.tag ∈ unused → isFastSubject field = false := by
    intro field hfield
    rw [isFastSubject, h.startsWith_six hfield, Bool.false_and]
  rw [fastSubjects, any_without hloc, extractFieldValuesBy_without hfast, fastSubjects]

theorem icpsrSubjects_without {isWord : Char → Bool} :
    icpsrSubjects isWord (r.without unused) = icpsrSubjects isWord r := by
  rw [icpsrSubjects, extractFieldValuesBy_without, icpsrSubjects]
  intro field hfield
  rw [decide_eq_false (h.tag_ne hfield (by simp [readTags])), Bool.false_and]

theorem sikuSubjectsDisplay_without {isWord : Char → Bool} :
    sikuSubjectsDisplay isWord (r.without unused) = sikuSubjectsDisplay isWord r := by
  refine filterMap_without fun field hfield => ?_
  rw [sikuSubjectDisplay, isSikuSubject,
    latinOrNonLatinTagIncludedIn_unused h hfield (by simp [readTags]), Bool.false_and]
  rfl

theorem subjectEraFacet_without {isDecimal : Char → Bool} :
    subjectEraFacet isDecimal (r.without unused) = subjectEraFacet isDecimal r := by
  have heras : ∀ field : Field, field.tag ∈ unused → eras field = [] := by
    intro field hfield
    rw [eras, if_neg (h.tag_ne hfield (by simp [readTags])),
      if_neg (h.notMem_tags (by simp [ordinaryEraTags, readTags]) hfield)]
  have hgeographic : ∀ field : Field, field.tag ∈ unused → geographicEras isDecimal field = [] := by
    intro field hfield
    rw [geographicEras,
      if_neg (h.notMem_tags (by simp [geographicSubjectTags, readTags]) hfield)]
  rw [subjectEraFacet, flatMap_without heras, flatMap_without hgeographic, subjectEraFacet]

theorem genresFromSubjectVocabularies_without {isWord : Char → Bool} :
    genresFromSubjectVocabularies isWord (r.without unused)
      = genresFromSubjectVocabularies isWord r := by
  rw [genresFromSubjectVocabularies, extractFieldValuesBy_without, genresFromSubjectVocabularies]
  intro field hfield
  rw [decide_eq_false (h.notMem_tags (by simp [readTags]) hfield), Bool.false_and, Bool.false_and]

include hnamed

theorem genresFromBiographicalContent_without :
    genresFromBiographicalContent tools.marctk tools.isWord tools.toLowercase (r.without unused)
      = genresFromBiographicalContent tools.marctk tools.isWord tools.toLowercase r := by
  unfold genresFromBiographicalContent BiographicalContent.ofRecord biography authorMatchesSubject
  simp (disch := (unfold queries; simp)) only [hnamed.values_without h]
  rfl

theorem genres_without :
    genres tools.marctk tools.extractFields tools.isWord tools.isAlphanumeric tools.toLowercase
        (r.without unused)
      = genres tools.marctk tools.extractFields tools.isWord tools.isAlphanumeric
        tools.toLowercase r := by
  unfold genres genresFromSubfieldV genresFromSubfieldX genresFromPrimarySourceLcshMapping
    genresFromPrimarySourceLcgftMapping
  rw [genresFromSubjectVocabularies_without h, genresFromBiographicalContent_without h hnamed,
    hnamed.extractFields _ _ _ (h.notMem_query (by simp [queries]))]
  simp (disch := (unfold queries; simp)) only [hnamed.values_without h]
  rfl

theorem subjects_without : subjects tools (r.without unused) = subjects tools r := by
  unfold subjects aatS homoitGenreS lcgftS rbgenrS genreValues rbgenrGenreFacet
  simp only [hasGenre_without h, fastSubjects_without h, genres_without h hnamed,
    icpsrSubjects_without h, sikuSubjectsDisplay_without h, subjectEraFacet_without h]

end Subjects

section Numbers

include h

theorem isbnDisplay_without : isbnDisplay (r.without unused) = isbnDisplay r := by
  rw [isbnDisplay, tag_without h (by simp [readTags]), isbnDisplay]

theorem standardNumbers_without : standardNumbers (r.without unused) = standardNumbers r := by
  rw [standardNumbers, tag_without h (by simp [readTags]), standardNumbers]

include hnamed

theorem oclcNumbers_without :
    oclcNumbers tools.isDecimal tools.marctk (r.without unused)
      = oclcNumbers tools.isDecimal tools.marctk r := by
  rw [oclcNumbers, systemControlNumbers,
    hnamed.values_without h (by simp [queries]), oclcNumbers,
    systemControlNumbers]

theorem identifiers_without : identifiers tools (r.without unused) = identifiers tools r := by
  unfold identifiers identifiersOfAllVersions normalizedIsbns normalizedIssns normalizedLccns
    normalizedIsbnsForAllVersions normalizedIssnsForAllVersions normalizedOclcNumbers
    oclcNumbersNumeric linkedRecordControlNumbers
  rw [isbnDisplay_without h, standardNumbers_without h, oclcNumbers_without h hnamed,
    extractMarcOf_without h (by simp [specLists])]
  simp (disch := (unfold queries; simp)) only [hnamed.values_without h]
  rfl

end Numbers

section Dates

include h

theorem catalogedDate_without {D : DateLibrary} :
    catalogedDate (r.without unused) D = catalogedDate r D := by
  have hitem : itemEditDates (r.without unused) = itemEditDates r := by
    rw [itemEditDates, extractFieldValuesBy_without, itemEditDates]
    intro field hfield
    rw [decide_eq_false (h.tag_ne hfield (by simp [readTags])), Bool.false_and]
  have helectronic : electronicEditDates (r.without unused) = electronicEditDates r := by
    rw [electronicEditDates, extractFieldValuesBy_without, electronicEditDates]
    intro field hfield
    rw [AlmaElectronicPortfolio.ofField, if_pos (h.tag_ne hfield (by simp [readTags]))]
    rfl
  have hrecord : recordEditDates (r.without unused) = recordEditDates r := by
    rw [recordEditDates, tag_without h (by simp [readTags]), recordEditDates]
  rw [catalogedDate, hitem, helectronic, hrecord, catalogedDate]
  rfl

include hnamed

theorem pubCreatedDisplay_without :
    pubCreatedDisplay tools.marctk tools.isNumeric tools.isDecimal (r.without unused)
      = pubCreatedDisplay tools.marctk tools.isNumeric tools.isDecimal r := by
  have h880 : "880" ∉ unused := h.notMem (by simp [readTags])
  unfold pubCreatedDisplay statementsFrom264 statementsFrom260 statementsFromParallel264
    statementsFromParallel260
  rw [hnamed.extractPartialFields _ _ _ (h.notMem_query (by simp [queries])),
    hnamed.extractPartialFields _ _ _ (h.notMem_query (by simp [queries])),
    hnamed.getParallelFields _ _ _ h880, hnamed.getParallelFields _ _ _ h880]
  rfl

theorem publication_without : publication tools (r.without unused) = publication tools r := by
  unfold publication pubCitationDisplay
  rw [catalogedDate_without h, latinOrNonLatin_without h (by simp [readTags]),
    pubCreatedDisplay_without h hnamed, extractMarcOf_without h (by simp [specLists])]
  rfl

end Dates

section Holdings

include h

theorem formats_without : formats (r.without unused) = formats r := by
  have hread : ["035", "040"] ⊆ readTags := by simp [readTags]
  exact formats_congr rfl rfl fun tag htag => getFields_without (h.notMem (hread htag))

theorem callNumberLabels_without {fieldLabeler : Field → Option String} :
    callNumberLabels fieldLabeler (r.without unused) = callNumberLabels fieldLabeler r := by
  unfold callNumberLabels scsbCallNumberFields almaCallNumberFields
  rw [getFields_without (h.notMem (by simp [readTags]))]
  rfl

theorem locationCodes_without : locationCodes (r.without unused) = locationCodes r := by
  unfold locationCodes firstItem
  rw [getFields_without (h.notMem (by simp [readTags])),
    getFields_without (h.notMem (by simp [readTags]))]
  rfl

theorem recapPartnerNotes_without :
    recapPartnerNotes (r.without unused) = recapPartnerNotes r := by
  unfold recapPartnerNotes RecapPartner.tryFrom collectionGroups
  rw [getFieldValues_without (h.notMem (by simp [readTags])),
    getFieldValues_without (h.notMem (by simp [readTags])),
    getFieldValues_without (h.notMem (by simp [readTags]))]
  rfl

theorem holdings_without : holdings tools (r.without unused) = holdings tools r := by
  unfold holdings callNumberLabelsForBrowse callNumberLabelsForDisplay locationFacet
  simp only [callNumberLabels_without h, formats_without h, locationCodes_without h,
    recapPartnerNotes_without h]

theorem figgy1display_without :
    SolrFields.figgy1display tools (r.without unused) = SolrFields.figgy1display tools r := by
  have hrecord : RedisCache.withRecord (N := N) (fun r => displayFormat (formats r))
      (r.without unused) = RedisCache.withRecord (fun r => displayFormat (formats r)) r := by
    funext item
    unfold RedisCache.withRecord
    simp only [formats_without h]
    rfl
  unfold SolrFields.figgy1display RedisCache.figgyItems
  rw [hrecord]
  rfl

end Holdings

section Contents

variable {r : MarctkRecord}

include h

theorem actionNotes_without {charCase : CharCase} :
    actionNotes charCase (r.without unused) = actionNotes charCase r := by
  have haid : isPrincetonFindingAid (r.toRecord.without unused)
      = isPrincetonFindingAid r.toRecord := by
    rw [isPrincetonFindingAid, getFieldValues_without (h.notMem (by simp [readTags])),
      isPrincetonFindingAid]
  unfold actionNotes
  rw [MarctkRecord.without_toRecord, haid]
  show (r.fields.filter _).filterMap _ = _
  rw [List.filterMap_filter]
  refine List.filterMap_congr fun field _ => ?_
  by_cases hfield : field.tag ∈ unused
  · rw [latinOrNonLatinTagIncludedIn_unused h hfield (by simp [readTags])]
    simp
  · simp only [hfield, not_false_eq_true, decide_true, if_true]
    rfl

include hnamed

theorem contents_without :
    SolrFields.contents tools (r.without unused) = SolrFields.contents tools r := by
  unfold SolrFields.contents accessNotes actionNotes1display originalLanguagesOfTranslation
    tableOfContents coverageDisplay recordLanguageForAssistiveTech simplifiedLanguageCodes
    languageCodes
  rw [actionNotes_without h, MarctkRecord.without_toRecord,
    extractMarc_without h (by simp [readTags]), getFields_without (h.notMem (by simp [readTags]))]
  simp (disch := (unfold queries; simp)) only [hnamed.values_without h,
    hnamed.byIndicator_without h]
  rfl

end Contents

section

include h hnamed

theorem authorRoles_without : Contributors.authorRoles tools.isWord tools.marctk (r.without unused)
    = Contributors.authorRoles tools.isWord tools.marctk r := by
  rw [Contributors.authorRoles, otherAuthorFields_without h,
    hnamed.values_without h (by simp [queries]), Contributors.authorRoles]

theorem contributors_without : contributors tools (r.without unused) = contributors tools r := by
  simp only [contributors, authorCitationDisplay_without h, authorRoles_without h hnamed,
    authorS_without h, authorSortKey_without h, nameTitleBrowseS_without h]

/-- What is found in the fields that are used is found without the others. -/
theorem fieldsInUse_without {r : MarctkRecord} {figgy : Option String} :
    fieldsInUse tools (r.without unused) figgy = fieldsInUse tools r figgy := by
  unfold fieldsInUse
  rw [contents_without h hnamed, MarctkRecord.without_toRecord, extracted_without h,
    trimmed_without h, contributors_without h hnamed, titles_without h, titleDisplay_without h,
    scripts_without h hnamed, subjects_without h hnamed, identifiers_without h hnamed,
    publication_without h hnamed, holdings_without h]

end

end Groups

end Functions

end Bibdata
