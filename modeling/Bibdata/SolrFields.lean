import Bibdata.CallNumber
import Bibdata.Cartography
import Bibdata.CatalogedDate
import Bibdata.Contributors
import Bibdata.Genres
import Bibdata.HoldingLocation
import Bibdata.Identifier
import Bibdata.Languages
import Bibdata.MarcxmlCompressor
import Bibdata.NameTitleBrowse
import Bibdata.Notes
import Bibdata.PartnerHoldings
import Bibdata.Publication
import Bibdata.RedisCache
import Bibdata.SolrJson
import Bibdata.SubjectTerms
import Bibdata.Titles

/-!
# The fields that Rust finds

What `solr_fields` gives Ruby for a record: a hash with a value for each field of the document that
is found in Rust. The configuration of the indexer takes each of them from there, a text or a list
of texts, under the same name. The hash is only looked up in, so its order here is by subject.
-/

namespace Bibdata

/-- A value as Ruby has it. -/
inductive RubyValue
  | nil
  | text (s : String)
  | texts (ts : List String)
  | bool (b : Bool)
  deriving DecidableEq

namespace RubyValue

def ofText : Option String → RubyValue
  | some s => text s
  | none => nil

def ofTexts : Option (List String) → RubyValue
  | some ts => texts ts
  | none => nil

end RubyValue

abbrev RubyHash := List (String × RubyValue)

/-- What the fields are made with, beside the record: crates, tables, what Unicode says of
characters, and the Figgy cache. -/
structure SolrTools (N : Type) where
  marctk : Marctk
  extractFields : String → Record → List Field
  extractFieldsInRange : ℕ → ℕ → Record → List Field
  /-- The queries that ask for a first indicator. -/
  extractByIndicator : String → MarctkRecord → List String
  stdnums : LibraryStdnums
  dates : DateLibrary
  serde : SerdeJson
  gzip : MarcxmlCompressor.Gzip
  toXmlString : MarctkRecord → String
  locations : HoldingLocations
  languages : LanguageTables
  isWord : Char → Bool
  isAlphabetic : Char → Bool
  isAlphanumeric : Char → Bool
  isNumeric : Char → Bool
  isDecimal : Char → Bool
  isCjk : Char → Bool
  charCase : CharCase
  toLowercase : String → String
  figgyCache : FiggyMmsIdCache N
  figgyToString : FiggyItems N → Option String

namespace SolrFields

section Tables

/-- The fields that `extract_marc!` gives as they are. -/
def extractedFields : List (String × List String) :=
  [("alt_title_246_display", ["246abfnp"]),
    ("arrangement_display", ["351abc"]),
    ("bib_ref_notes_display", ["504ab"]),
    ("binding_note_display", ["563au3"]),
    ("biographical_historical_note_display", ["545ab"]),
    ("case_file_notes_display", ["5653abcde"]),
    ("cite_as_display", ["52423a"]),
    ("coden_display", ["030a"]),
    ("compiled_created_display", ["245fg"]),
    ("content_title_index", ["505t"]),
    ("copy_version_notes_display", ["5623abcde"]),
    ("credits_notes_display", ["508a"]),
    ("data_quality_notes_display", ["514abcdefghijkm"]),
    ("date_place_event_notes_display", ["5183adop"]),
    ("description_display", ["254a", "255abcdefg", "3422abcdefghijklmnopqrstuv", "343abcdefghi",
      "352abcdegi", "355abcdefghj", "507ab", "256a", "516a", "753abc", "755axyz", "3003abcefg",
      "362az"]),
    ("description_t", ["254a", "255abcdefg", "3422abcdefghijklmnopqrstuv", "343abcdefghi",
      "352abcdegi", "355abcdefghj", "507ab", "256a", "516a", "753abc", "755axyz", "3003abcefg",
      "515a", "362az"]),
    ("dissertation_notes_display", ["502abcdgo"]),
    ("edition_display", ["250ab"]),
    ("exhibitions_note_display", ["5853a"]),
    ("former_frequency_display", ["321ab"]),
    ("former_title_complex_notes_display", ["547a"]),
    ("frequency_display", ["310ab"]),
    ("funding_info_notes_display", ["536abcdefgh"]),
    ("geo_cov_notes_display", ["522a"]),
    ("info_document_notes_display", ["556a"]),
    ("issn_display", ["022a"]),
    ("issuing_body_notes_display", ["550a"]),
    ("language_display", ["5463a"]),
    ("linked_series_index", ["760acgst", "762acgst"]),
    ("linked_series_title_index", ["765k", "767k", "770k", "772k", "773k", "774k", "775k", "776k",
      "777k", "780k", "785k", "786k", "787k"]),
    ("linked_title_index", ["765st", "767st", "770st", "772st", "773st", "774st", "775st", "776st",
      "777st", "780st", "785st", "786st", "787st"]),
    ("lccn_display", ["010a"]),
    ("linking_notes_display", ["580a"]),
    ("location_originals_notes_display", ["5353abcdg"]),
    ("location_other_arch_notes_display", ["5443abcden"]),
    ("methodology_notes_display", ["567a"]),
    ("notes_display", ["5003a", "590a"]),
    ("numbering_pec_notes_display", ["515a"]),
    ("original_version_notes_display", ["534abcefklmnpt3"]),
    ("other_editions_s", ["775w"]),
    ("other_format_display", ["5303abcd"]),
    ("other_title_index", ["246abfnp", "210ab", "211a", "212a", "214a", "222ab", "242abchnp",
      "243adfklmnoprs", "247abfhnp", "730aplskfmnor", "740ahnp"]),
    ("original_version_series_index", ["534f"]),
    ("participant_performer_display", ["511a"]),
    ("place_name_display", ["752abcd"]),
    ("pub_created_s", ["260abcefg", "264abcefg3"]),
    ("publications_about_display", ["581az36"]),
    ("publisher_no_display", ["028a"]),
    ("projection_display", ["255b", "342a"]),
    ("related_record_info_display", ["776i"]),
    ("reproduction_notes_display", ["5333abcdefmn"]),
    ("restrictions_note_display", ["5063abcde"]),
    ("rights_reproductions_note_display", ["5403abcd"]),
    ("scale_display", ["255a"]),
    ("script_display", ["546b"]),
    ("series_statement_index", ["490avx"]),
    ("sudoc_no_display", ["086a"]),
    ("supplement_notes_display", ["525a"]),
    ("system_details_notes_display", ["5383ai"]),
    ("target_aud_notes_display", ["5213ab"]),
    ("tech_report_no_display", ["027a", "088a"]),
    ("type_period_notes_display", ["513ab"]),
    ("with_notes_display", ["501a"])]

/-- The fields whose texts lose the punctuation at their ends. -/
def trimmedFields : List (String × List String) :=
  [("author_display", ["100aqbcdk", "110abcdfgkln", "111abcdfgklnpq"]),
    ("data_source_display", ["786at"]),
    ("geo_related_record_display", ["772at", "7733abdghikmnoprst", "777at"]),
    ("has_subseries_display", ["762at"]),
    ("has_supplement_display", ["770at"]),
    ("in_display", ["7733abdghikmnoprst"]),
    ("issued_with_display", ["777at"]),
    ("other_editions_display", ["775adhit"]),
    ("subseries_of_display", ["760at"]),
    ("supplement_to_display", ["772at"]),
    ("title_a_index", ["245a"]),
    ("translated_as_display", ["767at"]),
    ("translation_of_display", ["765at"])]

/-- `ExtractSpec::new(spec, scripts).unwrap()` for each of these. -/
def extractMarcOf (scripts : ScriptsToIndex) (specs : List String) (r : Record) : List String :=
  extractMarc (specs.filterMap (ExtractSpec.new · scripts)) r

end Tables

variable {N : Type} (tools : SolrTools N)

section Values

def extracted (r : Record) : RubyHash :=
  extractedFields.map fun (name, specs) => (name, .texts (extractMarcOf .all specs r))

def trimmed (r : Record) : RubyHash :=
  trimmedFields.map fun (name, specs) =>
    (name, .texts ((extractMarcOf .all specs r).map (trimPunctuation tools.isWord)))

def contributors (r : Record) : RubyHash :=
  [("author_citation_display", .texts (Contributors.authorCitationDisplay tools.isWord r)),
    ("author_roles_1display",
      .text ((Contributors.authorRoles tools.isWord tools.marctk r).toText tools.serde)),
    ("author_s", .texts (Contributors.authorS tools.isWord r)),
    ("author_sort_key", .ofText (Contributors.authorSortKey tools.isAlphabetic r)),
    ("name_title_browse_s", .texts (nameTitleBrowseS tools.isWord r))]

def titles (r : Record) : RubyHash :=
  [("contains_title_index", .texts (Titles.containsTitlesIndex tools.isWord r)),
    ("other_title_1display", .ofText (Titles.otherTitle1display tools.isWord tools.serde r)),
    ("other_title_display", .texts (Titles.otherTitlesDisplay r)),
    ("series_title_index", .texts (Titles.seriesTitleIndex tools.isWord r)),
    ("title_245_la", .ofText (Titles.nonLatinTitleSort r)),
    ("title_no_h_index", .texts (Titles.titleNoHIndex r)),
    ("title_sort_key", .ofText (Titles.titleSortKey r)),
    ("title_t", .ofText (latinScriptTitle r)),
    ("title_vern_display", .ofText (Titles.titleVernDisplay r)),
    ("uniform_130_vern", .texts (Titles.uniform130NonLatin r)),
    ("uniform_title_s", .texts (Titles.uniformTitle tools.isWord r))]

/-- It is set only where there is one. -/
def titleDisplay (r : Record) : RubyHash :=
  ((extractMarcOf .latinOnly ["245abcfghknps"] r).head?.map fun title =>
    ("title_display", .text title)).toList

def scripts (r : Record) : RubyHash :=
  [("cjk_all", .texts (cjkAll tools.isCjk r)),
    ("cjk_author", .texts (cjkAuthors tools.isCjk tools.isWord r)),
    ("cjk_notes", .texts (notesCjk tools.isCjk tools.extractFieldsInRange r)),
    ("cjk_series_title", .texts (cjkSeriesTitles tools.isCjk tools.isWord r)),
    ("cjk_subject", .texts (subjectsCjk tools.isCjk r)),
    ("cjk_title", .texts (cjkTitles tools.isCjk tools.isWord r)),
    ("non_latin_non_cjk_all_index", .texts (nonLatinNonCjkAll tools.isCjk r)),
    ("non_latin_non_cjk_author_index", .texts (nonLatinNonCjkAuthors tools.isCjk tools.isWord r)),
    ("non_latin_non_cjk_series_title_index",
      .texts (nonLatinNonCjkSeriesTitles tools.isCjk tools.isWord r)),
    ("non_latin_non_cjk_title_index", .texts (nonLatinNonCjkTitles tools.isCjk tools.isWord r))]

def subjects (r : Record) : RubyHash :=
  [("aat_s", .texts (aatS tools.isWord r)),
    ("fast_subject_display", .texts (fastSubjects r)),
    ("genre_facet", .texts (genres tools.marctk tools.extractFields tools.isWord
      tools.isAlphanumeric tools.toLowercase r)),
    ("homoit_genre_s", .texts (homoitGenreS tools.isWord r)),
    ("icpsr_subject_unstem_search", .texts (icpsrSubjects tools.isWord r)),
    ("lcgft_s", .texts (lcgftS tools.isWord r)),
    ("rbgenr_genre_facet", .texts (rbgenrGenreFacet tools.isWord r)),
    ("rbgenr_s", .texts (rbgenrS tools.isWord r)),
    ("siku_subject_display", .texts (sikuSubjectsDisplay tools.isWord r)),
    ("subject_era_facet", .texts (subjectEraFacet tools.isDecimal r))]

def identifiers (r : Record) : RubyHash :=
  [("id", .ofText r.controlNumber),
    ("isbn_display", .texts (isbnDisplay r)),
    ("isbn_s", .texts (normalizedIsbns tools.stdnums tools.marctk r)),
    ("issn_s", .texts (normalizedIssns tools.stdnums tools.marctk r)),
    ("lccn_s", .texts (normalizedLccns tools.stdnums tools.marctk r)),
    ("numeric_id_b", .bool (match ControlNumber.ofRecord r with
      | .alma _ => true
      | _ => false)),
    ("oclc_s", .texts (oclcNumbersNumeric tools.isNumeric tools.isDecimal tools.marctk r)),
    ("other_id_s", .ofText (otherId r)),
    ("other_version_s", .texts (identifiersOfAllVersions tools.isNumeric tools.isDecimal
      tools.stdnums tools.marctk r)),
    ("standard_no_index", .texts (standardNumbers r)),
    ("text", .texts (extractMarcOf .all ["024a"] r))]

def publication (r : Record) : RubyHash :=
  let beginYear := (beginDate tools.isNumeric tools.isDecimal r).bind Date.beginToString
  let endYear := (endDate tools.isNumeric tools.isDecimal r).bind Date.endToString
  [("cataloged_tdt", .ofText (catalogedDate r tools.dates)),
    ("pub_citation_display", .texts (pubCitationDisplay tools.isWord r)),
    ("pub_created_display",
      .texts (pubCreatedDisplay tools.marctk tools.isNumeric tools.isDecimal r)),
    ("pub_created_vern_display",
      .texts (extractMarcOf .nonLatinOnly ["260abcefg", "264abcefg3"] r)),
    ("pub_date_display", .ofText beginYear),
    ("pub_date_start_sort", .ofText beginYear),
    ("pub_date_end_sort", .ofText endYear),
    ("publication_date_citation_display",
      .ofText (publicationDateCitationDisplay tools.isNumeric tools.isDecimal r))]

def holdings (r : Record) : RubyHash :=
  [("call_number_browse_s", .texts (callNumberLabelsForBrowse r)),
    ("call_number_display", .texts (callNumberLabelsForDisplay r)),
    ("format", .texts (formats r)),
    ("location", .ofTexts (locationFacet tools.locations r)),
    ("recap_notes_display", .texts (recapPartnerNotes r))]

def contents (r : MarctkRecord) : RubyHash :=
  [("access_restrictions_note_display",
      .ofTexts (accessNotes tools.extractByIndicator r)),
    ("action_notes_1display", .texts (actionNotes1display tools.charCase tools.serde r)),
    ("contents_display", .texts (tableOfContents r.toRecord)),
    ("coverage_display", .ofText (coverageDisplay r.toRecord)),
    ("language_iana_s",
      .text (recordLanguageForAssistiveTech tools.languages tools.marctk r.toRecord)),
    ("mult_languages_iana_s",
      .texts (simplifiedLanguageCodes tools.languages tools.marctk r.toRecord)),
    ("original_language_of_translation_facet",
      .texts ((originalLanguagesOfTranslation tools.languages tools.extractByIndicator r).map
        (·.englishName)))]

/-- What every field of the record has a part in. -/
def wholeRecord (r : MarctkRecord) : RubyHash :=
  [("marcxml", .text (MarcxmlCompressor.marcxmlCompressed tools.gzip tools.toXmlString r)),
    ("original_language_display", .texts (unmatchedParallelStrings r.toRecord))]

/-- The items of the cache with the format and the id of the record; `none` is a panic. -/
def figgy1display (r : Record) : Option (Option String) :=
  (RedisCache.figgyItems (fun r => displayFormat (formats r)) r tools.figgyCache).map
    (·.bind tools.figgyToString)

end Values

/-- What is the same for every record with the same fields in use. -/
def fieldsInUse (r : MarctkRecord) (figgy : Option String) : RubyHash :=
  ("figgy_1display", .ofText figgy) :: extracted r.toRecord ++ trimmed tools r.toRecord
    ++ contributors tools r.toRecord ++ titles tools r.toRecord ++ titleDisplay r.toRecord
    ++ scripts tools r.toRecord ++ subjects tools r.toRecord ++ identifiers tools r.toRecord
    ++ publication tools r.toRecord ++ holdings tools r.toRecord ++ contents tools r

def solrFields (r : MarctkRecord) : Option RubyHash :=
  (figgy1display tools r.toRecord).map fun figgy => fieldsInUse tools r figgy ++ wholeRecord tools r

end SolrFields

section Configuration

/-- A name that the hash does not have gives `nil`. -/
def RubyHash.get (hash : RubyHash) (name : String) : RubyValue :=
  ((hash.find? (·.1 = name)).map Prod.snd).getD .nil

def rustSingleValueFields : List String :=
  ["id", "other_id_s", "figgy_1display", "author_sort_key", "author_roles_1display",
    "title_display", "title_vern_display", "title_sort_key", "title_245_la", "title_t",
    "pub_date_display", "pub_date_start_sort", "pub_date_end_sort",
    "publication_date_citation_display", "cataloged_tdt", "coverage_display", "language_iana_s",
    "other_title_1display"]

def rustMultiValueFields : List String :=
  ["cjk_all", "non_latin_non_cjk_all_index", "cjk_notes", "author_display",
    "author_citation_display", "cjk_author", "non_latin_non_cjk_author_index", "author_s",
    "uniform_title_s", "title_a_index", "title_no_h_index", "series_title_index",
    "series_statement_index", "content_title_index", "contains_title_index", "linked_title_index",
    "linked_series_title_index", "linked_series_index", "original_version_series_index",
    "cjk_title", "non_latin_non_cjk_title_index", "cjk_series_title",
    "non_latin_non_cjk_series_title_index", "compiled_created_display", "edition_display",
    "pub_created_vern_display", "pub_created_display", "pub_created_s", "pub_citation_display",
    "format", "description_display", "description_t", "scale_display", "projection_display",
    "arrangement_display", "translation_of_display", "translated_as_display",
    "issued_with_display", "frequency_display", "former_frequency_display",
    "has_supplement_display", "supplement_to_display", "linking_notes_display",
    "subseries_of_display", "has_subseries_display", "geo_related_record_display",
    "other_editions_s", "related_record_info_display", "restrictions_note_display",
    "biographical_historical_note_display", "notes_display", "with_notes_display",
    "dissertation_notes_display", "bib_ref_notes_display", "credits_notes_display",
    "type_period_notes_display", "data_quality_notes_display", "numbering_pec_notes_display",
    "date_place_event_notes_display", "target_aud_notes_display", "geo_cov_notes_display",
    "supplement_notes_display", "reproduction_notes_display", "original_version_notes_display",
    "location_originals_notes_display", "funding_info_notes_display",
    "system_details_notes_display", "location_other_arch_notes_display",
    "former_title_complex_notes_display", "issuing_body_notes_display",
    "info_document_notes_display", "copy_version_notes_display", "case_file_notes_display",
    "methodology_notes_display", "binding_note_display", "rights_reproductions_note_display",
    "exhibitions_note_display", "participant_performer_display", "language_display",
    "original_language_of_translation_facet", "script_display", "mult_languages_iana_s",
    "contents_display", "publications_about_display", "action_notes_1display", "cite_as_display",
    "other_format_display", "siku_subject_display", "icpsr_subject_unstem_search",
    "homoit_genre_s", "lcgft_s", "aat_s", "rbgenr_s", "rbgenr_genre_facet", "cjk_subject",
    "genre_facet", "place_name_display", "other_title_index", "other_title_display",
    "alt_title_246_display", "in_display", "other_editions_display", "data_source_display",
    "isbn_display", "issn_display", "sudoc_no_display", "tech_report_no_display",
    "publisher_no_display", "lccn_display", "coden_display", "text", "issn_s", "lccn_s", "isbn_s",
    "oclc_s", "standard_no_index", "other_version_s", "original_language_display",
    "subject_era_facet", "recap_notes_display", "access_restrictions_note_display", "location",
    "uniform_130_vern", "name_title_browse_s", "call_number_display", "call_number_browse_s"]

/-- What one `to_field` accumulates. -/
abbrev Accumulator := List RubyValue

/-- `accumulator << value if value`. -/
def rustSingleValueField (hash : RubyHash) (name : String) : Accumulator :=
  match hash.get name with
  | .nil | .bool false => []
  | value => [value]

/-- `accumulator.replace value`, which raises where it is no array. -/
def accumulatorReplace : RubyValue → Option Accumulator
  | .texts ts => some (ts.map .text)
  | _ => none

/-- `accumulator.replace value if value`. -/
def rustMultiValueField (hash : RubyHash) (name : String) : Option Accumulator :=
  match hash.get name with
  | .nil | .bool false => some []
  | value => accumulatorReplace value

/-- What the configuration accumulates from the hash, rule by rule; `none` is a `TypeError`. What
the indexer and later rules make of the accumulators is not part of it. -/
def rustFields (isScsb : Bool) (hash : RubyHash) : Option (List (String × Accumulator)) := do
  let multi ← rustMultiValueFields.mapM fun name =>
    (rustMultiValueField hash name).map (name, ·)
  let fastSubjects ← accumulatorReplace (hash.get "fast_subject_display")
  some (rustSingleValueFields.map (fun name => (name, rustSingleValueField hash name)) ++ multi
    ++ [("marcxml", if isScsb then [hash.get "marcxml"] else []),
      ("numeric_id_b", [hash.get "numeric_id_b"]),
      ("fast_subject_facet", fastSubjects), ("fast_subject_display", fastSubjects)])

end Configuration

end Bibdata
