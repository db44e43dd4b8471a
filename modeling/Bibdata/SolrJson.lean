import Bibdata.Library.JsonRecords
import Bibdata.SerdeJson
import Bibdata.SolrDocument
import Bibdata.Strings

/-!
# Solr documents as JSON

The roles of the authors and the electronic access are written as texts that are JSON themselves.
The format is read as the name of a Figgy genre. `toLowercase` is `str::to_lowercase`.
-/

namespace Bibdata

open Json

variable (serde : SerdeJson) (toLowercase : String → String)

section Facets

/-- The name of a variant that has no data. -/
def unitVariant : Json → Option String
  | .str s => some s
  | .obj [(s, .null)] => some s
  | _ => none

def AccessFacet.toText : AccessFacet → String
  | inTheLibrary => "In the Library"
  | online => "Online"

def AccessFacet.toJson (facet : AccessFacet) : Json := .str facet.toText

def AccessFacet.fromJson (v : Json) : Option AccessFacet :=
  match unitVariant v with
  | some "In the Library" => some inTheLibrary
  | some "Online" => some online
  | _ => none

def LibraryFacet.toText : LibraryFacet → String
  | annex => "Forrestal Annex"
  | architecture => "Architecture Library"
  | eastAsian => "East Asian Library"
  | engineering => "Engineering Library"
  | firestone => "Firestone Library"
  | lewis => "Lewis Library"
  | marquand => "Marquand Library"
  | mendel => "Mendel Music Library"
  | mudd => "Mudd Manuscript Library"
  | pppl => "Harold P. Furth Plasma Physics Library"
  | recap => "ReCAP"
  | specialCollections => "Special Collections"
  | stokes => "Stokes Library"

def LibraryFacet.toJson (facet : LibraryFacet) : Json := .str facet.toText

def LibraryFacet.fromJson (v : Json) : Option LibraryFacet :=
  match unitVariant v with
  | some "Forrestal Annex" => some annex
  | some "Architecture Library" => some architecture
  | some "East Asian Library" => some eastAsian
  | some "Engineering Library" => some engineering
  | some "Firestone Library" => some firestone
  | some "Lewis Library" => some lewis
  | some "Marquand Library" => some marquand
  | some "Mendel Music Library" => some mendel
  | some "Mudd Manuscript Library" => some mudd
  | some "Harold P. Furth Plasma Physics Library" => some pppl
  | some "ReCAP" => some recap
  | some "Special Collections" => some specialCollections
  | some "Stokes Library" => some stokes
  | _ => none

def FormatFacet.toJson (facet : FormatFacet) : Json := .str facet.toText

/-- `FromStr`. -/
def FormatFacet.fromStr (s : String) : Option FormatFacet :=
  match toLowercase s with
  | "advertisements" => some book
  | "audio recordings" => some audio
  | "bags" => some book
  | "banners" => some book
  | "booklets" => some book
  | "bookmarks" => some book
  | "book" => some book
  | "books" => some book
  | "brochures" => some book
  | "business cards" => some book
  | "buttons" => some book
  | "calendars" => some book
  | "caricatures" => some book
  | "correspondence" => some book
  | "court decisions and opinions" => some coin
  | "data files" => some dataFile
  | "electoral paraphernalia" => some book
  | "ephemera" => some book
  | "fans" => some book
  | "flags" => some book
  | "flyers" => some book
  | "forms" => some book
  | "games" => some book
  | "headscarves" => some visualMaterial
  | "leaflets" => some book
  | "magnets" => some visualMaterial
  | "manuscripts" => some manuscript
  | "maps" => some map
  | "masks" => some book
  | "montages" => some book
  | "new clippings" => some book
  | "newsletters" => some book
  | "newspapers" => some journal
  | "paintings" => some visualMaterial
  | "pamphlets" => some book
  | "pedagogical materials" => some book
  | "pennants" => some book
  | "periodical" => some journal
  | "photographs" => some visualMaterial
  | "picket signs" => some book
  | "posters" => some visualMaterial
  | "postcards" => some book
  | "report" | "reports" => some report
  | "serials" => some journal
  | "series" => some book
  | "stickers" => some book
  | "t-shirts" => some book
  | "video recordings" => some videoProjectedMedium
  | "senior thesis" => some seniorThesis
  | _ => none

def FormatFacet.fromJson (v : Json) : Option FormatFacet :=
  (readString v).bind (fromStr toLowercase)

end Facets

section AuthorRoles

namespace AuthorRoles

def entries (roles : AuthorRoles) : List (String × Option Json) :=
  [("primary_author", roles.primaryAuthor.map .str),
    ("secondary_authors", some (strings roles.secondaryAuthors)),
    ("translators", some (strings roles.translators)),
    ("editors", some (strings roles.editors)),
    ("compilers", some (strings roles.compilers))]

/-- `Display`. -/
def toText (roles : AuthorRoles) : String := serde.toString (.obj (kept roles.entries))

def toJson (roles : AuthorRoles) : Json := .str (roles.toText serde)

def fieldNames : List String :=
  ["primary_author", "secondary_authors", "translators", "editors", "compilers"]

def fromJson (v : Json) : Option AuthorRoles := do
  let members ← fields fieldNames v
  let primaryAuthor ← readOptional members "primary_author" readString
  let secondaryAuthors ← readRequired members "secondary_authors" (readList readString)
  let translators ← readRequired members "translators" (readList readString)
  let editors ← readRequired members "editors" (readList readString)
  let compilers ← readRequired members "compilers" (readList readString)
  return { primaryAuthor, secondaryAuthors, translators, editors, compilers }

end AuthorRoles

end AuthorRoles

section ElectronicAccess

namespace ElectronicAccess

/-- To put an entry that is there at a place past the end is a panic. -/
def hash (access : ElectronicAccess) : Option (List (String × Json)) :=
  let notes := strings (access.linkText :: access.linkDescription.toList)
  match access.iiifManifestPaths with
  | none => some [(access.url, notes)]
  | some iiifUrl =>
    if access.url = "iiif_manifest_paths" then none
    else some [(access.url, notes), ("iiif_manifest_paths", .obj [("ephemera_ark", .str iiifUrl)])]

def toJson (access : ElectronicAccess) : Option Json :=
  access.hash.map fun hash => .str (serde.toString (.obj hash))

def IsReserved (key : String) : Prop := key = "iiif_manifest_paths" ∨ key = "digital_content_url"

instance (key : String) : Decidable (IsReserved key) :=
  inferInstanceAs (Decidable (key = "iiif_manifest_paths" ∨ key = "digital_content_url"))

def iiifManifestUrl (map : List (String × Json)) : Option String :=
  match map.lookup "iiif_manifest_paths" with
  | some (.obj paths) => (paths.lookup "ephemera_ark").bind readString
  | _ => none

def ofMap (map : List (String × Json)) : Option ElectronicAccess :=
  match map.find? fun entry => ¬IsReserved entry.1 with
  | some (url, .arr notes) =>
    (notes[0]?.bind readString).map fun linkText =>
      { url, linkText, linkDescription := notes[1]?.bind readString,
        iiifManifestPaths := iiifManifestUrl map }
  | _ => none

def fromJson : Json → Option ElectronicAccess
  | .str s =>
    match serde.fromStr s with
    | some (.obj map) => ofMap map
    | _ => none
  | _ => none

end ElectronicAccess

end ElectronicAccess

namespace SolrDocument

def i16 (n : Int16) : Json := .int n.toInt

def i16s (ns : List Int16) : Json := .arr (ns.map i16)

def formats (facets : List FormatFacet) : Json := .arr (facets.map FormatFacet.toJson)

def readI16 : Json → Option Int16
  | .int n => if -32768 ≤ n ∧ n < 32768 then some (Int16.ofInt n) else none
  | _ => none

/-- The members, with the roles and the access as they are written. -/
def entries (authorRoles electronicAccess : Option Json) (d : SolrDocument) :
    List (String × Option Json) :=
  [("advanced_location_s", d.advancedLocationS.map strings),
    ("access_facet", d.accessFacet.map AccessFacet.toJson),
    ("advisor_display", d.advisorDisplay.map strings),
    ("author_citation_display", d.authorCitationDisplay.map strings),
    ("author_display", d.authorDisplay.map strings),
    ("author_roles_1display", authorRoles),
    ("author_s", d.authorS.map strings),
    ("author_sort_key", some (nullable .str d.authorSortKey)),
    ("call_number_browse_s", some (.str d.callNumberBrowseS)),
    ("call_number_display", some (.str d.callNumberDisplay)),
    ("certificate_display", d.certificateDisplay.map strings),
    ("class_year_s", d.classYearS.map i16s),
    ("contributor_display", d.contributorDisplay.map strings),
    ("department_display", d.departmentDisplay.map strings),
    ("description_display", d.descriptionDisplay.map strings),
    ("electronic_access_1display", some (electronicAccess.getD .null)),
    ("electronic_portfolio_s", d.electronicPortfolioS.map .str),
    ("format", some (nullable formats d.format)),
    ("geographic_facet", d.geographicFacet.map strings),
    ("holdings_1display", d.holdings1display.map .str),
    ("homoit_subject_display", some (nullable strings d.homoitSubjectDisplay)),
    ("homoit_subject_facet", some (nullable strings d.homoitSubjectFacet)),
    ("id", some (.str d.id)),
    ("language_facet", some (strings d.languageFacet)),
    ("language_name_display", some (strings d.languageNameDisplay)),
    ("lc_subject_display", some (nullable strings d.lcSubjectDisplay)),
    ("lc_subject_facet", some (nullable strings d.lcSubjectFacet)),
    ("location", d.location.map LibraryFacet.toJson),
    ("location_display", d.locationDisplay.map .str),
    ("location_code_s", d.locationCodeS.map .str),
    ("notes_display", d.notesDisplay.map strings),
    ("other_title_display", d.otherTitleDisplay.map strings),
    ("provenance_display", d.provenanceDisplay.map .str),
    ("pub_citation_display", d.pubCitationDisplay.map strings),
    ("pub_created_display", d.pubCreatedDisplay.map strings),
    ("pub_date_display", d.pubDateDisplay.map strings),
    ("pub_date_end_sort", d.pubDateEndSort.map i16),
    ("pub_date_start_sort", d.pubDateStartSort.map i16),
    ("publisher_citation_display", d.publisherCitationDisplay.map strings),
    ("publisher_no_display", d.publisherNoDisplay.map strings),
    ("restrictions_display_text", d.restrictionsDisplayText.map strings),
    ("restrictions_note_display", d.restrictionsNoteDisplay.map strings),
    ("summary_note_display", d.summaryNoteDisplay.map strings),
    ("thumbnail_display", d.thumbnailDisplay.map .str),
    ("title_citation_display", some (nullable .str d.titleCitationDisplay)),
    ("title_display", some (nullable .str d.titleDisplay)),
    ("title_sort_key", some (nullable .str d.titleSortKey)),
    ("title_t", some (nullable strings d.titleT))]

def fieldNames : List String := (entries none none {}).map Prod.fst

def toJson (d : SolrDocument) : Option Json :=
  match d.electronicAccess1display with
  | none => some (.obj (kept (d.entries (d.authorRoles1display.map (·.toJson serde)) none)))
  | some access => (access.toJson serde).map fun v =>
    .obj (kept (d.entries (d.authorRoles1display.map (·.toJson serde)) (some v)))

def fromJson (v : Json) : Option SolrDocument := do
  let members ← fields fieldNames v
  let advancedLocationS ← readOptional members "advanced_location_s" (readList readString)
  let accessFacet ← readOptional members "access_facet" AccessFacet.fromJson
  let advisorDisplay ← readOptional members "advisor_display" (readList readString)
  let authorCitationDisplay ← readOptional members "author_citation_display" (readList readString)
  let authorDisplay ← readOptional members "author_display" (readList readString)
  let authorRoles1display ← readOptional members "author_roles_1display" AuthorRoles.fromJson
  let authorS ← readOptional members "author_s" (readList readString)
  let authorSortKey ← readOptional members "author_sort_key" readString
  let callNumberBrowseS ← readRequired members "call_number_browse_s" readString
  let callNumberDisplay ← readRequired members "call_number_display" readString
  let certificateDisplay ← readOptional members "certificate_display" (readList readString)
  let classYearS ← readOptional members "class_year_s" (readList readI16)
  let contributorDisplay ← readOptional members "contributor_display" (readList readString)
  let departmentDisplay ← readOptional members "department_display" (readList readString)
  let descriptionDisplay ← readOptional members "description_display" (readList readString)
  let electronicAccess1display ←
    readOptional members "electronic_access_1display" (ElectronicAccess.fromJson serde)
  let electronicPortfolioS ← readOptional members "electronic_portfolio_s" readString
  let format ← readOptional members "format" (readList (FormatFacet.fromJson toLowercase))
  let geographicFacet ← readOptional members "geographic_facet" (readList readString)
  let holdings1display ← readOptional members "holdings_1display" readString
  let homoitSubjectDisplay ← readOptional members "homoit_subject_display" (readList readString)
  let homoitSubjectFacet ← readOptional members "homoit_subject_facet" (readList readString)
  let id ← readRequired members "id" readString
  let languageFacet ← readRequired members "language_facet" (readList readString)
  let languageNameDisplay ← readRequired members "language_name_display" (readList readString)
  let lcSubjectDisplay ← readOptional members "lc_subject_display" (readList readString)
  let lcSubjectFacet ← readOptional members "lc_subject_facet" (readList readString)
  let location ← readOptional members "location" LibraryFacet.fromJson
  let locationDisplay ← readOptional members "location_display" readString
  let locationCodeS ← readOptional members "location_code_s" readString
  let notesDisplay ← readOptional members "notes_display" (readList readString)
  let otherTitleDisplay ← readOptional members "other_title_display" (readList readString)
  let provenanceDisplay ← readOptional members "provenance_display" readString
  let pubCitationDisplay ← readOptional members "pub_citation_display" (readList readString)
  let pubCreatedDisplay ← readOptional members "pub_created_display" (readList readString)
  let pubDateDisplay ← readOptional members "pub_date_display" (readList readString)
  let pubDateEndSort ← readOptional members "pub_date_end_sort" readI16
  let pubDateStartSort ← readOptional members "pub_date_start_sort" readI16
  let publisherCitationDisplay ←
    readOptional members "publisher_citation_display" (readList readString)
  let publisherNoDisplay ← readOptional members "publisher_no_display" (readList readString)
  let restrictionsDisplayText ←
    readOptional members "restrictions_display_text" (readList readString)
  let restrictionsNoteDisplay ←
    readOptional members "restrictions_note_display" (readList readString)
  let summaryNoteDisplay ← readOptional members "summary_note_display" (readList readString)
  let thumbnailDisplay ← readOptional members "thumbnail_display" readString
  let titleCitationDisplay ← readOptional members "title_citation_display" readString
  let titleDisplay ← readOptional members "title_display" readString
  let titleSortKey ← readOptional members "title_sort_key" readString
  let titleT ← readOptional members "title_t" (readList readString)
  return {
    advancedLocationS, accessFacet, advisorDisplay, authorCitationDisplay, authorDisplay,
    authorRoles1display, authorS, authorSortKey, callNumberBrowseS, callNumberDisplay,
    certificateDisplay, classYearS, contributorDisplay, departmentDisplay, descriptionDisplay,
    electronicAccess1display, electronicPortfolioS, format, geographicFacet, holdings1display,
    homoitSubjectDisplay, homoitSubjectFacet, id, languageFacet, languageNameDisplay,
    lcSubjectDisplay, lcSubjectFacet, location, locationDisplay, locationCodeS, notesDisplay,
    otherTitleDisplay, provenanceDisplay, pubCitationDisplay, pubCreatedDisplay, pubDateDisplay,
    pubDateEndSort, pubDateStartSort, publisherCitationDisplay, publisherNoDisplay,
    restrictionsDisplayText, restrictionsNoteDisplay, summaryNoteDisplay, thumbnailDisplay,
    titleCitationDisplay, titleDisplay, titleSortKey, titleT }

/-- `to_string` of one document. -/
def toText (d : SolrDocument) : Option String := (d.toJson serde).map serde.toString

/-- `from_str`. -/
def fromText (s : String) : Option SolrDocument :=
  (serde.fromStr s).bind (fromJson serde toLowercase)

end SolrDocument

end Bibdata
