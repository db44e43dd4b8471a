import Bibdata.SolrJson
import Bibdata.Subject
import Bibdata.Theses

/-!
# Ephemera folders

A folder as Figgy describes it, and its Solr document.
-/

namespace Bibdata

open Json

section Vocabularies

structure Coverage where
  exactMatch : Option String
  label : String

structure OriginPlace where
  exactMatch : Option String
  label : String

structure FolderSubject where
  exactMatch : Option String
  label : String

def acceptedVocabulary (id : String) : Bool :=
  startsWith id "http://id.loc.gov/vocabulary/countries/"

variable (serde : SerdeJson)

/-- One id, or the text of an array of them. -/
def subjectIds (id : String) : Option (List String) :=
  if startsWith id "[" then (serde.fromStr id).bind (readList readString) else some [id]

def acceptedLocVocabulary (id : String) : Bool :=
  (subjectIds serde id).any fun ids => ids.any (startsWith · "http://id.loc.gov")

def acceptedHomoitVocabulary (id : String) : Bool :=
  (subjectIds serde id).any fun ids => ids.any (startsWith · "https://homosaurus.org/")

end Vocabularies

structure Thumbnail where
  thumbnailUrl : String

def Thumbnail.normalizedUrl (thumbnail : Thumbnail) : String :=
  thumbnail.thumbnailUrl.replace "/full/!200,150/0/default.jpg" "/square/225,/0/default.jpg"

def Thumbnail.fromJson (v : Json) : Option Thumbnail := do
  let members ← fields ["@id"] v
  let thumbnailUrl ← readRequired members "@id" readString
  return { thumbnailUrl }

structure EphemeraFolder where
  alternative : Option (List String) := none
  creator : Option (List String) := none
  contributor : Option (List String) := none
  coverage : Option (List Coverage) := none
  dateCreated : Option (List String) := none
  description : Option (List String) := none
  format : Option (List (Option FormatFacet)) := none
  id : String
  language : Option (List String) := none
  origin : Option (List OriginPlace) := none
  pageCount : Option String := none
  provenance : Option String := none
  publisher : Option (List String) := none
  subject : Option (List FolderSubject) := none
  sortTitle : Option (List String) := none
  thumbnail : Option Thumbnail := none
  title : List String
  transliteratedTitle : Option (List String) := none

namespace EphemeraFolder

variable (serde : SerdeJson) (folder : EphemeraFolder)

def thumbnailUrl : Option String := folder.thumbnail.map (·.normalizedUrl)

def solrFormats : List FormatFacet := (folder.format.getD []).filterMap fun label => label

def coverageLabels : List String :=
  ((folder.coverage.getD []).filter fun coverage => coverage.exactMatch.any acceptedVocabulary).map
    (·.label)

def originPlaceLabels : List String :=
  ((folder.origin.getD []).filter fun origin => origin.exactMatch.any acceptedVocabulary).map
    (·.label)

def homoitSubjectLabels : Option (List String) :=
  folder.subject.map fun subjects =>
    (subjects.filter fun s => s.exactMatch.any (acceptedHomoitVocabulary serde)).map (·.label)

def lcshTopicSubjects : List String :=
  ((folder.subject.getD []).filter fun s => s.exactMatch.any (acceptedLocVocabulary serde)).map
    (·.label)

def lcSubjectLabels : Option (List String) :=
  let subjects := folder.lcshTopicSubjects serde ++ folder.coverageLabels
  if subjects.isEmpty then none else some subjects

def groupContributors : AuthorRoles where
  primaryAuthor := folder.creator.bind List.head?
  secondaryAuthors := folder.contributor.getD []
  translators := []
  editors := []
  compilers := []

def allContributors : List String := folder.creator.getD [] ++ folder.contributor.getD []

def dateCreatedYear : Option Int16 :=
  folder.dateCreated.bind fun dates => dates.findSome? fun date =>
    (firstBytes 4 date.toList).bind fun year => parseI16 (String.ofList year)

def otherTitleDisplayCombined : List String :=
  folder.alternative.getD [] ++ folder.transliteratedTitle.getD []

def concatPageCount : List String := (folder.pageCount.map ("pages: " ++ ·)).toList

def dateCreatedPublisherCombined : List String :=
  folder.dateCreated.getD [] ++ folder.publisher.getD []

def originPlacePublisherDateCreatedCombined : List String :=
  let origin := folder.originPlaceLabels.head?.getD ""
  let publisher := (folder.publisher.getD []).head?.getD ""
  let date := (folder.dateCreated.getD []).head?.getD ""
  if origin ≠ "" ∨ publisher ≠ "" ∨ date ≠ "" then
    let s := origin
    let s := if publisher ≠ "" then (if s ≠ "" then s ++ ": " else s) ++ publisher else s
    let s := if date ≠ "" then (if s ≠ "" then s ++ ", " else s) ++ date else s
    [s]
  else []

def firstSortTitle : Option String := (folder.sortTitle.getD folder.title).head?

def normalizedId : String := trim ((splitChar '/' folder.id).getLast?.getD folder.id)

def electronicAccess : ElectronicAccess where
  url := "https://catalog.princeton.edu/catalog/" ++ folder.normalizedId ++ "#view"
  linkText := "Digital content"
  linkDescription := none
  iiifManifestPaths := some
    ("https://figgy.princeton.edu/concern/ephemera_folders/" ++ folder.normalizedId ++ "/manifest")

end EphemeraFolder

/-- `From<&EphemeraFolder>`. -/
def SolrDocument.ofEphemeraFolder (serde : SerdeJson) (folder : EphemeraFolder) :
    SolrDocument where
  accessFacet := some .online
  authorDisplay := some folder.allContributors
  authorRoles1display := some folder.groupContributors
  authorS := some (folder.creator.getD [])
  authorSortKey := folder.creator.bind List.head?
  authorCitationDisplay := folder.creator
  descriptionDisplay := some folder.concatPageCount
  electronicAccess1display := some folder.electronicAccess
  format := some folder.solrFormats
  geographicFacet := some folder.coverageLabels
  homoitSubjectDisplay := some ((folder.homoitSubjectLabels serde).getD [])
  homoitSubjectFacet := some ((folder.homoitSubjectLabels serde).getD [])
  id := folder.normalizedId
  languageFacet := folder.language.getD []
  languageNameDisplay := folder.language.getD []
  lcSubjectDisplay := some ((folder.lcSubjectLabels serde).getD [])
  lcSubjectFacet := some ((folder.lcSubjectLabels serde).getD [])
  notesDisplay := folder.description
  otherTitleDisplay := some folder.otherTitleDisplayCombined
  provenanceDisplay := folder.provenance
  pubCitationDisplay := some folder.originPlacePublisherDateCreatedCombined
  pubDateDisplay := some folder.dateCreatedPublisherCombined
  pubDateStartSort := folder.dateCreatedYear
  pubCreatedDisplay := some folder.originPlacePublisherDateCreatedCombined
  publisherNoDisplay := folder.publisher
  publisherCitationDisplay := folder.publisher
  titleDisplay := folder.title.head?
  titleSortKey := folder.firstSortTitle
  titleCitationDisplay := folder.title.head?
  thumbnailDisplay := folder.thumbnailUrl

end Bibdata
