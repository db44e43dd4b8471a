import Bibdata.Formats

/-!
# Solr documents

What the theses and the ephemera are indexed as. A document is built with the fields that are set
and the others empty.
-/

namespace Bibdata

inductive AccessFacet
  | inTheLibrary
  | online
  deriving DecidableEq

inductive LibraryFacet
  | annex
  | architecture
  | eastAsian
  | engineering
  | firestone
  | lewis
  | marquand
  | mendel
  | mudd
  | pppl
  | recap
  | specialCollections
  | stokes
  deriving DecidableEq

structure AuthorRoles where
  primaryAuthor : Option String := none
  secondaryAuthors : List String := []
  translators : List String := []
  editors : List String := []
  compilers : List String := []
  deriving DecidableEq

/-- A link as a Solr document has it. -/
structure ElectronicAccess where
  url : String
  linkText : String
  linkDescription : Option String
  iiifManifestPaths : Option String
  deriving DecidableEq

structure SolrDocument where
  advancedLocationS : Option (List String) := none
  accessFacet : Option AccessFacet := none
  advisorDisplay : Option (List String) := none
  authorCitationDisplay : Option (List String) := none
  authorDisplay : Option (List String) := none
  authorRoles1display : Option AuthorRoles := none
  authorS : Option (List String) := none
  authorSortKey : Option String := none
  callNumberBrowseS : String := ""
  callNumberDisplay : String := ""
  certificateDisplay : Option (List String) := none
  classYearS : Option (List Int16) := none
  contributorDisplay : Option (List String) := none
  departmentDisplay : Option (List String) := none
  descriptionDisplay : Option (List String) := none
  electronicAccess1display : Option ElectronicAccess := none
  electronicPortfolioS : Option String := none
  format : Option (List FormatFacet) := none
  geographicFacet : Option (List String) := none
  holdings1display : Option String := none
  homoitSubjectDisplay : Option (List String) := none
  homoitSubjectFacet : Option (List String) := none
  id : String := ""
  languageFacet : List String := []
  languageNameDisplay : List String := []
  lcSubjectDisplay : Option (List String) := none
  lcSubjectFacet : Option (List String) := none
  location : Option LibraryFacet := none
  locationDisplay : Option String := none
  locationCodeS : Option String := none
  notesDisplay : Option (List String) := none
  otherTitleDisplay : Option (List String) := none
  provenanceDisplay : Option String := none
  pubCitationDisplay : Option (List String) := none
  pubCreatedDisplay : Option (List String) := none
  pubDateDisplay : Option (List String) := none
  pubDateEndSort : Option Int16 := none
  pubDateStartSort : Option Int16 := none
  publisherCitationDisplay : Option (List String) := none
  publisherNoDisplay : Option (List String) := none
  restrictionsDisplayText : Option (List String) := none
  restrictionsNoteDisplay : Option (List String) := none
  summaryNoteDisplay : Option (List String) := none
  thumbnailDisplay : Option String := none
  titleCitationDisplay : Option String := none
  titleDisplay : Option String := none
  titleSortKey : Option String := none
  titleT : Option (List String) := none
  deriving DecidableEq

end Bibdata
