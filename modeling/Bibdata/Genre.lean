import Bibdata.FixedField
import Bibdata.Marctk
import Bibdata.Library.Boundaries

/-!
# Genres

The headings of the 655 fields by vocabulary, with the prefixes that a facet lists for the rare
books ones; and whether a record with biographical content is by the person that it is about.
-/

namespace Bibdata

/-- The heading and every prefix on the way to it, where there is one. -/
def accumulateHierarchicalHeading (heading : String) : Option (List String) :=
  let prefixes := ((Boundaries.scan separator [] (heading.toList.splitOn separator)).map
    String.ofList).filter (· ≠ "")
  if prefixes = [] then none else some prefixes

section Vocabularies

inductive GenreVocabulary
  | artArchitectureThesaurus
  | homosaurus
  | lcGenreFormTerms
  | rareBooksManuscriptsGenreVocabularies
  | unknownVocabulary
  deriving DecidableEq

def rareBooksManuscriptsGenreVocabs : List String :=
  ["rbbin", "rbgenr", "rbmscv", "rbpap", "rbpri", "rbprov", "rbpub", "rbtyp"]

def GenreVocabulary.ofField (field : Field) : GenreVocabulary :=
  match field.firstSubfield '2' with
  | some content =>
    if trim content = "aat" then artArchitectureThesaurus
    else if trim content = "homoit" then homosaurus
    else if trim content = "lcgft" then lcGenreFormTerms
    else if trim content ∈ rareBooksManuscriptsGenreVocabs then
      rareBooksManuscriptsGenreVocabularies
    else unknownVocabulary
  | none => unknownVocabulary

def hasGenre (vocab : GenreVocabulary) (field : Field) : Bool :=
  latinOrNonLatinTagIncludedIn ["655"] field && GenreVocabulary.ofField field = vocab

variable (isWord : Char → Bool)

def rareBooksGenreHeading (field : Field) : String :=
  hierarchicalHeading isWord field ['a', 'v', 'x', 'y', 'z'] (·.code ∈ ['v', 'x', 'y', 'z'])

def genreValues (r : Record) (vocab : GenreVocabulary) : List String :=
  extractFieldValuesBy r (hasGenre vocab) fun field => some (rareBooksGenreHeading isWord field)

def aatS (r : Record) : List String := genreValues isWord r .artArchitectureThesaurus

def homoitGenreS (r : Record) : List String := genreValues isWord r .homosaurus

def lcgftS (r : Record) : List String := genreValues isWord r .lcGenreFormTerms

def rbgenrS (r : Record) : List String :=
  genreValues isWord r .rareBooksManuscriptsGenreVocabularies

def rbgenrGenreFacet (r : Record) : List String :=
  (extractFieldValuesBy r (hasGenre .rareBooksManuscriptsGenreVocabularies) fun field =>
    accumulateHierarchicalHeading (rareBooksGenreHeading isWord field)).flatten

end Vocabularies

section Biographical

inductive BiographicalContent
  | biography
  | autobiography
  | notBiography
  deriving DecidableEq

variable (M : Marctk) (isWord : Char → Bool) (toLowercase : String → String)

def biography (r : Record) : Bool :=
  (M.extractValues
    "600(*0)vx:610(*0)vx:611(*0)vx:630(*0)vx:650(*0)avx:651(*0)vx:655(*0)avx" r).any
      (trimPunctuation isWord · = "Biography")

def comparableName (name : String) : String := trimPunctuation isWord (trim (toLowercase name))

def authorMatchesSubject (r : Record) : Bool :=
  let authors := (M.extractValues "100abcdjq" r).map (comparableName isWord toLowercase)
  let nameSubjects := (M.extractValues "600abcdjq" r).map (comparableName isWord toLowercase)
  authors.any (· ∈ nameSubjects)

def BiographicalContent.ofRecord (r : Record) : BiographicalContent :=
  match Bibdata.biography M isWord r, authorMatchesSubject M isWord toLowercase r with
  | true, true => autobiography
  | true, false => .biography
  | _, _ => notBiography

def isLiteraryWork (r : Record) : Bool := (literaryForms r).any (·.isLiterature)

def isBook (r : Record) : Bool :=
  match typeOfRecord r, bibliographicLevel r with
  | some .languageMaterial, some level => level ∉ [.serialComponentPart, .serial]
  | _, _ => false

def isLiteraryBook (r : Record) : Bool := isBook r && isLiteraryWork r

def genresFromBiographicalContent (r : Record) : List String :=
  if BiographicalContent.ofRecord M isWord toLowercase r = .autobiography && !isLiteraryBook r then
    ["Primary sources"]
  else []

end Biographical

end Bibdata
