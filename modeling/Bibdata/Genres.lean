import Bibdata.PrimarySources

/-!
# The genres of a record

What its subdivisions and its genre headings say, and `Primary sources` where one of three rules
finds that it is one: neither of which applies to a literary book.
-/

namespace Bibdata

section Sources

variable (M : Marctk) (extractFields : String → Record → List Field) (isWord : Char → Bool)
  (isAlphanumeric : Char → Bool) (toLowercase : String → String)

def genresFromPrimarySourceLcshMapping (r : Record) : List String :=
  if isBook r && isLiteraryWork r then []
  else if (M.extractValues
      "600(*0)vx:610(*0)vx:611(*0)vx:630(*0)vx:650(*0)vx:651(*0)vx:655(*0)a:655(*0)vx" r).any
        (doesLcshGenreTermIndicatePrimarySource isAlphanumeric toLowercase) then
    ["Primary sources"]
  else []

def genreTerms : List String :=
  ["Bibliography", "Biography", "Catalogs", "Catalogues raisonnes", "Commentaries", "Congresses",
   "Diaries", "Dictionaries", "Drama", "Encyclopedias", "Exhibitions", "Fiction", "Guidebooks",
   "In art", "Indexes", "Librettos", "Manuscripts", "Newspapers", "Periodicals",
   "Pictorial works", "Poetry", "Portraits", "Scores", "Songs and music", "Sources", "Statistics",
   "Texts", "Translations"]

def genreStartingTerms : List String :=
  ["Census", "Maps", "Methods", "Parts", "Personal narratives", "Scores and parts",
   "Study and teaching", "Translations into "]

def isLikelyGenreTerm (term : String) : Bool :=
  term ∈ genreTerms || genreStartingTerms.any (startsWith term)

def genresFromSubfieldX (r : Record) : List String :=
  ((((M.extractValues "600(*0)x:610(*0)x:611(*0)x:630(*0)x:650(*0)x:651(*0)x:655(*0)x" r).map
    (trimPunctuation isWord)).map trim).filter (· ≠ "")).filter isLikelyGenreTerm

def genresFromSubfieldV (r : Record) : List String :=
  (((M.extractValues
    "600(*0)v:610(*0)v:611(*0)v:630(*0)v:650(*0)v:651(*0)v:655(*0)a:655(*0)v" r).map
      (trimPunctuation isWord)).map trim).filter (· ≠ "")

def subjectGenreVocabularies : List String :=
  ["sk", "aat", "lcgft", "rbbin", "rbgenr", "rbmscv", "rbpap", "rbpri", "rbprov", "rbpub",
   "rbtyp", "homoit"]

def anyVocabulariesMatch (field : Field) (vocabularyCodes : List String) : Bool :=
  (field.firstSubfield '2').any fun content => trim content ∈ vocabularyCodes

/-- There is no filter for what is empty, as the other subfields have. -/
def genresFromSubjectVocabularies (r : Record) : List String :=
  (extractFieldValuesBy r
    (fun field => field.tag ∈ ["650", "655"] && field.ind2 = "7"
      && anyVocabulariesMatch field subjectGenreVocabularies)
    fun field => some ((subfieldContents
      (filterByCode (if field.tag = "650" then ['v'] else ['a', 'v']) field.subfields)).map
        (trimPunctuation isWord))).flatten

def genresFromPrimarySourceLcgftMapping (r : Record) : List String :=
  if isBook r && isLiteraryWork r then []
  else if ((extractFields "655" r).filter
      (GenreVocabulary.ofField · = .lcGenreFormTerms)).any fun field =>
        (field.subfields.filter (·.code = 'a')).any fun s =>
          doesLcgftGenreTermIndicatePrimarySource isAlphanumeric toLowercase s.content then
    ["Primary sources"]
  else []

def genres (r : Record) : List String :=
  (genresFromSubfieldV M isWord r ++ genresFromSubfieldX M isWord r
    ++ genresFromSubjectVocabularies isWord r
    ++ genresFromPrimarySourceLcshMapping M isAlphanumeric toLowercase r
    ++ genresFromPrimarySourceLcgftMapping extractFields isAlphanumeric toLowercase r
    ++ genresFromBiographicalContent M isWord toLowercase r).eraseDups

end Sources

end Bibdata
