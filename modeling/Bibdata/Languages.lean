import Bibdata.FixedField
import Bibdata.MarcGem
import Bibdata.Marctk

/-!
# Languages

The codes of the languages of a record, in two letters where there are two. The tables of the
three standards are a parameter.
-/

namespace Bibdata

structure Language where
  englishName : String
  twoLetterCode : Option String
  deriving DecidableEq

structure Iso6393Language where
  language : Language
  macrolanguageCode : Option String
  iso6392bCode : Option String
  deriving DecidableEq

structure LanguageTables where
  fromIso639bCode : String → Option Language
  fromIso6393Code : String → Option Iso6393Language
  fromIso6395Code : String → Option Language

namespace LanguageTables

variable (tables : LanguageTables)

def twoLetterCode (code : String) : Option String :=
  ((tables.fromIso639bCode code).bind (·.twoLetterCode)).or
    ((tables.fromIso6393Code code).bind (·.language.twoLetterCode))

def isValidLanguageCode (code : String) : Bool :=
  code ≠ "" && ((tables.fromIso639bCode code).isSome || (tables.fromIso6395Code code).isSome
    || (tables.fromIso6393Code code).isSome)

end LanguageTables

section Record

variable (tables : LanguageTables) (M : Marctk)

def languageCodes (r : Record) : List String :=
  ((M.extractValues "041ad" r ++ (sliceFrom008 r 35 38).toList).map trim).eraseDups

def languagesThatCannotBeAnnounced : List String := ["zxx", "mul", "sgn", "und", "|||"]

def recordLanguageForAssistiveTech (r : Record) : String :=
  (((languageCodes M r).filter (· ∉ languagesThatCannotBeAnnounced)).findSome?
    tables.twoLetterCode).getD "en"

def simplifiedLanguageCode (originalCode : String) : Option String :=
  (tables.twoLetterCode originalCode).or
    (if tables.isValidLanguageCode originalCode then some originalCode else none)

def simplifiedLanguageCodes (r : Record) : List String :=
  (languageCodes M r).filterMap (simplifiedLanguageCode tables)

/-- `extractValues` are the queries that ask for a first indicator too. -/
def originalLanguagesOfTranslation (extractValues : String → MarctkRecord → List String)
    (r : MarctkRecord) : List Language :=
  (extractValues "041(1*)hn" r).filterMap fun code => tables.fromIso639bCode (trim code)

end Record

end Bibdata
