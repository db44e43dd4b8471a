import Mathlib.Data.List.DropRight
import Bibdata.VariableLengthField

/-!
# Subjects of two more vocabularies, and eras

FAST subjects are shown where the Library of Congress has none for the record. The eras of a
subject are its chronological subdivisions; one of a place that looks like an event has the name of
the place before it. `isDecimal` is `\d` of the regular expressions.
-/

namespace Bibdata

section Vocabularies

def locSubjectTags : List String := ["600", "610", "611", "630", "650", "651"]

def isLocSubject (field : Field) : Bool :=
  field.tag ∈ locSubjectTags && SubjectVocabulary.ofField field = .libraryOfCongress

/-- Without blanks before it, and without blanks and periods after it. -/
def fastSubject (field : Field) : Option String :=
  (field.firstSubfield 'a').map fun content =>
    String.ofList ((content.toList.dropWhile isSpace).rdropWhile fun c => isSpace c || c = '.')

def isFastSubject (field : Field) : Bool :=
  startsWith field.tag "6" && SubjectVocabulary.ofField field = .fast

def fastSubjects (r : Record) : List String :=
  if r.fields.any isLocSubject then [] else extractFieldValuesBy r isFastSubject fastSubject

def icpsrSubjects (isWord : Char → Bool) (r : Record) : List String :=
  extractFieldValuesBy r
    (fun field => field.tag = "650" && SubjectVocabulary.ofField field = .icpsr)
    fun field => some (trimPunctuation isWord (joinSubfields (filterByCode ['a'] field.subfields)))

end Vocabularies

section Eras

variable (isDecimal : Char → Bool)

def ordinaryEraTags : List String := ["600", "610", "611", "630", "650", "654", "656", "690"]

def geographicSubjectTags : List String := ["651", "691"]

/-- `\. *\z`, replaced by nothing. -/
def stripTrailingPeriod (value : String) : String :=
  let text := value.toList.rdropWhile (· = ' ')
  if text.getLast? = some '.' then String.ofList text.dropLast else value

/-- `\s*.+`: after some blanks there is a text of one line. -/
def isLabel (cs : List Char) : Bool :=
  (List.range cs.length).any fun n => (cs.take n).all isSpace && (cs.drop n).all (· ≠ '\n')

/-- `\d\d\d\d?` and what follows; no digit may follow it. -/
def afterYear (cs : List Char) : Option (List Char) :=
  let digits := cs.takeWhile isDecimal
  if digits.length = 3 ∨ digits.length = 4 then some (cs.dropWhile isDecimal) else none

/-- `( B\.C\.)?[.,; ]*\z`. -/
def isEraEnd (cs : List Char) : Bool :=
  let isMark := fun c => c = '.' || c = ',' || c = ';' || c = ' '
  cs.all isMark || (" B.C.".toList.isPrefixOf cs && (cs.drop 5).all isMark)

/-- `\d\d\d\d?(-\d\d\d\d?)?( B\.C\.)?[.,; ]*\z`. -/
def isYears (cs : List Char) : Bool :=
  match afterYear isDecimal cs with
  | some ('-' :: cs) => (afterYear isDecimal cs).any isEraEnd
  | some cs => isEraEnd cs
  | none => false

/-- What comes after the comma; the blanks are taken as far as they go. -/
def isEventDate (cs : List Char) : Bool :=
  let date := cs.dropWhile isSpace
  let circa := date.drop 3
  (cs.head?.any isSpace) && (isYears isDecimal date
    || "ca.".toList.isPrefixOf date && circa.head?.any isSpace
      && isYears isDecimal (circa.dropWhile isSpace))

/-- `CHRON_SUBDIVISION_REGEX`. -/
def isChronSubdivision (value : String) : Bool :=
  (List.range value.toList.length).any fun n =>
    isLabel (value.toList.take n) && value.toList[n]? = some ','
      && isEventDate isDecimal (value.toList.drop (n + 1))

example : isChronSubdivision Char.isDigit "Civil War, 1861-1865." = true := by decide +kernel

def eraOf648 (field : Field) : List String :=
  let joined := " ".intercalate (subfieldContents (filterByCode ['a', 'y'] field.subfields))
  if joined = "" then [] else [stripTrailingPeriod joined]

def eras (field : Field) : List String :=
  if field.tag = "648" then eraOf648 field
  else if field.tag ∈ ordinaryEraTags then
    (subfieldContents (filterByCode ['y'] field.subfields)).map stripTrailingPeriod
  else []

def geographicEra (place value : String) : String :=
  if isChronSubdivision isDecimal value then place ++ ": " ++ stripTrailingPeriod value
  else stripTrailingPeriod value

def geographicEras (field : Field) : List String :=
  if field.tag ∈ geographicSubjectTags then
    (subfieldContents (filterByCode ['y'] field.subfields)).map
      (geographicEra isDecimal ((field.firstSubfield 'a').getD ""))
  else []

def subjectEraFacet (r : Record) : List String :=
  (r.fields.flatMap eras ++ r.fields.flatMap (geographicEras isDecimal)).eraseDups

end Eras

end Bibdata
