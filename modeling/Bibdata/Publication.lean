import Mathlib.Data.String.Basic
import Bibdata.FixedField
import Bibdata.Marctk

/-!
# Publication statements

The statements of the 260 and 264 fields, and of the 880 fields parallel to them. An open range gets
the end date of the 008 when the publication has ceased.
-/

namespace Bibdata

variable (M : Marctk) (isNumeric isDecimal : Char → Bool)

def joinAllSubfields (field : Field) : String := joinSubfields field.subfields

/-- The end date as it is shown, which may be nothing. -/
def displayEndDate (date : Date) : String := date.endToString.getD ""

def appendEndDateIfNeeded (publicationStatement : String) (r : Record) : String :=
  match DateType.ofRecord r, endDate isNumeric isDecimal r with
  | .continuousResourceCeasedPublication, some date =>
    if endsWith publicationStatement "-" then publicationStatement ++ displayEndDate date
    else publicationStatement
  | _, _ => publicationStatement

def statementsFrom264 (r : Record) : List String :=
  ((M.extractPartialFields "264abcefg3" r).mergeSort fun a b => a.ind2 ≤ b.ind2).map
    joinAllSubfields

def statementsFrom260 (r : Record) : List String :=
  (M.extractPartialFields "260abcefg" r).map fun field =>
    appendEndDateIfNeeded isNumeric isDecimal (joinAllSubfields field) r

def statementsFromParallel264 (r : Record) : List String :=
  (M.getParallelFields "264" r).map fun field =>
    appendEndDateIfNeeded isNumeric isDecimal
      (joinSubfieldsByCode field ['a', 'b', 'c', 'e', 'f', 'g', '3']) r

def statementsFromParallel260 (r : Record) : List String :=
  (M.getParallelFields "260" r).map fun field =>
    appendEndDateIfNeeded isNumeric isDecimal
      (joinSubfieldsByCode field ['a', 'b', 'c', 'e', 'f', 'g']) r

def pubCreatedDisplay (r : Record) : List String :=
  statementsFrom260 M isNumeric isDecimal r ++ statementsFromParallel260 M isNumeric isDecimal r
    ++ statementsFrom264 M r ++ statementsFromParallel264 M isNumeric isDecimal r

def pubCitation (isWord : Char → Bool) (field : Field) : Option String :=
  match field.firstSubfield 'a', field.firstSubfield 'b' with
  | some place, none => some (trimPunctuation isWord place)
  | none, some name => some (trimPunctuation isWord name)
  | some place, some name =>
    some (trimPunctuation isWord place ++ ": " ++ trimPunctuation isWord name)
  | none, none => none

def pubCitationDisplay (isWord : Char → Bool) (r : Record) : List String :=
  (extractFieldValuesBy r (latinOrNonLatinTagIncludedIn ["260", "264"])
    (pubCitation isWord)).eraseDups

end Bibdata
