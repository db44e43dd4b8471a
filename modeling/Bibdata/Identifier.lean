import Bibdata.Marctk

/-!
# Control numbers of linked records

`isNumeric` is `char::is_numeric`, `isDecimal` is `\d` of the regular expressions.
-/

namespace Bibdata

variable (isNumeric isDecimal : Char → Bool)

/-- The numbers of a text, from the first that is not zero on. -/
def stripNonNumeric (s : String) : String :=
  String.ofList ((s.toList.dropWhile fun c => !isNumeric c || c = '0').filter isNumeric)

section Oclc

/-- `{:0>8}`. -/
def padToEight (s : String) : String :=
  String.ofList (List.replicate (8 - s.toList.length) '0') ++ s

def normalizeOclcNumber (original : String) : String :=
  let cleaned := stripNonNumeric isNumeric original
  if 1 ≤ cleaned.utf8ByteSize ∧ cleaned.utf8ByteSize ≤ 8 then "ocm" ++ padToEight cleaned
  else if cleaned.utf8ByteSize = 9 then "ocn" ++ cleaned
  else "on" ++ cleaned

/-- `(ocn|ocm|on)*\d+` at the start of a text; the `o` is no digit. -/
def startsWithOclcDigits : List Char → Bool
  | 'o' :: 'c' :: 'n' :: cs => startsWithOclcDigits cs
  | 'o' :: 'c' :: 'm' :: cs => startsWithOclcDigits cs
  | 'o' :: 'n' :: cs => startsWithOclcDigits cs
  | c :: _ => isDecimal c
  | [] => false

def oclcPrefix : List Char := "(OCoLC)".toList

/-- Somewhere in the text, without its hyphens and blanks, an OCLC number starts. -/
def isOclcNumber (possibleNumber : String) : Bool :=
  let cleaned := possibleNumber.toList.filter fun c => c ≠ '-' ∧ c ≠ ' '
  cleaned.tails.any fun tail =>
    oclcPrefix.isPrefixOf tail && startsWithOclcDigits isDecimal (tail.drop oclcPrefix.length)

example : isOclcNumber Char.isDigit "(OCoLC)on 9990014350" = true := by decide +kernel

example : isOclcNumber Char.isDigit "(OCoLC)onx9990014350" = false := by decide +kernel

end Oclc

section LinkedRecords

variable (M : Marctk)

/-- What one $w adds. -/
def linkedRecordControlNumber (value : String) : Option String :=
  if isOclcNumber isDecimal value then some (normalizeOclcNumber isNumeric value)
  else if '(' ∈ value.toList then some ("BIB" ++ stripNonNumeric isNumeric value)
  else none

def linkedRecordControlNumbers (r : Record) : List String :=
  (M.extractValues "776w:787w" r).filterMap (linkedRecordControlNumber isNumeric isDecimal)

end LinkedRecords

section SystemControlNumbers

variable (M : Marctk)

inductive SystemControlNumber
  | pulfa (number : String)
  | oclcNumber (number : String)
  | otherControlNumber
  | invalidControlNumber
  deriving DecidableEq

/-- A text has a last part, so none is invalid. -/
def SystemControlNumber.ofString (value : String) : SystemControlNumber :=
  if startsWith value "(PULFA)" then
    match (splitChar ')' value).getLast? with
    | some number => pulfa number
    | none => invalidControlNumber
  else if isOclcNumber isDecimal value then oclcNumber value
  else otherControlNumber

def systemControlNumbers (r : Record) : List SystemControlNumber :=
  (M.extractValues "035a" r).map (SystemControlNumber.ofString isDecimal)

def oclcNumbers (r : Record) : List String :=
  (systemControlNumbers isDecimal M r).filterMap fun
    | .oclcNumber oclc => some oclc
    | _ => none

def normalizedOclcNumbers (r : Record) : List String :=
  (oclcNumbers isDecimal M r).map (normalizeOclcNumber isNumeric)

def oclcNumbersNumeric (r : Record) : List String :=
  (oclcNumbers isDecimal M r).map (stripNonNumeric isNumeric)

/-- Without the prefix in parentheses. -/
def standardNumber (field : Field) : Option String :=
  (field.firstSubfield 'a').map fun original =>
    if startsWith original "(" then
      String.ofList ((original.toList.dropWhile (· ≠ ')')).drop 1)
    else original

def standardNumbers (r : Record) : List String :=
  extractFieldValuesBy r (·.tag = "035") standardNumber

end SystemControlNumbers

section StandardNumbers

/-- The crate that knows the forms of these numbers. -/
structure LibraryStdnums where
  isbn : String → Option String
  issn : String → Option String
  lccn : String → Option String

variable (stdnums : LibraryStdnums) (M : Marctk)

def normalizedIsbns (r : Record) : List String := (M.extractValues "020a" r).filterMap stdnums.isbn

def normalizedIssns (r : Record) : List String := (M.extractValues "022a" r).filterMap stdnums.issn

def normalizedLccns (r : Record) : List String := (M.extractValues "010a" r).filterMap stdnums.lccn

def normalizedIsbnsForAllVersions (r : Record) : List String :=
  (M.extractValues "020az:776z" r).filterMap stdnums.isbn

def normalizedIssnsForAllVersions (r : Record) : List String :=
  (M.extractValues "022alyz:776x" r).filterMap stdnums.issn

def identifiersOfAllVersions (r : Record) : List String :=
  normalizedIsbnsForAllVersions stdnums M r ++ normalizedIssnsForAllVersions stdnums M r
    ++ normalizedOclcNumbers isNumeric isDecimal M r
    ++ linkedRecordControlNumbers isNumeric isDecimal M r

def isbnOfField (field : Field) : Option String :=
  (field.firstSubfield 'a').map fun number =>
    let qualifyingInformation := subfieldContents (filterByCode ['q'] field.subfields)
    if qualifyingInformation = [] then number
    else number ++ " (" ++ " : ".intercalate qualifyingInformation ++ ")"

def isbnDisplay (r : Record) : List String := extractFieldValuesBy r (·.tag = "020") isbnOfField

/-- The id that a partner has for the record. -/
def otherId (r : Record) : Option String :=
  (r.controlFields.find? (·.tag = "009")).map (·.content)

end StandardNumbers

end Bibdata
