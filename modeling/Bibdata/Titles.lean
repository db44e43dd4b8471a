import Mathlib.Data.String.Basic
import Bibdata.Library.SortedMap
import Bibdata.NameTitleBrowse
import Bibdata.SerdeJson
import Bibdata.Theses

/-!
# Titles

The main title with and without its non-filing characters, uniform titles, and the other titles of
a record. A 246 field with a label ($i) is shown under that label, and one without a label among
the other titles.
-/

namespace Bibdata

namespace Titles

section Main

def titleSubfields : List Char := ['a', 'b', 'c', 'f', 'g', 'h', 'k', 'n', 'p', 's']

/-- `parse::<u8>`. -/
def parseU8 (cs : List Char) : Option ℕ := (parseUsize cs).filter (· < 2 ^ 8)

def nonFilingCharacters (field : Field) : ℕ := (parseU8 field.ind2.toList).getD 0

def withoutNonFilingCharacters (title : String) (nonFilingCharacters : ℕ) : String :=
  if nonFilingCharacters = 0 then title
  else if nonFilingCharacters < title.utf8ByteSize then
    String.ofList (title.toList.drop nonFilingCharacters)
  else ""

def removeAllPunctuation (s : String) : String :=
  String.ofList (s.toList.filter fun c => !isAsciiPunctuation c)

def titleSortKey (r : Record) : Option String :=
  firstMatchingFieldValue r (latinTagIncludedIn ["245"]) fun field =>
    let joined := joinSubfieldsByCode field titleSubfields
    let withoutNonFiling := withoutNonFilingCharacters joined (nonFilingCharacters field)
    maybeNotEmpty (trim (removeAllPunctuation withoutNonFiling))

def nonLatinTitleSort (r : Record) : Option String :=
  firstMatchingFieldValue r (nonLatinTagIncludedIn ["245"]) fun field =>
    let joined := joinSubfieldsByCode field titleSubfields
    maybeNotEmpty (withoutNonFilingCharacters joined (nonFilingCharacters field))

def titleVernDisplay (r : Record) : Option String :=
  firstMatchingFieldValue r (nonLatinTagIncludedIn ["245"]) fun field =>
    maybeNotEmpty (joinSubfieldsByCode field titleSubfields)

/-- Each title with its non-filing characters and without them. -/
def titleNoHIndex (r : Record) : List String :=
  (extractFieldValuesBy r (latinOrNonLatinTagIncludedIn ["245"]) fun field =>
    let joined := joinSubfieldsByCode field ['a', 'b', 'c', 'f', 'g', 'k', 'n', 'p', 's']
    if joined = "" then none
    else
      some [joined, withoutNonFilingCharacters joined (nonFilingCharacters field)]).flatten

end Main

section AfterAuthor

variable (isWord : Char → Bool)

/-- The text from the first $t on. -/
def titleAfterAuthor (field : Field) : Option String :=
  maybeNotEmpty (trimPunctuation isWord
    (" ".intercalate (subfieldContents (subfieldsAfter 't' field.subfields))))

def containsTitlesIndex (r : Record) : List String :=
  extractFieldValuesBy r (latinOrNonLatinTagIncludedIn ["700", "710", "711"])
    (titleAfterAuthor isWord)

def seriesTitleIndex (r : Record) : List String :=
  extractMarc [⟨"440", ['a', 'n', 'p', 'v', 'x'], .all⟩] r
    ++ extractFieldValuesBy r (latinOrNonLatinTagIncludedIn ["400", "410", "411"])
      (titleAfterAuthor isWord)

def uniformTitle (r : Record) : List String :=
  extractFieldValuesBy r (latinOrNonLatinTagIncludedIn ["130", "240"]) (fun field =>
      let subfields :=
        if latinOrNonLatinTag field = "130" then
          ['a', 'p', 'l', 'd', 'f', 'h', 'k', 'm', 'n', 'o', 'r', 't']
        else uniformTitle240Subfields
      maybeNotEmpty (trimPunctuation isWord (joinSubfieldsByCode field subfields)))
    ++ extractFieldValuesBy r (latinOrNonLatinTagIncludedIn ["100", "110", "111"])
      (titleAfterAuthor isWord)

/-- A field without these subfields gives an empty text. -/
def uniform130NonLatin (r : Record) : List String :=
  extractFieldValuesBy r (nonLatinTagIncludedIn ["130"]) fun field =>
    some (joinSubfieldsByCode field
      ['a', 'p', 'l', 'd', 'f', 'h', 'k', 'm', 'n', 'o', 'r', 's', 't'])

end AfterAuthor

section VaryingForm

/-- The specifications of the other titles, but for the 246. -/
def otherTitleSpecs : List ExtractSpec :=
  [⟨"210", ['a', 'b'], .all⟩, ⟨"211", ['a'], .all⟩, ⟨"212", ['a'], .all⟩, ⟨"214", ['a'], .all⟩,
    ⟨"222", ['a', 'b'], .all⟩, ⟨"242", ['a', 'b', 'c', 'h', 'n', 'p'], .all⟩,
    ⟨"243", ['a', 'd', 'f', 'k', 'l', 'm', 'n', 'o', 'p', 'r', 's'], .all⟩,
    ⟨"247", ['a', 'b', 'f', 'h', 'n', 'p'], .all⟩,
    ⟨"730", ['a', 'p', 'l', 's', 'k', 'f', 'm', 'n', 'o', 'r'], .all⟩,
    ⟨"740", ['a', 'h', 'n', 'p'], .all⟩]

/-- `OTHER_TITLE_SUBFIELDS`. -/
def otherTitleSubfields : List Char := ['a', 'b', 'f', 'n', 'p']

def displayText (field : Field) : Option String := field.firstSubfield 'i'

/-- What a field adds to the other titles: a 246 with a label is shown elsewhere. -/
def otherTitle (field : Field) : Option String :=
  if latinOrNonLatinTag field = "246" then
    if displayText field = none then
      maybeNotEmpty (joinSubfieldsByCode field otherTitleSubfields)
    else none
  else otherTitleSpecs.findSome? (·.getSubfields field)

def otherTitlesDisplay (r : Record) : List String := r.fields.filterMap otherTitle

variable (isWord : Char → Bool)

/-- `LabeledOtherTitle`: the label and the title. -/
def labeledOtherTitle (field : Field) : Option (String × String) :=
  (displayText field).bind fun label =>
    let title := joinSubfieldsByCode field otherTitleSubfields
    if title = "" then none else some (trimPunctuation isWord label, title)

def labeledOtherTitles (r : Record) : SortedMap String (List String) :=
  (extractFieldValuesBy r (latinOrNonLatinTagIncludedIn ["246"])
    (labeledOtherTitle isWord)).foldl (fun labels (label, title) => labels.push label title) {}

def labelsToJson (labels : SortedMap String (List String)) : Json :=
  .obj (labels.entries.map fun (label, titles) => (label, .arr (titles.map Json.str)))

def otherTitle1display (serde : SerdeJson) (r : Record) : Option String :=
  let labels := labeledOtherTitles isWord r
  if labels.entries = [] then none else some (serde.toString (labelsToJson labels))

end VaryingForm

end Titles

end Bibdata
