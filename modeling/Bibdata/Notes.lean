import Bibdata.Formats
import Bibdata.MarcGem
import Bibdata.SerdeJson
import Bibdata.VariableLengthField

/-!
# Notes

What was done with an item, where the note is public and is a partner's or about a field of ours;
the restrictions on access; and the table of contents.
-/

namespace Bibdata

section ActionNotes

structure ActionNote where
  description : Option String
  uri : Option String
  deriving DecidableEq

/-- A letter is a capital, or it has its capitals. -/
structure CharCase where
  isUppercase : Char → Bool
  toUppercase : Char → List Char

variable (charCase : CharCase)

def upcaseFirst (s : String) : String :=
  match s.toList with
  | first :: rest =>
    if charCase.isUppercase first then s
    else String.ofList (charCase.toUppercase first ++ rest)
  | [] => ""

def authorizationsAsPhrase (authorizations : List String) : Option String :=
  if authorizations = [] then none else some (" ".intercalate ("—" :: authorizations))

def isPublic (field : MarctkField) : Bool := field.ind1 = "1"

def ActionNote.descriptionOf (field : Field) : Option String :=
  maybeNotEmpty (" ".intercalate ([(field.firstSubfield '3').map (· ++ ":"),
    (field.firstSubfield 'a').map (upcaseFirst charCase),
    field.firstSubfield 'd',
    authorizationsAsPhrase (subfieldContents (filterByCode ['f'] field.subfields)),
    (field.firstSubfield '5').map fun institution => "(" ++ institution ++ ")"].filterMap id))

/-- `ActionNote::try_from`; a private note is none. -/
def ActionNote.ofField (field : MarctkField) : Option ActionNote :=
  if isPublic field then
    some ⟨ActionNote.descriptionOf charCase field.toField, (field.firstSubfield 'u').map trim⟩
  else none

def actionNotes (r : MarctkRecord) : List ActionNote :=
  r.fields.filterMap fun field =>
    if latinOrNonLatinTagIncludedIn ["583"] field.toField then
      if field.hasSubfield '8' || isScsb r.toRecord || isPrincetonFindingAid r.toRecord then
        ActionNote.ofField charCase field
      else none
    else none

def ActionNote.toJson (note : ActionNote) : Json :=
  .obj [("description", (note.description.map Json.str).getD .null),
    ("uri", (note.uri.map Json.str).getD .null)]

def actionNotes1display (serde : SerdeJson) (r : MarctkRecord) : List String :=
  let notes := actionNotes charCase r
  if notes = [] then [] else [serde.toString (.arr (notes.map ActionNote.toJson))]

end ActionNotes

/-- `extractValues` are the queries that ask for a first indicator too. -/
def accessNotes (extractValues : String → MarctkRecord → List String) (r : MarctkRecord) :
    Option (List String) :=
  let notes := (extractValues "506(1*)a" r).map trim
  if notes = [] then none else some notes

section Contents

/-- The text cut at each ` -- `; `part` is what was read since the last one, backwards. -/
def splitAtDashes (part : List Char) : List Char → List (List Char)
  | ' ' :: '-' :: '-' :: ' ' :: cs => part.reverse :: splitAtDashes [] cs
  | c :: cs => splitAtDashes (c :: part) cs
  | [] => [part.reverse]

def tableOfContents (r : Record) : List String :=
  (extractMarc [⟨"505", ['a', 'g', 'r', 't'], .all⟩] r).flatMap fun contents =>
    (splitAtDashes [] contents.toList).map String.ofList

example : (splitAtDashes [] "Nile -- Delta --".toList).map String.ofList = ["Nile", "Delta --"] := by
  decide +kernel

end Contents

end Bibdata
