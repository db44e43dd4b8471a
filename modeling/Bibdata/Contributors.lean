import Bibdata.Marctk
import Bibdata.SolrDocument
import Bibdata.VariableLengthField

/-!
# Contributors

The names of a record: those that are cited, the one that it is sorted by, those that are browsed,
and the roles that the catalog shows them under. A role is what the first $4 of a field says, or,
if it has none, its first $e.
-/

namespace Bibdata

namespace Contributors

variable (isWord isAlphabetic : Char → Bool)

section Roles

inductive ContributorType
  | compiler
  | editor
  | translator
  | other
  deriving DecidableEq

/-- Its ASCII letters as capitals. -/
def cleanPotentialRelator (raw : String) : String :=
  String.ofList ((raw.toList.filter Char.isAlpha).map Char.toUpper)

def findPotentialRelator (field : Field) (subfield : Char) : Option String :=
  (field.firstSubfield subfield).map cleanPotentialRelator

def ContributorType.ofField (field : Field) : ContributorType :=
  match (findPotentialRelator field '4').or (findPotentialRelator field 'e') with
  | some "COM" | some "COMPILER" => compiler
  | some "EDT" | some "EDITOR" => editor
  | some "TRL" | some "TRANSLATOR" => translator
  | _ => other

def otherAuthorTags : List String := ["110", "111", "700", "710", "711"]

def otherAuthorFields (r : Record) : List Field :=
  r.fields.filter fun field => field.tag ∈ otherAuthorTags && field.hasSubfield 'a'

/-- One more contributor, in the list of its role. -/
def addContributor (roles : AuthorRoles) (field : Field) : AuthorRoles :=
  match ContributorType.ofField field, field.firstSubfield 'a' with
  | .compiler, some name =>
    { roles with compilers := roles.compilers ++ [trimPunctuation isWord name] }
  | .editor, some name =>
    { roles with editors := roles.editors ++ [trimPunctuation isWord name] }
  | .translator, some name =>
    { roles with translators := roles.translators ++ [trimPunctuation isWord name] }
  | .other, some name =>
    { roles with secondaryAuthors := roles.secondaryAuthors ++ [trimPunctuation isWord name] }
  | _, none => roles

def authorRoles (M : Marctk) (r : Record) : AuthorRoles :=
  (otherAuthorFields r).foldl (addContributor isWord)
    { primaryAuthor := (M.extractValues "100a" r).head?.map (trimPunctuation isWord) }

end Roles

section Names

def authorCitationDisplay (r : Record) : List String :=
  (extractMarc (["100", "110", "111", "700", "710", "711"].map (⟨·, ['a'], .latinOnly⟩)) r).map
    (trimPunctuation isWord)

def authorSpecs : List ExtractSpec :=
  [⟨"100", ['a', 'q', 'b', 'c', 'd', 'k'], .all⟩,
    ⟨"110", ['a', 'b', 'c', 'd', 'f', 'g', 'k', 'l', 'n'], .all⟩,
    ⟨"111", ['a', 'b', 'c', 'd', 'f', 'g', 'k', 'l', 'n', 'p', 'q'], .all⟩]

def authorSortKey (r : Record) : Option String :=
  (extractMarc authorSpecs r).head?.map fun name =>
    trim (String.ofList (name.toList.filter fun c => isAlphabetic c || c = ' '))

def authorInfoSubfields (tag : String) : Option (List Char) :=
  if tag ∈ ["100", "700"] then some ['a', 'q', 'b', 'c', 'd', 'k']
  else if tag ∈ ["110", "710"] then some ['a', 'b', 'c', 'd', 'f', 'g', 'k', 'l', 'n']
  else if tag ∈ ["111", "711"] then
    some ['a', 'b', 'c', 'd', 'f', 'g', 'k', 'l', 'n', 'p', 'q']
  else none

def authorInfoFromField (field : Field) : Option String :=
  (authorInfoSubfields field.tag).bind fun desiredSubfields =>
    maybeNotEmpty (trimPunctuation isWord (" ".intercalate (subfieldContents
      (filterByCode desiredSubfields (subfieldsBefore 't' field.subfields)))))

/-- Each name once, where it comes first. -/
def authorS (r : Record) : List String :=
  (extractFieldValuesBy r (latinTagIncludedIn ["100", "110", "111", "700", "710", "711"])
    (authorInfoFromField isWord)).eraseDups

end Names

end Contributors

end Bibdata
