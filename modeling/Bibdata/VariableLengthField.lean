import Bibdata.NonLatin

/-!
# What is extracted from the fields of a record

A specification is a tag and the codes of subfields, and the scripts that are indexed: the fields
with the tag, the 880 fields linked to it, or both. A field gives the text of the first
specification that finds one there. The title of a record has a function of its own.
-/

namespace Bibdata

def maybeNotEmpty (s : String) : Option String := if s = "" then none else some s

def latinOrNonLatinTag (field : Field) : String := (nonLatinTag field).getD field.tag

def latinTagIncludedIn (tags : List String) (field : Field) : Bool := field.tag ∈ tags

inductive ScriptsToIndex
  | all
  | latinOnly
  | nonLatinOnly
  deriving DecidableEq

def fieldTagMatches (field : Field) (scripts : ScriptsToIndex) (tags : List String) : Bool :=
  match scripts with
  | .latinOnly => latinTagIncludedIn tags field
  | .nonLatinOnly => nonLatinTagIncludedIn tags field
  | .all => latinOrNonLatinTagIncludedIn tags field

def firstMatchingFieldValue {α : Type} (r : Record) (criteria : Field → Bool)
    (extractor : Field → Option α) : Option α :=
  (extractFieldValuesBy r criteria extractor).head?

section Specifications

structure ExtractSpec where
  tag : String
  subfields : List Char
  scripts : ScriptsToIndex
  deriving DecidableEq

namespace ExtractSpec

/-- The rest of the specification is cut into single bytes. It is `none` too where the source
panics, in the middle of a character. -/
def new (spec : String) (scripts : ScriptsToIndex) : Option ExtractSpec :=
  (firstBytes 3 spec.toList).bind fun tag =>
    let subfields := spec.toList.drop tag.length
    if subfields.all (·.utf8Size = 1) then some ⟨String.ofList tag, subfields, scripts⟩ else none

variable (spec : ExtractSpec)

def tagMatcher (field : Field) : Bool := fieldTagMatches field spec.scripts [spec.tag]

def getSubfields (field : Field) : Option String :=
  if spec.tagMatcher field then maybeNotEmpty (joinSubfieldsByCode field spec.subfields) else none

def withScripts (scripts : ScriptsToIndex) : ExtractSpec := { spec with scripts := scripts }

end ExtractSpec

/-- `extract_marc_impl`. -/
def extractMarc (specs : List ExtractSpec) (r : Record) : List String :=
  extractFieldValuesBy r (fun field => specs.any (·.tagMatcher field)) fun field =>
    specs.findSome? (·.getSubfields field)

example : ExtractSpec.new "245abc" .all = some ⟨"245", ['a', 'b', 'c'], .all⟩ := by decide +kernel

end Specifications

section Title

/-- The codes that a subfield is looked up in: one string, and no code. -/
def latinScriptTitleSubfields : List String := ["abchknps"]

def latinScriptTitle (r : Record) : Option String :=
  firstMatchingFieldValue r (·.tag = "245") fun field =>
    some (" ".intercalate (subfieldContents
      (field.subfields.filter fun s => String.singleton s.code ∈ latinScriptTitleSubfields)))

end Title

end Bibdata
