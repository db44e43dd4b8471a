import Bibdata.Strings

/-!
# Subject headings

The heading of a field in Rust, for the display of Siku subjects, and in Ruby, for the facets; and
the prefixes of a heading that a hierarchical facet lists.
-/

namespace Bibdata

def separator : Char := '—'

section Languages

variable (isWord : Char → Bool)

/-- The heading as Rust writes it. -/
def hierarchicalHeading (field : Field) (subfieldsToInclude : List Char)
    (placeSeparatorBefore : Subfield → Bool) : String :=
  (field.subfields.filter (·.code ∈ subfieldsToInclude)).foldl
    (fun accumulator subfield =>
      (if placeSeparatorBefore subfield then accumulator.push separator else accumulator)
        ++ trimPunctuation isWord subfield.content) ""

/-- The class of Ruby; `spec` are the codes of its spec. -/
structure HierarchicalHeading where
  field : Field
  spec : List Char
  splitOnSubfield : List Char

namespace HierarchicalHeading

variable (H : HierarchicalHeading)

def subfields : List Subfield := H.field.subfields.filter (·.code ∈ H.spec)

def delimiterFor (subfield : Subfield) : Char :=
  if subfield.code ∈ H.splitOnSubfield then separator else ' '

def compileString (firstSubfield : Subfield) (remainingSubfields : List Subfield) : String :=
  remainingSubfields.foldl
    (fun heading subfield =>
      heading.push (H.delimiterFor subfield) ++ trimPunctuation isWord subfield.content)
    (trimPunctuation isWord firstSubfield.content)

def toS : Option String :=
  match H.subfields with
  | [] => none
  | firstSubfield :: remainingSubfields =>
    some (H.compileString isWord firstSubfield remainingSubfields)

end HierarchicalHeading

end Languages

section Siku

inductive SubjectVocabulary
  | fast
  | icpsr
  | libraryOfCongress
  | siku
  | unknownVocabulary
  | vocabularyNotSpecified
  deriving DecidableEq

def SubjectVocabulary.ofCode (value : String) : SubjectVocabulary :=
  if trim value = "fast" then .fast
  else if trim value = "icpsr" then .icpsr
  else if trim value = "sk" then .siku
  else if trim value = "skbb" then .siku
  else .unknownVocabulary

def SubjectVocabulary.ofField (field : Field) : SubjectVocabulary :=
  if field.ind2 = "0" then .libraryOfCongress
  else if field.ind2 = "7" then
    match field.firstSubfield '2' with
    | some content => .ofCode content
    | none => .vocabularyNotSpecified
  else .unknownVocabulary

/-- `str::get(0..n)`: the first `n` bytes, where a character ends there. -/
def firstBytes : ℕ → List Char → Option (List Char)
  | 0, _ => some []
  | _ + 1, [] => none
  | n + 1, c :: cs =>
    if c.utf8Size ≤ n + 1 then (firstBytes (n + 1 - c.utf8Size) cs).map (c :: ·) else none

def nonLatinTag (field : Field) : Option String :=
  if field.tag ≠ "880" then none
  else (field.firstSubfield '6').bind fun content =>
    (firstBytes 3 (trim content).toList).map String.ofList

def latinOrNonLatinTagIncludedIn (tags : List String) (field : Field) : Bool :=
  field.tag ∈ tags || (nonLatinTag field).any (· ∈ tags)

def sikuIncluded : List Char := ['a', 'b', 'c', 'v', 'x', 'y', 'z']

/-- The codes that `split_on_subfield` has and `siku_subjects_display` puts a separator before. -/
def splitOnSubfield : List Char := ['t', 'v', 'x', 'y', 'z']

def isSikuSubject (field : Field) : Bool :=
  latinOrNonLatinTagIncludedIn ["650"] field && SubjectVocabulary.ofField field = .siku

variable (isWord : Char → Bool)

/-- What one field adds to `siku_subject_display`. -/
def sikuSubjectDisplay (field : Field) : Option String :=
  if isSikuSubject field then
    some (hierarchicalHeading isWord field sikuIncluded (·.code ∈ splitOnSubfield))
  else none

def sikuSubjectsDisplay (r : Record) : List String :=
  r.fields.filterMap (sikuSubjectDisplay isWord)

end Siku

section Facets

/-- A `Traject::MarcExtractor`: the codes of each of its specs that covers a field, and whether
`collect_subfields` finds a value there. -/
structure MarcExtractor where
  specsCovering : Field → List (List Char)
  collects : Field → List Char → Bool
  collects_iff : ∀ field spec,
    collects field spec = true ↔ ∃ s ∈ field.subfields, s.code ∈ spec

variable (isWord : Char → Bool) (extractor : MarcExtractor) (includeHeading : Field → Bool)

/-- The headings of a field, one for each spec that covers it. -/
def headings (field : Field) : List String :=
  (extractor.specsCovering field).filterMap fun spec =>
    if includeHeading field && extractor.collects field spec then
      HierarchicalHeading.toS isWord ⟨field, spec, splitOnSubfield⟩
    else none

def processHierarchy (r : Record) : List String :=
  r.fields.flatMap (headings isWord extractor includeHeading)

/-- `[accumulator.last, subheading].compact.join(SEPARATOR)`. -/
def joinToLast (last : Option String) (subheading : String) : String :=
  match last with
  | some last => last.push separator ++ subheading
  | none => subheading

def accumulateSubheading (subheadings : List String) : List String :=
  subheadings.foldl
    (fun accumulator subheading => accumulator ++ [joinToLast accumulator.getLast? subheading]) []

/-- What one field adds to a hierarchical facet. -/
def accumulatedHeadings (field : Field) : List String :=
  (headings isWord extractor includeHeading field).flatMap fun heading =>
    accumulateSubheading (split separator heading)

def accumulateHierarchyPerField (r : Record) : List String :=
  r.fields.flatMap (accumulatedHeadings isWord extractor includeHeading)

def anyThesaurusMatch (field : Field) (thesauri : List String) : Bool :=
  field.subfields.any fun s => s.code = '2' && s.content ∈ thesauri

def sikuHeading (field : Field) : Bool := anyThesaurusMatch field ["sk", "skbb"]

def sikuSubjectFacet (r : Record) : List String :=
  accumulateHierarchyPerField isWord extractor sikuHeading r

end Facets

end Bibdata
