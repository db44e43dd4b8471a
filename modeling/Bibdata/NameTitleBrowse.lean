import Bibdata.VariableLengthField

/-!
# Name-title headings

The headings that are browsed by name and title, in Rust: series entries, linked titles, related
works, contained works, and the main entry with its title. And the entries that the catalog shows
for related and contained works, in Ruby, each cut into the name and the levels of the title.
-/

namespace Bibdata

section Headings

variable (isWord : Char → Bool)

def normalized (heading : String) : String :=
  trimPunctuation isWord (combineConsecutiveWhitespace heading)

/-- A heading, split at its first $t. -/
structure NameTitle where
  name : String
  titleLevels : List String

def entrySubfields (tag : String) : Option (List Char) :=
  if tag ∈ ["700", "800"] then
    some ['a', 'b', 'c', 'd', 'f', 'g', 'h', 'k', 'l', 'm', 'n', 'o', 'p', 'q', 'r', 's', 't', 'x']
  else if tag ∈ ["710", "810"] then
    some ['a', 'b', 'c', 'd', 'f', 'g', 'h', 'k', 'l', 'n', 'o', 'p', 'r', 's', 't', 'x']
  else if tag ∈ ["711", "811"] then
    some ['a', 'b', 'c', 'd', 'e', 'f', 'g', 'k', 'l', 'n', 'p', 'q', 't']
  else none

namespace NameTitle

def ofField (field : Field) : Option NameTitle :=
  (field.firstSubfield 'a').bind fun _ =>
    (entrySubfields (latinOrNonLatinTag field)).bind fun allowed =>
      let subfields := filterByCode allowed field.subfields
      (subfields.findIdx? (·.code = 't')).map fun atTitle =>
        ⟨" ".intercalate (subfieldContents (subfields.take atTitle)),
          subfieldContents (subfields.drop atTitle)⟩

/-- `joined` grows by one level after the other. -/
def titleHeadings (joined : String) : List String → List String
  | [] => []
  | level :: levels =>
    let next := joined ++ " " ++ level
    normalized isWord next :: titleHeadings next levels

def headings (entry : NameTitle) (includeName : Bool) : List String :=
  (if includeName then [normalized isWord entry.name] else [])
    ++ titleHeadings isWord entry.name entry.titleLevels

end NameTitle

def secondIndicatorMatches (field : Field) (desired : Option String) : Bool :=
  desired.all (field.ind2 = ·)

def addedEntryFields (r : Record) (tags : List String) (secondIndicator : Option String) :
    List Field :=
  (r.fields.filter (latinOrNonLatinTagIncludedIn tags)).filter
    (secondIndicatorMatches · secondIndicator)

def addedEntries (r : Record) (tags : List String) (secondIndicator : Option String)
    (includeName : Bool) : List String :=
  ((addedEntryFields r tags secondIndicator).filterMap fun field =>
    (NameTitle.ofField field).map fun entry => entry.headings isWord includeName).flatten

def seriesTags : List String := ["800", "810", "811"]

def relatedTags : List String := ["700", "710", "711"]

def analyticalEntries (r : Record) : List String := addedEntries isWord r seriesTags none true

def relatedWorks (r : Record) : List String := addedEntries isWord r relatedTags (some " ") false

def containsEntries (r : Record) : List String :=
  addedEntries isWord r relatedTags (some "2") false

def linkedTitleTags : List String :=
  ["760", "762", "765", "767", "770", "772", "773", "774", "775", "776", "777", "780", "785",
    "786", "787"]

def linkedTitle (field : Field) : Option String :=
  if !field.hasSubfield 'a' || !field.hasSubfield 't' then none
  else
    let joined := " ".intercalate (subfieldContents (filterByCode ['a', 't'] field.subfields))
    maybeNotEmpty (normalized isWord joined)

def linkedTitles (r : Record) : List String :=
  (r.fields.filter fun field => latinOrNonLatinTag field ∈ linkedTitleTags).filterMap
    (linkedTitle isWord)

end Headings

section MainEntry

variable (isWord : Char → Bool) (r : Record) (scripts : ScriptsToIndex)

def mainEntryTags : List String := ["100", "110", "111"]

def mainEntrySubfields (tag : String) : Option (List Char) :=
  if tag = "100" then some ['a', 'q', 'b', 'c', 'd', 'k']
  else if tag = "110" then some ['a', 'b', 'c', 'd', 'f', 'g', 'k', 'l', 'n']
  else if tag = "111" then some ['a', 'b', 'c', 'd', 'f', 'g', 'k', 'l', 'n', 'p', 'q']
  else none

def mainEntryValue (field : Field) : Option String :=
  (mainEntrySubfields (latinOrNonLatinTag field)).bind fun subfields =>
    maybeNotEmpty (joinSubfieldsByCode field subfields)

def firstAuthor : Option String :=
  (firstMatchingFieldValue r (fieldTagMatches · scripts mainEntryTags) mainEntryValue).bind
    fun joined => maybeNotEmpty (trimPunctuation isWord joined)

def uniformTitle240Subfields : List Char :=
  ['a', 'p', 'l', 'd', 'f', 'h', 'k', 'm', 'n', 'o', 'r', 's']

def firstUniform240 : List String :=
  (r.fields.find? (fieldTagMatches · scripts ["240"])).toList.flatMap fun field =>
    subfieldContents (filterByCode uniformTitle240Subfields field.subfields)

def mainTitle : Option String :=
  (r.fields.find? (fieldTagMatches · scripts ["245"])).bind fun field =>
    (field.firstSubfield 'a').bind fun content => maybeNotEmpty (trimPunctuation isWord content)

def authorAndTitleFor : List String :=
  match firstAuthor isWord r scripts with
  | none => []
  | some author =>
    let author := author ++ "."
    let uniformTitle := firstUniform240 r scripts
    if uniformTitle ≠ [] then (NameTitle.mk author uniformTitle).headings isWord false
    else match mainTitle isWord r scripts with
      | some title => [author ++ " " ++ title]
      | none => []

def authorAndTitle : List String :=
  [ScriptsToIndex.latinOnly, .nonLatinOnly].flatMap (authorAndTitleFor isWord r)

def nameTitleBrowseS : List String :=
  [analyticalEntries isWord r, linkedTitles isWord r, relatedWorks isWord r,
    containsEntries isWord r, authorAndTitle isWord r].flatten.eraseDups

end MainEntry

section PrepNameTitle

/-- One of the specs `tag|ind1 ind2|codes`, for any first indicator. -/
structure NameTitleSpec where
  tag : String
  ind2 : String
  subfields : List Char
  deriving DecidableEq

def nameTitleSpecs (ind2 : String) : List NameTitleSpec :=
  [⟨"700", ind2, "aqbcdfghklmnoprstx".toList⟩, ⟨"710", ind2, "abcdfghklnoprstx".toList⟩,
    ⟨"711", ind2, "abcdefgklnpqt".toList⟩]

/-- Where the walk over the subfields of a field is. -/
structure NameTitleWalk where
  nonA : Bool := true
  nonT : Bool := true
  author : List String := []
  nameTitle : List String := []

def NameTitleWalk.step (codes : List Char) (walk : NameTitleWalk) (s : Subfield) :
    NameTitleWalk :=
  if s.code ∉ codes then walk
  else
    let nonA := walk.nonA && s.code ≠ 'a'
    let nonT := walk.nonT && s.code ≠ 't'
    if nonT then { walk with nonA, nonT, author := walk.author ++ [s.content] }
    else { walk with nonA, nonT, nameTitle := walk.nameTitle ++ [s.content] }

/-- The name and the levels of the title, for a field with both. -/
def prepNameTitleOf (codes : List Char) (field : Field) : Option (List String) :=
  let walk := field.subfields.foldl (NameTitleWalk.step codes) {}
  if walk.nonA || walk.nonT then none
  else some (" ".intercalate walk.author :: walk.nameTitle)

/-- The tag that a `MarcExtractor` takes a field for. That of an 880 is the first three bytes of its
$6 as they stand; `none` is no tag, where they end in the middle of a character. -/
def effectiveTag (field : Field) : Option String :=
  if field.tag = "880" then
    match field.firstSubfield '6' with
    | none => some field.tag
    | some linkage =>
      if linkage.utf8ByteSize < 3 then some linkage
      else (firstBytes 3 linkage.toList).map String.ofList
  else some field.tag

-- Which fields a `MarcExtractor` finds for a spec.
variable (covers : NameTitleSpec → Field → Bool)

def collectMatchingLines (specs : List NameTitleSpec) (r : Record) :
    List (Field × NameTitleSpec) :=
  r.fields.flatMap fun field => (specs.filter (covers · field)).map fun spec => (field, spec)

def prepNameTitle (specs : List NameTitleSpec) (r : Record) : List (List String) :=
  (collectMatchingLines covers specs r).filterMap fun line =>
    prepNameTitleOf line.2.subfields line.1

def relatedWorks1display (r : Record) : List (List String) :=
  prepNameTitle covers (nameTitleSpecs " ") r

def contains1display (r : Record) : List (List String) :=
  prepNameTitle covers (nameTitleSpecs "2") r

end PrepNameTitle

end Bibdata
