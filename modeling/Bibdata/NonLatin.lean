import Mathlib.Algebra.GroupWithZero.Nat
import Bibdata.Subject

/-!
# Fields in other scripts

An 880 field repeats a field of the record in another script, and its $6 says which. `nonLatinTag`
is the tag it is linked to; the texts of these fields go to one list when they have Chinese,
Japanese or Korean characters and to another when they have none.
-/

namespace Bibdata

section Subfields

def subfieldContents (subfields : List Subfield) : List String := subfields.map (·.content)

def filterByCode (codes : List Char) (subfields : List Subfield) : List Subfield :=
  subfields.filter (·.code ∈ codes)

def subfieldsBefore (stopBefore : Char) (subfields : List Subfield) : List Subfield :=
  subfields.takeWhile (·.code ≠ stopBefore)

/-- From the first subfield with the code on, that one included. -/
def subfieldsAfter (startAt : Char) (subfields : List Subfield) : List Subfield :=
  subfields.dropWhile (·.code ≠ startAt)

def splitWhitespace (s : String) : List String :=
  ((s.toList.splitOnP isSpace).filter (· ≠ [])).map String.ofList

def combineConsecutiveWhitespace (original : String) : String :=
  " ".intercalate (splitWhitespace original)

def joinSubfields (subfields : List Subfield) : String :=
  combineConsecutiveWhitespace (" ".intercalate (subfieldContents subfields))

def joinSubfieldsByCode (field : Field) (included : List Char) : String :=
  joinSubfields (field.subfields.filter (·.code ∈ included))

def joinSubfieldsExcept (field : Field) (excluded : List Char) : String :=
  joinSubfields (field.subfields.filter (·.code ∉ excluded))

def extractFieldValuesBy {α : Type} (r : Record) (criteria : Field → Bool)
    (extractor : Field → Option α) : List α :=
  r.fields.filterMap fun field => if criteria field then extractor field else none

theorem extractFieldValuesBy_some {α : Type} (r : Record) (criteria : Field → Bool)
    (f : Field → α) :
    extractFieldValuesBy r criteria (fun field => some (f field))
      = (r.fields.filter criteria).map f := by
  unfold extractFieldValuesBy
  induction r.fields with
  | nil => rfl
  | cons field fields ih =>
    rw [List.filterMap_cons, List.filter_cons]
    cases criteria field
    · exact ih
    · simp only [if_true, List.map_cons, ih]

theorem mem_extractFieldValuesBy {α : Type} {r : Record} {criteria : Field → Bool}
    {extractor : Field → Option α} {value : α} :
    value ∈ extractFieldValuesBy r criteria extractor
      ↔ ∃ field ∈ r.fields, criteria field ∧ extractor field = some value := by
  simp [extractFieldValuesBy]

def nonLatinTagIncludedIn (tags : List String) (field : Field) : Bool :=
  (nonLatinTag field).any (· ∈ tags)

end Subfields

section Linkage

/-- `str::get(a..b)`. -/
def byteRange (a b : ℕ) (cs : List Char) : Option (List Char) :=
  (firstBytes a cs).bind fun skipped => firstBytes (b - a) (cs.drop skipped.length)

def digitsValue (cs : List Char) : ℕ := Nat.ofDigitChars 10 cs 0

def withoutPlus : List Char → List Char
  | '+' :: cs => cs
  | cs => cs

/-- `parse::<usize>`. -/
def parseUsize (cs : List Char) : Option ℕ :=
  let digits := withoutPlus cs
  if digits ≠ [] ∧ digits.all Char.isDigit ∧ digitsValue digits < 2 ^ 64 then
    some (digitsValue digits)
  else none

structure ParallelFieldPair where
  nonLatin : Field
  latin : Field
  deriving DecidableEq

/-- The field that an 880 field is paired with. Without an overflow check `0 - 1` is the largest
index there is, and past the end of every vector. -/
def pairedWith (r : Record) (nonLatin : Field) : Option Field :=
  (nonLatin.firstSubfield '6').bind fun linkage =>
    (byteRange 0 3 linkage.toList).bind fun tag =>
      let possiblePairs := r.getFields (String.ofList tag)
      (byteRange 4 6 linkage.toList).bind fun occurrence =>
        (parseUsize occurrence).bind fun
          | 0 => none
          | index + 1 => possiblePairs[index]?

def parallelFieldPairs (r : Record) : List ParallelFieldPair :=
  (r.getFields "880").filterMap fun nonLatin =>
    (pairedWith r nonLatin).map fun latin => ⟨nonLatin, latin⟩

def isUnmatched (r : Record) (field : Field) : Bool :=
  field.tag = "880" && !(parallelFieldPairs r).any (·.nonLatin = field)

def unmatchedParallelStrings (r : Record) : List String :=
  extractFieldValuesBy r (isUnmatched r) fun field =>
    some (joinSubfieldsByCode field ['a', 'b', 'c'])

end Linkage

section Scripts

variable (isCjk : Char → Bool)

def hasCjkChars (value : String) : Bool := value.toList.any isCjk

def maybeHasCjkText (original : String) : Option String :=
  if hasCjkChars isCjk original then some original else none

def maybeHasNonCjkText (original : String) : Option String :=
  if !hasCjkChars isCjk original && original ≠ "" then some original else none

/-! What both modules write out, over the test that a text has to pass. -/

section Family

variable (isWord : Char → Bool) (maybe : String → Option String)

def trimmedText (subfields : List Subfield) : String :=
  trimPunctuation isWord (" ".intercalate (subfieldContents subfields))

def allTexts (r : Record) : List String :=
  extractFieldValuesBy r (·.tag = "880") fun field => maybe (joinSubfieldsExcept field ['6'])

def authorTags : List String := ["100", "110", "111", "700", "710", "711"]

def authorSubfields (field : Field) : List Char :=
  match nonLatinTag field with
  | some "100" => ['a', 'q', 'b', 'c', 'd', 'k']
  | some "110" => ['a', 'b', 'c', 'd', 'f', 'g', 'k', 'l', 'n']
  | some "111" => ['a', 'b', 'c', 'd', 'f', 'g', 'k', 'l', 'n', 'p', 'q']
  | some "700" => ['a', 'q', 'b', 'c', 'd', 'k']
  | some "710" => ['a', 'b', 'c', 'd', 'f', 'g', 'k', 'l', 'n']
  | some "711" => ['a', 'b', 'c', 'd', 'f', 'g', 'k', 'l', 'n', 'p', 'q']
  | _ => []

def authorTexts (r : Record) : List String :=
  extractFieldValuesBy r (nonLatinTagIncludedIn authorTags) fun field =>
    maybe (trimmedText isWord
      (filterByCode (authorSubfields field) (subfieldsBefore 't' field.subfields)))

/-- Which fields give a title, and by which subfields; the fields with an author and a title give
what follows the author. -/
structure TitleFields where
  tags : List String
  subfields : Field → List Char
  authorAndTitleTags : List String

/-- `cut` is `subfields_before("t")` or nothing. -/
def titleTexts (T : TitleFields) (cut : List Subfield → List Subfield) (r : Record) :
    List String :=
  extractFieldValuesBy r (nonLatinTagIncludedIn T.tags) (fun field =>
      maybe (trimmedText isWord (filterByCode (T.subfields field) (cut field.subfields))))
    ++ extractFieldValuesBy r (nonLatinTagIncludedIn T.authorAndTitleTags) fun field =>
      maybe (trimmedText isWord (subfieldsAfter 't' field.subfields))

end Family

def linkingEntryTags : List String :=
  ["765", "767", "770", "772", "773", "774", "775", "776", "777", "780", "785", "786", "787"]

def nonLatinTitleTags : List String :=
  ["130", "210", "211", "212", "214", "222", "240", "242", "243", "245", "246", "247", "440",
    "490", "505", "534", "730", "740", "760", "762"] ++ linkingEntryTags ++ ["830", "840"]

def nonLatinTitleSubfields (field : Field) : List Char :=
  match nonLatinTag field with
  | some "245" => ['a', 'b', 'c', 'f', 'g', 'h', 'k', 'n', 'p', 's']
  | some "246" => ['a', 'b', 'f', 'n', 'p']
  | some "505" => ['t']
  | some "130" => ['a', 'p', 'l', 'd', 'f', 'h', 'k', 'm', 'n', 'o', 'r', 's', 't']
  | some "210" => ['a', 'b']
  | some "211" | some "212" | some "214" => ['a']
  | some "222" => ['a', 'b']
  | some "240" => ['a', 'p', 'l', 'd', 'f', 'h', 'k', 'm', 'n', 'o', 'r', 's']
  | some "242" => ['a', 'b', 'c', 'h', 'n', 'p']
  | some "243" => ['a', 'd', 'f', 'k', 'l', 'm', 'n', 'o', 'p', 'r', 's']
  | some "247" => ['a', 'b', 'f', 'h', 'n', 'p']
  | some "440" => ['a', 'n', 'p', 'v', 'x']
  | some "490" => ['a', 'v', 'x']
  | some "534" => ['f']
  | some "730" => ['a', 'p', 'l', 's', 'k', 'f', 'm', 'n', 'o', 'r']
  | some "740" => ['a', 'h', 'n', 'p']
  | some "760" | some "762" => ['a', 'c', 'g', 's', 't']
  | some "830" =>
    ['a', 'd', 'f', 'g', 'h', 'k', 'l', 'm', 'n', 'o', 'p', 'r', 's', 't', 'v']
  | some "840" => ['a', 'n', 'p', 'v']
  | some tag => if tag ∈ linkingEntryTags then ['k', 's', 't'] else []
  | none => []

def nonLatinSeriesTitleTags : List String :=
  ["440", "490", "534", "760", "762"] ++ linkingEntryTags ++ ["830", "840"]

def nonLatinSeriesTitleSubfields (field : Field) : List Char :=
  match nonLatinTag field with
  | some "440" => ['a', 'n', 'p', 'v', 'x']
  | some "490" => ['a', 'v', 'x']
  | some "534" => ['f']
  | some "760" | some "762" => ['a', 'c', 'g', 's', 't']
  | some "830" =>
    ['a', 'd', 'f', 'g', 'h', 'k', 'l', 'm', 'n', 'o', 'p', 'r', 's', 't', 'v']
  | some "840" => ['a', 'n', 'p', 'v']
  | some tag => if tag ∈ linkingEntryTags then ['k'] else []
  | none => []

def titleFields : TitleFields where
  tags := nonLatinTitleTags
  subfields := nonLatinTitleSubfields
  authorAndTitleTags :=
    ["100", "110", "111", "400", "410", "411", "700", "710", "711", "800", "810", "811"]

def seriesTitleFields : TitleFields where
  tags := nonLatinSeriesTitleTags
  subfields := nonLatinSeriesTitleSubfields
  authorAndTitleTags := ["400", "410", "411", "800", "810", "811"]

variable (isWord : Char → Bool)

def nonLatinNonCjkAll : Record → List String := allTexts (maybeHasNonCjkText isCjk)

def nonLatinNonCjkAuthors : Record → List String :=
  authorTexts isWord (maybeHasNonCjkText isCjk)

def nonLatinNonCjkTitles : Record → List String :=
  titleTexts isWord (maybeHasNonCjkText isCjk) titleFields id

def nonLatinNonCjkSeriesTitles : Record → List String :=
  titleTexts isWord (maybeHasNonCjkText isCjk) seriesTitleFields id

def cjkAll : Record → List String := allTexts (maybeHasCjkText isCjk)

def cjkAuthors : Record → List String := authorTexts isWord (maybeHasCjkText isCjk)

def cjkTitles : Record → List String :=
  titleTexts isWord (maybeHasCjkText isCjk) titleFields (subfieldsBefore 't')

def cjkSeriesTitles : Record → List String :=
  titleTexts isWord (maybeHasCjkText isCjk) seriesTitleFields (subfieldsBefore 't')

def isParallelNote (field : Field) : Bool := (field.firstSubfield '6').any (startsWith · "5")

/-- `extractFields` are the fields with a tag of a range. The texts are not trimmed. -/
def notesCjk (extractFields : ℕ → ℕ → Record → List Field) (r : Record) : List String :=
  ((extractFields 500 599 r ++ (r.getFields "880").filter isParallelNote).map fun field =>
    " ".intercalate (subfieldContents (field.subfields.filter (·.code ≠ '6')))).filter
      (hasCjkChars isCjk)

def cjkSubjectSubfields (field : Field) : List Char :=
  match nonLatinTag field, field.ind2 with
  | some "600", "0" =>
    ['a', 'b', 'c', 'd', 'f', 'k', 'l', 'm', 'n', 'o', 'p', 'q', 'r', 't', 'v', 'x', 'y', 'z']
  | some "610", "0" =>
    ['a', 'b', 'f', 'k', 'l', 'm', 'n', 'o', 'p', 'r', 's', 't', 'v', 'x', 'y', 'z']
  | some "611", "0" =>
    ['a', 'b', 'c', 'd', 'e', 'f', 'g', 'k', 'l', 'n', 'p', 'q', 's', 't', 'v', 'x', 'y', 'z']
  | some "630", "0" =>
    ['a', 'd', 'f', 'g', 'k', 'l', 'm', 'n', 'o', 'p', 'r', 's', 't', 'v', 'x', 'y', 'z']
  | some "650", "0" | some "650", "7" => ['a', 'b', 'c', 'v', 'x', 'y', 'z']
  | some "651", "0" => ['a', 'v', 'x', 'y', 'z']
  | _, _ => []

def subjectsCjk (r : Record) : List String :=
  extractFieldValuesBy r (nonLatinTagIncludedIn ["600", "610", "611", "630", "650", "651"])
    fun field => maybeHasCjkText isCjk
      (" ".intercalate (subfieldContents
        (filterByCode (cjkSubjectSubfields field) field.subfields)))

end Scripts

end Bibdata
