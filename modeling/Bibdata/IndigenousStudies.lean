import Bibdata.Subject

/-!
# The headings that indicate indigenous studies

A heading indicates them by any of its subdivisions, by its main term, or by its main term together
with a window of subdivisions. `toLowercase` is `str::to_lowercase`.
-/

namespace Bibdata

def containsSubslice (slice subslice : List String) : Bool :=
  if subslice.isEmpty then true
  else if subslice.length > slice.length then false
  else (List.range (slice.length - subslice.length + 1)).any fun i =>
    (slice.drop i).take subslice.length = subslice

/-- ` ǂ. `, replaced by the separator. -/
def replaceIndicators : List Char → List Char
  | [] => []
  | ' ' :: 'ǂ' :: code :: ' ' :: rest =>
    if code = '\n' then ' ' :: replaceIndicators ('ǂ' :: code :: ' ' :: rest)
    else separator :: replaceIndicators rest
  | c :: rest => c :: replaceIndicators rest

section Terms

variable (toLowercase : String → String)

def normalize (raw : String) : String :=
  toLowercase (String.ofList (replaceIndicators raw.toList))

/-- The three lists as they stand in their files, in the order in which they are gone through. A
row of the second is a main term with its windows of subdivisions. -/
structure IndigenousTerms where
  standaloneSubfieldA : List String
  combinedTerms : List (String × List (List String))
  standaloneSubfieldX : List String
  ne_empty_subfieldA : "" ∉ standaloneSubfieldA
  ne_empty_subfieldX : "" ∉ standaloneSubfieldX
  ne_empty_window : ∀ row ∈ combinedTerms, ∀ window ∈ row.2, window ≠ [] ∧ "" ∉ window

variable (terms : IndigenousTerms)

def mainTerms : List String := terms.standaloneSubfieldA.map (normalize toLowercase)

def lcshSubfields : List String := terms.standaloneSubfieldX.map (normalize toLowercase)

/-- The rows inserted into the map one after the other; a later row of a key replaces an earlier
one. -/
def combinedWindows (main : String) : Option (List (List String)) :=
  (terms.combinedTerms.reverse.find? (normalize toLowercase ·.1 = main)).map fun row =>
    row.2.map (·.map (normalize toLowercase))

def hasSubfield (term : String) : Bool :=
  (splitChar separator term).any fun subfield =>
    toLowercase subfield ∈ lcshSubfields toLowercase terms

def hasMainTerm (term : String) : Bool :=
  (splitChar separator term).head?.any fun mainTerm =>
    trimEndMatches '.' (normalize toLowercase mainTerm) ∈ mainTerms toLowercase terms

def hasCombinedTerm (term : String) : Bool :=
  if separator ∉ term.toList then false
  else
    let subfields := splitChar separator term
    let subdivisions := subfields.tail.map (normalize toLowercase)
    (subfields.head?.bind fun main =>
        combinedWindows toLowercase terms (normalize toLowercase main)).any fun windows =>
      windows.any (containsSubslice subdivisions)

def indicatesIndigenousStudies (headings : List String) : Bool :=
  headings.any fun term =>
    hasSubfield toLowercase terms term || hasMainTerm toLowercase terms term
      || hasCombinedTerm toLowercase terms term

end Terms

end Bibdata
