import Bibdata.Marc
import Bibdata.Library.Delimited

/-!
# Strings as the two languages cut them

`split` is Ruby's, `splitChar` is Rust's. `isWord` is `\w` of the regular expressions.
-/

namespace Bibdata

/-- `split`, which leaves out empty parts at the end. -/
def split (c : Char) (s : String) : List String := (Delimited.parts c s.toList).map String.ofList

/-- `str::split`. -/
def splitChar (c : Char) (s : String) : List String := (s.toList.splitOn c).map String.ofList

def trimEndMatches (c : Char) (s : String) : String :=
  String.ofList (s.toList.rdropWhile (· = c))

/-- `str::to_lowercase`, for the letters of ASCII. -/
def lowercaseLetters (s : String) : String := String.ofList (s.toList.map Char.toLower)

theorem lowercaseLetters_eq_empty (s : String) : lowercaseLetters s = "" ↔ s = "" := by
  rw [lowercaseLetters, ← String.toList_inj, String.toList_ofList, String.toList_empty,
    List.map_eq_nil_iff, String.toList_eq_nil_iff]

section TrimPunctuation

variable (isWord : Char → Bool)

/-- ` *[ ,\/;:] *\z`, replaced by nothing. -/
def trimTrailing (s : List Char) : List Char :=
  let bare := s.rdropWhile (· = ' ')
  match bare.getLast? with
  | some c =>
    if c ∈ [',', '/', ';', ':'] then bare.dropLast.rdropWhile (· = ' ')
    else bare
  | none => bare

/-- `( *\w{3,}) *\.*\z`, replaced by its group. -/
def trimTrailingPeriod (s : List Char) : List Char :=
  let bare := (s.rdropWhile (· = '.')).rdropWhile (· = ' ')
  if 3 ≤ (bare.rtakeWhile isWord).length then bare else s

def trimStartingAndEndingBrackets (original : List Char) : List Char :=
  let trimmed := match original with
    | '[' :: startTrimmed =>
      some (if startTrimmed.getLast? = some ']' then startTrimmed.dropLast else startTrimmed)
    | _ => if original.getLast? = some ']' then some original.dropLast else none
  match trimmed with
  | some t => if '[' ∉ t ∧ ']' ∉ t then t else original
  | none => original

def trimPunctuation (s : String) : String :=
  trim (String.ofList
    (trimStartingAndEndingBrackets (trimTrailingPeriod isWord (trimTrailing s.toList))))

example : trimPunctuation Char.isAlpha " one two three ." = "one two three" := by decide +kernel

example : trimPunctuation Char.isAlpha "Bill Dueber, Jr." = "Bill Dueber, Jr." := by decide +kernel

end TrimPunctuation

end Bibdata
