import Bibdata.Formats
import Bibdata.NonLatin

/-!
# The 008

What one position of the 008 says, or a range of them: the type of its dates, the dates, and the
literary form. `isNumeric` is `char::is_numeric`, `isDecimal` is `\d` of the regular expressions.
-/

namespace Bibdata

section GeneralInformation

variable (r : Record)

def generalInformation : Option Controlfield := r.controlFields.find? (·.tag = "008")

def typeOfDateIndex : ℕ := 6

def charFrom008 (index : ℕ) : Option Char :=
  (generalInformation r).bind (·.content.toList[index]?)

/-- The bytes from `a` up to `b`. -/
def sliceFrom008 (a b : ℕ) : Option String :=
  (generalInformation r).bind fun field =>
    (byteRange a b field.content.toList).map String.ofList

example : charFrom008 ⟨[⟨"008", "940720d19761979it mr"⟩], [], ""⟩ typeOfDateIndex = some 'd' := by
  decide +kernel

end GeneralInformation

section Dates

inductive DateType
  | noDatesGivenBCDateInvolved
  | continuousResourceCurrentlyPublished
  | continuousResourceCeasedPublication
  | detailedDate
  | inclusiveDatesOfCollection
  | rangeOfYearsOfBulkOfCollection
  | multipleDates
  | datesUnknown
  | dateOfDistributionReleaseIssueAndProductionRecordingSessionWhenDifferent
  | questionableDate
  | reprintReissueDateAndOriginalDate
  | singleKnownDateProbableDate
  | publicationDateAndCopyrightDate
  | continuingResourceStatusUnknown
  | none
  deriving DecidableEq

def DateType.ofChar : Char → DateType
  | 'b' => noDatesGivenBCDateInvolved
  | 'c' => continuousResourceCurrentlyPublished
  | 'd' => continuousResourceCeasedPublication
  | 'e' => detailedDate
  | 'i' => inclusiveDatesOfCollection
  | 'k' => rangeOfYearsOfBulkOfCollection
  | 'm' => multipleDates
  | 'n' => datesUnknown
  | 'p' => dateOfDistributionReleaseIssueAndProductionRecordingSessionWhenDifferent
  | 'r' => reprintReissueDateAndOriginalDate
  | 's' => singleKnownDateProbableDate
  | 't' => publicationDateAndCopyrightDate
  | 'u' => continuingResourceStatusUnknown
  | _ => none

def DateType.ofRecord (r : Record) : DateType :=
  match charFrom008 r typeOfDateIndex with
  | some code => .ofChar code
  | Option.none => .none

inductive Date
  | knownYear (year : String)
  | partiallyKnownYear (year : String)
  | unknownYear
  | yearNotAvailable
  deriving DecidableEq

/-- The year that is written for an end date: as late as it may be. -/
def Date.endToString : Date → Option String
  | knownYear year => some year
  | partiallyKnownYear year =>
    some (String.ofList (year.toList.map fun c => if c = 'u' then '9' else c))
  | _ => none

variable (isNumeric isDecimal : Char → Bool)

def isKnownYear (s : String) : Bool := s.utf8ByteSize = 4 && s.toList.all isNumeric

def isPartiallyKnownYear (s : String) : Bool :=
  s.toList.length = 4 && s.toList.all fun c => c = 'u' || isDecimal c

def Date.ofString (s : String) : Option Date :=
  if s = "9999" then some yearNotAvailable
  else if s = "uuuu" then some unknownYear
  else if isKnownYear isNumeric s then some (knownYear s)
  else if isPartiallyKnownYear isDecimal s then some (partiallyKnownYear s)
  else none

/-- `EndDate::try_from`. -/
def endDate (r : Record) : Option Date :=
  let year := match DateType.ofRecord r with
    | .detailedDate => sliceFrom008 r 7 11
    | _ => sliceFrom008 r 11 15
  year.bind (Date.ofString isNumeric isDecimal)

/-- The year that is written for a begin date: as early as it may be. -/
def Date.beginToString : Date → Option String
  | knownYear year => some year
  | partiallyKnownYear year =>
    some (String.ofList (year.toList.map fun c => if c = 'u' then '0' else c))
  | _ => none

/-- `BeginDate::try_from`. -/
def beginDate (r : Record) : Option Date :=
  (sliceFrom008 r 7 11).bind (Date.ofString isNumeric isDecimal)

def publicationDateCitationDisplay (r : Record) : Option String :=
  match beginDate isNumeric isDecimal r with
  | some (.knownYear year) => some year
  | _ => none

end Dates

section LiteraryForms

inductive LiteraryForm
  | notFiction
  | fiction
  | dramas
  | essays
  | novels
  | humorSatireEtc
  | letters
  | shortStories
  | mixedForms
  | poetry
  | speeches
  deriving DecidableEq

def LiteraryForm.isLiterature (form : LiteraryForm) : Bool :=
  form ∈ [fiction, dramas, essays, novels, shortStories, poetry]

def LiteraryForm.ofChar : Char → Option LiteraryForm
  | '0' => some notFiction
  | '1' => some fiction
  | 'd' => some dramas
  | 'e' => some essays
  | 'f' => some novels
  | 'h' => some humorSatireEtc
  | 'i' => some letters
  | 'j' => some shortStories
  | 'm' => some mixedForms
  | 'p' => some poetry
  | 's' => some speeches
  | _ => none

def literaryForms (r : Record) : List LiteraryForm :=
  ((charFrom008 r 33).bind LiteraryForm.ofChar).toList

end LiteraryForms

end Bibdata
