import Mathlib.Data.Int.Order.Basic
import Mathlib.Data.String.Basic
import Bibdata.Marc
import Bibdata.NonLatin

/-!
# The date a record was cataloged

The dates of the items come before those of the electronic portfolios, and these before the date of
the record. Each list is sorted as text, and the first date that can be read is taken. The readers
of dates and of timestamps are outside: an instant is a number of nanoseconds.
-/

namespace Bibdata

inductive TimeZone
  | utc
  | newYork
  deriving DecidableEq

structure DateLibrary where
  parseDatetimeAtDate : TimeZone → String → Option ℤ
  /-- The second in UTC, as `%Y-%m-%dT%H:%M:%SZ`. -/
  strftimeSecond : ℤ → String

def nanosecondsPerSecond : ℤ := 1000000000

/-- The second that an instant is in. -/
def second (instant : ℤ) : ℤ := instant / nanosecondsPerSecond

def DateLibrary.strftime (D : DateLibrary) (instant : ℤ) : String :=
  D.strftimeSecond (second instant)

/-- What stands before the first occurrence of a text. -/
def textBefore (found : List Char) : List Char → Option (List Char)
  | [] => if found = [] then some [] else none
  | c :: cs => if found.isPrefixOf (c :: cs) then some [] else (textBefore found cs).map (c :: ·)

def parseDate (D : DateLibrary) (raw : String) : Option ℤ :=
  match textBefore "US/Eastern".toList raw.toList with
  | some text => D.parseDatetimeAtDate .newYork (String.ofList text)
  | none => D.parseDatetimeAtDate .utc raw

section Portfolios

inductive AlmaElectronicPortfolio
  | active
  | inactive
  deriving DecidableEq

def AlmaElectronicPortfolio.ofContent (content : String) : AlmaElectronicPortfolio :=
  if content = "Available" then active else inactive

def isValidPortfolioId (id : String) : Bool := startsWith id "53" && endsWith id "06421"

def AlmaElectronicPortfolio.ofField (field : Field) : Option AlmaElectronicPortfolio :=
  if field.tag ≠ "951" then none
  else (field.firstSubfield '8').bind fun id =>
    if isValidPortfolioId id then (field.firstSubfield 'a').map ofContent else none

end Portfolios

section Cataloged

variable (r : Record)

def itemEditDates : List String :=
  extractFieldValuesBy r
    (fun field => field.tag = "876" && (field.firstSubfield '0').any almaCodeStart22)
    (·.firstSubfield 'd')

def electronicEditDates : List String :=
  extractFieldValuesBy r (fun field => AlmaElectronicPortfolio.ofField field = some .active)
    (·.firstSubfield 'w')

def recordEditDates : List String := extractFieldValuesBy r (·.tag = "950") (·.firstSubfield 'b')

def sorted (values : List String) : List String := values.mergeSort fun a b => a ≤ b

def catalogedDate (D : DateLibrary) : Option String :=
  if isScsb r then none
  else ((sorted (itemEditDates r) ++ sorted (electronicEditDates r)
    ++ sorted (recordEditDates r)).filterMap fun raw => (parseDate D raw).map D.strftime).head?

end Cataloged

end Bibdata
