import Bibdata.Library.OrderedHash
import Bibdata.Marc

/-!
# Where a record is to be had

`Online` and `In the Library`, from what other rules have put into the output and from the second
indicator of a link.
-/

namespace Bibdata

structure Context where
  outputHash : OrderedHash String (List String)

def Context.present (context : Context) (key : String) : Bool :=
  (context.outputHash.get key).any (· ≠ [])

structure AccessFacetBuilder where
  record : Record
  context : Context

namespace AccessFacetBuilder

variable (b : AccessFacetBuilder)

def electronicPortfolio : Option String :=
  if b.context.present "electronic_portfolio_s" then some "Online" else none

def inLibrary : Option String :=
  if b.context.present "location_code_s" then some "In the Library" else none

def indicatesOnline (indicator : String) : Bool := indicator ∈ ["0", "1", " "]

/-- Only the first link is looked at. -/
def marcIndicator : Option String :=
  let field := b.record.fields.find? (·.tag = "856")
  let indicator := field.map (·.ind2)
  if indicator.any indicatesOnline then some "Online" else none

def digitizedInFiggy : Option String :=
  if b.context.present "figgy_1display" then some "Online" else none

def build : List String :=
  [b.electronicPortfolio, b.inLibrary, b.marcIndicator, b.digitizedInFiggy].eraseDups.reduceOption

end AccessFacetBuilder

end Bibdata
