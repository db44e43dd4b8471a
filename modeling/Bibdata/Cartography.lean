import Bibdata.Marc

/-!
# What a map covers

The four coordinates of the first 034, where each of them is a decimal number.
-/

namespace Bibdata

section Coordinates

def afterSign : List Char → List Char
  | '+' :: cs => cs
  | '-' :: cs => cs
  | cs => cs

/-- `^[-+]?[0-9]*\.?[0-9]+$`. -/
def validDecimalCoordinate (raw : String) : Bool :=
  let number := afterSign raw.toList
  match number.dropWhile Char.isDigit with
  | [] => number ≠ []
  | '.' :: fraction => fraction ≠ [] && fraction.all Char.isDigit
  | _ => false

/-- A coordinate as it is written. -/
structure Coordinate where
  raw : String
  valid : validDecimalCoordinate raw = true
  deriving DecidableEq

def Coordinate.fromStr (raw : String) : Option Coordinate :=
  if h : validDecimalCoordinate raw then some ⟨raw, h⟩ else none

end Coordinates

structure BoundingBox where
  west : Coordinate
  east : Coordinate
  north : Coordinate
  south : Coordinate
  deriving DecidableEq

namespace BoundingBox

def ofField (field : Field) : Option BoundingBox := do
  let west ← (field.firstSubfield 'd').bind Coordinate.fromStr
  let east ← (field.firstSubfield 'e').bind Coordinate.fromStr
  let north ← (field.firstSubfield 'f').bind Coordinate.fromStr
  let south ← (field.firstSubfield 'g').bind Coordinate.fromStr
  some ⟨west, east, north, south⟩

def coverageDetails : String := "units=degrees; projection=EPSG:4326"

def toText (box : BoundingBox) : String :=
  "northlimit=" ++ box.north.raw ++ "; eastlimit=" ++ box.east.raw ++ "; southlimit="
    ++ box.south.raw ++ "; westlimit=" ++ box.west.raw ++ "; " ++ coverageDetails

end BoundingBox

def coverageDisplay (r : Record) : Option String :=
  ((r.getFields "034").head?.bind BoundingBox.ofField).map BoundingBox.toText

end Bibdata
