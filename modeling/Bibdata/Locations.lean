import Bibdata.HoldingLocation
import Bibdata.Library.OrderedHash
import Bibdata.LocationData

/-!
# The copies of the locations

The file of holding locations is built into the library that indexes (`HOLDING_LOCATIONS`). It is
also read into the database, which availability and requests look in, and the translation maps are
written from there.
-/

namespace Bibdata

structure Location where
  label : String
  code : String
  /-- The label of its library. -/
  library : String
  deriving DecidableEq

namespace Location

variable {N : Type}

/-- `Library`, from an object or from the array of its fields. -/
def libraryOfJson : JsonValue N → Option String
  | .array [label] => label.asStr
  | json => (json.get "label").bind JsonValue.asStr

/-- `Location`, from an object or from the array of its fields. -/
def ofJson : JsonValue N → Option Location
  | .array [label, code, library] => do
    some ⟨← label.asStr, ← code.asStr, ← libraryOfJson library⟩
  | json => do
    let label ← (← json.get "label").asStr
    let code ← (← json.get "code").asStr
    let library ← libraryOfJson (← json.get "library")
    some ⟨label, code, library⟩

def listOfJson : JsonValue N → Option (List Location)
  | .array locations => locations.mapM ofJson
  | _ => none

def table (locations : List Location) : OrderedHash String Location :=
  .ofList (locations.map fun location => (location.code, location))

end Location

/-- `HOLDING_LOCATIONS`, where the file can be read so; the other lookups are from it. -/
def holdingLocations {N : Type} (json : JsonValue N) : Option (OrderedHash String Location) :=
  (Location.listOfJson json).map Location.table

def HoldingLocations.ofTable (table : OrderedHash String Location) : HoldingLocations where
  locationLabel code := (table.get code).map (·.label)
  libraryLabel code := (table.get code).map (·.library)

/-- The label of the location and that of its library. -/
def HoldingLocations.labels (table : HoldingLocations) (code : String) :
    Option (Option String × Option String) :=
  (table.locationLabel code).bind fun label =>
    (table.libraryLabel code).map fun library => (some label, some library)

namespace LocationDb

variable (db : LocationDb)

/-- `HoldingLocation.find_by(code:)`. -/
def findHoldingLocation (code : String) : Option HoldingLocationRow :=
  db.holdingLocations.find? (·.code = some code)

def libraryOf (holding : HoldingLocationRow) : Option LibraryRow :=
  db.libraries.find? (·.id = holding.locationsLibraryId)

def labels (code : String) : Option (Option String × Option String) :=
  (db.findHoldingLocation code).bind fun holding =>
    (db.libraryOf holding).map fun library => (holding.label, library.label)

end LocationDb

/-- `location_display.rb` and `locations.rb`. -/
structure LocationMaps where
  libDisplay : OrderedHash (Option String) (Option String) := {}
  locationsDisplay : OrderedHash (Option String) (Option String) := {}

def LocationMaps.labels (maps : LocationMaps) (code : String) :
    Option (Option String × Option String) :=
  (maps.locationsDisplay.get (some code)).bind fun label =>
    (maps.libDisplay.get (some code)).map fun library => (label, library)

namespace LocationMapsGeneratorService

/-- A holding location without a library raises. -/
def addLocation (db : LocationDb) (maps : LocationMaps) (holding : HoldingLocationRow) :
    Option LocationMaps :=
  (db.libraryOf holding).map fun library =>
    { libDisplay := maps.libDisplay.set holding.code library.label
      locationsDisplay := maps.locationsDisplay.set holding.code holding.label }

/-- `generate`, with the rows in the order in which the database gives them. -/
def generate (db : LocationDb) (locations : List HoldingLocationRow) : Option LocationMaps :=
  locations.foldlM (addLocation db) {}

end LocationMapsGeneratorService

end Bibdata
