import Bibdata.Marc

/-!
# Location codes

The location of an `852`, that of an `876`, and the codes that a record has for its locations. The
labels of the codes come from a table.
-/

namespace Bibdata

/-- The labels that `HOLDING_LOCATIONS` has for a code. -/
structure HoldingLocations where
  locationLabel : String → Option String
  libraryLabel : String → Option String

/-- Where the resource sharing requests are. -/
def resShare : String := "RES_SHARE$IN_RS_REQ"

def almaPermanentLocationCode (f852 : Field) : Option String :=
  match f852.firstSubfield '8' with
  | some almaCode =>
    if almaCodeStart22 almaCode then
      let b := (f852.firstSubfield 'b').getD ""
      let c := (f852.firstSubfield 'c').getD ""
      if c = "" then some b else some (b ++ "$" ++ c)
    else none
  | none => none

def partnerPermanentLocationCode (f852 : Field) : Option String :=
  (f852.firstSubfield '0').bind fun _ => f852.firstSubfield 'b'

def currentLocationCode (f876 : Field) : Option String :=
  match f876.firstSubfield 'y', f876.firstSubfield 'z' with
  | some y, some z => some (y ++ "$" ++ z)
  | _, _ => none

/-- The code that `location_codes` takes of the current and the permanent one. -/
def locationCode : Option String → Option String → Option String
  | some curr, some perm => if curr = resShare then some perm else some curr
  | some curr, none => some curr
  | none, some perm => some perm
  | none, none => none

def firstItem (r : Record) (f852 : Field) : Option Field :=
  (f852.firstSubfield '8').bind fun id =>
    (r.getFields "876").find? fun f876 => f876.firstSubfield '0' = some id

def permanentCode (r : Record) (f852 : Field) : Option String :=
  match ControlNumber.ofRecord r with
  | .alma _ => almaPermanentLocationCode f852
  | .scsb _ => partnerPermanentLocationCode f852
  | _ => none

def locationCodes (r : Record) : List String :=
  (r.getFields "852").filterMap fun f852 =>
    if f852.hasSubfield 'b' then
      locationCode ((firstItem r f852).bind currentLocationCode) (permanentCode r f852)
    else none

/-- The names of the libraries that have a holding of the record. -/
def locationFacet (labels : HoldingLocations) (r : Record) : Option (List String) :=
  let libraryNames := ((locationCodes r).filterMap labels.libraryLabel).filter (· ≠ "Online")
  if libraryNames = [] then none else some libraryNames

def holdingId (r : Record) (f852 : Field) : Option String :=
  let scsbId := if isScsb r then f852.firstSubfield '0' else none
  match f852.firstSubfield '8' with
  | some s => if almaCodeStart22 s then some s else scsbId
  | none => scsbId

end Bibdata
