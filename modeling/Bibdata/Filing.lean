import Bibdata.ProcessHoldings
import Bibdata.Library.Shelf

/-!
# The holdings as a shelf

What `process_holdings` is for: each item is filed under a key, its place, and the first item filed
there heads the holding with its own `852` and place. An `852` without items heads a holding anew.
-/

namespace Bibdata

/-- What a holding is built from: an `852` and, unless it has none, one of its items. -/
abbrev Heading := Field × Option Field

/-- The key of the holding for an item of an `852`. -/
def place (r : Record) (f852 f876 : Field) : Option String :=
  if currentLocationCode f876 = almaPermanentLocationCode f852
      ∨ currentLocationCode f876 = some resShare then holdingId r f852
  else currentLocationCode f876

/-- The code that such an item is shelved at. -/
def shelvedAt (f852 f876 : Field) : Option String :=
  if currentLocationCode f876 = some resShare then almaPermanentLocationCode f852
  else currentLocationCode f876

def Heading.locationCode : Heading → Option String
  | (f852, none) => almaPermanentLocationCode f852
  | (f852, some f876) => shelvedAt f852 f876

def Heading.tempLocationCode : Heading → Option String
  | (_, none) => none
  | (f852, some f876) =>
    if inTemporaryLocation f876 f852 then currentLocationCode f876 else none

/-- The items of an `852` as they are taken: those at its own place first. -/
def orderedItems (r : Record) (f852 : Field) : List Field :=
  selectPermanentLocation876 (itemsBy852 r f852) f852
    ++ selectTemporaryLocation876 (itemsBy852 r f852) f852

/-- What one `852` files; an item without a place is not filed. -/
def filingsOf (labels : HoldingLocations) (r : Record) (f852 : Field) :
    List (Shelf.Op String Heading Field) :=
  if itemsBy852 r f852 ≠ [] then
    (orderedItems r f852).filterMap fun f876 =>
      (place r f852 f876).map fun key => .file key (f852, some f876) f876
  else if invalidLocation labels (almaPermanentLocationCode f852) then []
  else (holdingId r f852).toList.map fun key => .reopen key (f852, none)

def filings (labels : HoldingLocations) (r : Record) : List (Shelf.Op String Heading Field) :=
  (fields852Alma r).flatMap (filingsOf labels r)

end Bibdata
