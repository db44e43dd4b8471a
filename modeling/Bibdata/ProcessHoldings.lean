import Bibdata.HoldingLocation
import Bibdata.Library.OrderedHash

/-!
# `process_holdings`

The holdings of a record by their keys. Each Alma `852` is taken in turn: its items (the `876`s
that name its id) are put into the permanent holding or, where they are elsewhere, into the
holding of that place; an `852` without items makes a holding of its own.

`build` is what an item is made of; `build_item` is what the code makes of it.
-/

namespace Bibdata

/-- `build_item`. -/
structure Item where
  holdingId : Option String
  description : Option String
  id : Option String
  statusAtLoad : Option String
  barcode : Option String
  copyNumber : Option String
  processType : Option String
  deriving DecidableEq

def buildItem (f876 : Field) : Item where
  holdingId := f876.firstSubfield '0'
  description := f876.firstSubfield '3'
  id := f876.firstSubfield 'a'
  statusAtLoad := f876.firstSubfield 'j'
  barcode := f876.firstSubfield 'p'
  copyNumber := f876.firstSubfield 't'
  processType := f876.firstSubfield 'x'

/-- A holding, a list empty where the hash has no such entry. -/
structure Holding (α : Type*) where
  locationCode : Option String := none
  location : Option String := none
  library : Option String := none
  currentLocation : Option String := none
  currentLibrary : Option String := none
  callNumber : Option String := none
  callNumberBrowse : Option String := none
  subLocation : List String := []
  shelvingTitle : List String := []
  locationNote : List String := []
  tempLocationCode : Option String := none
  items : List α := []
  locationHas : List (Option String) := []
  supplements : List (Option String) := []
  indexes : List (Option String) := []

abbrev Holdings (α : Type*) := OrderedHash (Option String) (Holding α)

/-- `build_call_number`. -/
def buildCallNumber (f852 : Field) : Option String :=
  let s := " ".intercalate
    (((f852.subfields.filter (·.code ∈ ['h', 'i', 'k', 'j'])).map (·.content)).filter (· ≠ ""))
  if s = "" then none else some s

def removeEmptyCallNumberFields {α : Type*} (holding : Holding α) : Holding α :=
  { holding with
    callNumber := holding.callNumber.filter (!blank ·)
    callNumberBrowse := holding.callNumberBrowse.filter (!blank ·) }

def parseTextualHoldings (f : Field) (tag : String) : Option String :=
  let texts := if f.tag = tag then (f.firstSubfield 'a').toList ++ (f.firstSubfield 'z').toList
    else []
  if texts = [] then none else some (" ".intercalate texts)

section Helpers

variable (r : Record)

def fields852Alma : List Field :=
  (r.getFields "852").filter fun f852 => almaCodeStart22 ((f852.firstSubfield '8').getD "")

def itemsBy852 (f852 : Field) : List Field :=
  (r.getFields "876").filter fun f876 => f876.firstSubfield '0' = holdingId r f852

def group866867868OnHoldingPermId (id : Option String) : List Field :=
  r.fields.filter fun f => f.tag ∈ ["866", "867", "868"] ∧ f.firstSubfield '8' = id

def inTemporaryLocation (f876 f852 : Field) : Bool :=
  currentLocationCode f876 ≠ almaPermanentLocationCode f852

def selectPermanentLocation876 (items : List Field) (f852 : Field) : List Field :=
  items.filter fun f876 => !inTemporaryLocation f876 f852

def selectTemporaryLocation876 (items : List Field) (f852 : Field) : List Field :=
  items.filter fun f876 => inTemporaryLocation f876 f852

end Helpers

section Holdings

variable {α : Type*} (labels : HoldingLocations) (build : Field → α) (r : Record)

/-- `build_holding`, permanent where no `876` is given. -/
def buildHolding (f852 : Field) (f876 : Option Field) : Holding α :=
  let place : Holding α :=
    match f876 with
    | none =>
      let code := almaPermanentLocationCode f852
      { locationCode := code
        location := code.bind labels.locationLabel
        library := code.bind labels.libraryLabel }
    | some f876 =>
      let code := currentLocationCode f876
      { locationCode := code
        currentLocation := code.bind labels.locationLabel
        currentLibrary := code.bind labels.libraryLabel }
  { place with
    callNumber := buildCallNumber f852
    callNumberBrowse := buildCallNumber f852
    subLocation := (f852.firstSubfield 'k').toList
    shelvingTitle := (f852.firstSubfield 'l').toList
    locationNote := (f852.firstSubfield 'z').toList }

def invalidLocation (code : Option String) : Bool := (code.bind labels.locationLabel).isNone

def holdingItems (key : Option String) (h : Holdings α) (item : α) : Holdings α :=
  match h.get key with
  | some holding => h.set key { holding with items := holding.items ++ [item] }
  | none => h

def addItemToHolding (f876 : Field) (key : Option String) (h : Holdings α) (holding : Holding α) :
    Holdings α :=
  let h :=
    if (present key || !invalidLocation labels holding.locationCode) && (h.get key).isNone then
      h.set key (removeEmptyCallNumberFields holding)
    else h
  holdingItems key h (build f876)

def addPermanentItemsToHoldings (items : List Field) (f852 : Field) (h : Holdings α)
    (holding : Holding α) : Holdings α :=
  (selectPermanentLocation876 items f852).foldl
    (fun h f876 => addItemToHolding labels build f876 (holdingId r f852) h holding) h

def addTemporaryItemsToHoldings (items : List Field) (f852 : Field) (h : Holdings α) :
    Holdings α :=
  (selectTemporaryLocation876 items f852).foldl
    (fun h f876 =>
      let code := currentLocationCode f876
      if code = some resShare then
        addItemToHolding labels build f876 (holdingId r f852) h
          { buildHolding labels f852 none with tempLocationCode := code }
      else
        addItemToHolding labels build f876 code h
          { buildHolding labels f852 (some f876) with tempLocationCode := code })
    h

def process866867868Fields (fields : List Field) (h : Holdings α) (id : Option String) :
    Holdings α :=
  fields.foldl
    (fun h f =>
      match h.get id with
      | some holding => h.set id
          { holding with
            locationHas := holding.locationHas ++ [parseTextualHoldings f "866"]
            supplements := holding.supplements ++ [parseTextualHoldings f "867"]
            indexes := holding.indexes ++ [parseTextualHoldings f "868"] }
      | none => h)
    h

/-- What `process_holdings` does for one `852`. -/
def processField852 (h : Holdings α) (f852 : Field) : Holdings α :=
  let id := holdingId r f852
  let holding := buildHolding labels f852 none
  let items := itemsBy852 r f852
  let h :=
    if items ≠ [] then
      addTemporaryItemsToHoldings labels build r items f852
        (addPermanentItemsToHoldings labels build r items f852 h holding)
    else if id = none ∨ invalidLocation labels holding.locationCode then h
    else h.set id (removeEmptyCallNumberFields holding)
  if (h.get id).isSome then process866867868Fields (group866867868OnHoldingPermId r id) h id else h

/-- `none` where the `001` is missing that an `852` asks for. -/
def processHoldings : Option (Holdings α) :=
  if fields852Alma r ≠ [] ∧ r.controlNumber = none then none
  else some ((fields852Alma r).foldl (processField852 labels build r) {})

end Holdings

end Bibdata
