import Bibdata.Library.OrderedHash
import Bibdata.Marc

/-!
# The availability of holdings

The status of an item is that of its process type, or else depends on whether it is requested and
on its base status. The items of a record are grouped by their holdings, and a holding has the
status of its last item, with a label for all of them.
-/

namespace Bibdata

/-- An item as the Alma API has it, with the locations as they are now. -/
structure AlmaItem where
  holdingId : Option String := none
  copyNumber : Option String := none
  library : Option String := none
  location : Option String := none
  libraryDesc : Option String := none
  inTempLocation : Bool := false
  tempLibrary : Option String := none
  tempLocation : Option String := none
  tempLibraryDesc : Option String := none
  processTypeValue : String
  workOrderTypeValue : Option String := none
  workOrderTypeDesc : Option String := none
  baseStatusValue : Option String
  baseStatusDesc : Option String := none
  requested : Bool

namespace AlmaItem

variable (item : AlmaItem)

section Status

structure Status where
  code : Option String
  label : Option String
  source : Option String
  processType : Option String := none

def processTypeValues : List String :=
  ["ACQ", "CLAIM_RETURNED_LOAN", "HOLDSHELF", "ILL", "LOAN", "LOST_ILL", "LOST_LOAN",
    "LOST_LOAN_AND_PAID", "MISSING", "REQUESTED", "TECHNICAL", "TRANSIT",
    "TRANSIT_TO_REMOTE_STORAGE", "WORK_ORDER_DEPARTMENT"]

def inProcessWorkOrderTypeValues : List String := ["AcqWorkOrder", "Firestone"]

def statusFromBaseStatus : Status where
  code := if item.baseStatusValue = some "1" then some "Available" else some "Unavailable"
  label := item.baseStatusDesc
  source := some "base_status"

def processTypeStatusUnavailable : Status :=
  let (label, source) :=
    if item.processTypeValue ∈ processTypeValues then
      if item.processTypeValue = "WORK_ORDER_DEPARTMENT"
          ∧ item.workOrderTypeValue ∈ inProcessWorkOrderTypeValues.map some then
        (item.workOrderTypeDesc, some "work_order")
      else (some "Unavailable", some "process_type")
    else (none, none)
  { code := some "Unavailable", label, source, processType := some item.processTypeValue }

/-- An item that is neither requested nor in place has no code. -/
def noProcessTypeCalculateStatus : Status :=
  let (code, label, source) :=
    if item.requested then (some "Unavailable", some "Unavailable", some "requested_true")
    else if item.baseStatusValue = some "1" then
      (some "Available", item.baseStatusDesc, some "base_status")
    else (none, none, none)
  { code, label, source, processType := some item.processTypeValue }

/-- The base status alone is never reached. -/
def calculateStatus : Status :=
  if item.processTypeValue ≠ "" then item.processTypeStatusUnavailable
  else if item.processTypeValue = "" then item.noProcessTypeCalculateStatus
  else item.statusFromBaseStatus

end Status

section Location

/-- The fulfillment units of locations, and the labels of location codes. -/
structure LocationTables where
  isReserves : String → String → Bool
  holdingLocationLabel : String → Option String

variable (tables : LocationTables)

def onReserve : Bool :=
  match item.library, item.location with
  | some libraryCode, some locationCode => tables.isReserves libraryCode locationCode
  | _, _ => false

def compositeLocation : String := item.library.getD "" ++ "$" ++ item.location.getD ""

def compositeTempLocation : String := item.tempLibrary.getD "" ++ "$" ++ item.tempLocation.getD ""

def compositeLocationDisplay : String :=
  if item.inTempLocation then item.compositeTempLocation else item.compositeLocation

def compositeLibraryLabelDisplay : Option String :=
  if item.inTempLocation then item.tempLibraryDesc else item.libraryDesc

def compositeLocationLabelDisplay : String :=
  " - ".intercalate
    ([item.compositeLibraryLabelDisplay,
      tables.holdingLocationLabel item.compositeLocationDisplay].filter present).reduceOption

end Location

end AlmaItem

structure HoldingStatus where
  onReserve : String
  location : String
  label : String
  statusLabel : Option String
  copyNumber : Option String
  tempLocation : Bool
  id : Option String

section Availability

open AlmaItem

variable (tables : LocationTables) (changeStatus : Bool)

def holdingStatusFromItem (item : AlmaItem) : HoldingStatus where
  onReserve := if item.onReserve tables then "Y" else "N"
  location := item.compositeLocationDisplay
  label := item.compositeLocationLabelDisplay tables
  statusLabel := item.calculateStatus.code
  copyNumber := item.copyNumber
  tempLocation := item.inTempLocation
  id := item.holdingId

/-- What is known of the holdings so far. -/
abbrev Availability := OrderedHash (Option String) HoldingStatus

structure Tally where
  availability : Availability
  allAvailable : Bool := true
  noneAvailable : Bool := true

def Tally.withItem (holdingId : Option String) (tally : Tally) (item : AlmaItem) : Tally :=
  let status := holdingStatusFromItem tables item
  { availability := tally.availability.set holdingId status
    allAvailable := tally.allAvailable && status.statusLabel = some "Available"
    noneAvailable := tally.noneAvailable && status.statusLabel = some "Unavailable" }

/-- `Flipflop.change_status?` chooses the text. -/
def someAvailable : String := if changeStatus then "Some Available" else "Some items not available"

def Tally.holdingAvailability (tally : Tally) : String :=
  if tally.allAvailable then "Available"
  else if tally.noneAvailable then "Unavailable"
  else someAvailable changeStatus

def withHolding (availability : Availability) (entry : Option String × List AlmaItem) :
    Availability :=
  if entry.2.isEmpty then availability
  else
    let tally := entry.2.foldl (Tally.withItem tables entry.1) { availability }
    match tally.availability.get entry.1 with
    | some status =>
      tally.availability.set entry.1
        { status with statusLabel := some (tally.holdingAvailability changeStatus) }
    | none => tally.availability

def bibAvailabilityFromItems (items : List AlmaItem) : Availability :=
  (OrderedHash.groupBy AlmaItem.holdingId items).entries.foldl (withHolding tables changeStatus) {}

end Availability

end Bibdata
