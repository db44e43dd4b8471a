import Bibdata.Marc

/-!
# Items in ReCAP

The part of an item that its ReCAP data is made from. Whether an item is in ReCAP is a matter of
its permanent location, and the data is that of the location where it is now.
-/

namespace Bibdata

/-- There is no first character to compare. -/
inductive NoMethodError
  | casecmp
  deriving DecidableEq

structure RecapItem where
  holdingLibrary : String
  holdingLocation : String
  temporaryLocation : Option String := none
  committedToRetain : Option String := none
  retentionReason : Option String := none
  deriving DecidableEq

namespace RecapItem

section Groups

def defaultRecapGroups : List String := ["pa", "gp", "qk", "pf"]

def inLibraryRecapGroupsAndShared : List String := ["pv"]

def inLibraryRecapGroupsAndPrivate : List String := ["pj", "pk", "pl", "pm", "pn", "pt"]

def inLibraryRecapGroups : List String :=
  inLibraryRecapGroupsAndShared ++ inLibraryRecapGroupsAndPrivate

def supervisedRecapGroups : List String :=
  ["pb", "ph", "ps", "pw", "pz", "xc", "xg", "xm", "xn", "xp", "xr", "xw", "xx", "xgr", "xcr",
   "phr", "xrr", "xmr"]

def noAccessRecapGroups : List String := ["jq", "pe", "pg", "ph", "pq", "qb", "ql", "qv", "qx"]

def allRecapGroups : List String :=
  defaultRecapGroups ++ inLibraryRecapGroups ++ supervisedRecapGroups ++ noAccessRecapGroups

def committedRetentionReasons : List String := ["ReCAPItalianImprints", "IPLCBrill", "ReCAPSACAP"]

/-- `[0..1]`. -/
def firstTwo (code : String) : String := String.ofList (code.toList.take 2)

end Groups

variable (upcase : String → String) (item : RecapItem)

/-- Where the item is now. -/
def location : String := item.temporaryLocation.getD item.holdingLocation

def isRecapItem : Bool := firstTwo item.holdingLocation ∈ allRecapGroups

def itemCgdCommitted : Bool :=
  item.committedToRetain = some "true" && item.retentionReason.any (· ∈ committedRetentionReasons)

def recapCustomerCode : Except NoMethodError (Option String) :=
  if !item.isRecapItem then .ok none
  else match item.location.toList with
    | [] => .error .casecmp
    | c :: _ =>
      if c = 'x' || c = 'X' then .ok (some "PG") else .ok (some (upcase (firstTwo item.location)))

def groupDesignation : Option String :=
  if !item.isRecapItem then none
  else if item.itemCgdCommitted then some "Committed"
  else if firstTwo item.location ∈ ["pv", "pa", "gp", "qk", "pf"] then some "Shared"
  else if firstTwo item.location
      ∈ inLibraryRecapGroupsAndPrivate ++ supervisedRecapGroups ++ noAccessRecapGroups then
    some "Private"
  else none

def recapStatus : String := "Not Used"

def recapUseRestriction : Option String :=
  if !item.isRecapItem then none
  else if firstTwo item.location ∈ inLibraryRecapGroups then some "In Library Use"
  else if firstTwo item.location ∈ supervisedRecapGroups then some "Supervised Use"
  else none

def recap876Fields : Except NoMethodError (List (Char × Option String)) :=
  if !item.isRecapItem then .ok []
  else (item.recapCustomerCode upcase).map fun customerCode =>
    [('h', item.recapUseRestriction), ('x', item.groupDesignation), ('z', customerCode),
     ('j', some recapStatus), ('l', some "RECAP"), ('k', some item.holdingLibrary)]

end RecapItem

end Bibdata
