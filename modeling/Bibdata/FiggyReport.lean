import Bibdata.JsonValue
import Bibdata.Library.OrderedHash
import Bibdata.Marc

/-!
# The report of what is in Figgy

Each MMS id with its items, which are JSON values of any shape. Only the items that are open are
kept, and the map that they are looked up in has its entries in no order of its own: the order of a
cache here is that of one iteration.
-/

namespace Bibdata

variable {N : Type}

abbrev FiggyItems (N : Type) := List (JsonValue N)

abbrev FiggyMmsIdCache (N : Type) := OrderedHash String (FiggyItems N)

section Visibility

inductive Visibility
  | «open»
  | «private»
  | unknown
  deriving DecidableEq

/-- The label of a `FiggyVisibilityData`, which is read from an object or from an array. -/
def figgyVisibilityLabel : JsonValue N → Option String
  | .object members => ((JsonValue.object members).get "label").bind JsonValue.asStr
  | .array [label] => label.asStr
  | _ => none

def Visibility.ofLabel (label : String) : Visibility :=
  if label = "open" then .«open» else if label = "private" then .«private» else .unknown

def Visibility.ofJson (json : JsonValue N) : Visibility :=
  (((json.get "visibility").bind figgyVisibilityLabel).map Visibility.ofLabel).getD .unknown

end Visibility

section Report

def onlyOpen (fullCache : FiggyMmsIdCache N) : FiggyMmsIdCache N :=
  fullCache.filterMapValues fun figgyItems =>
    let openItems := figgyItems.filterMap fun item =>
      if Visibility.ofJson item = .«open» then some item else none
    if openItems.isEmpty then none else some openItems

def arkEq (ark : String) (json : JsonValue N) : Bool :=
  ((json.get "ark").map fun jsonArk => decide (jsonArk.asStr = some ark)).getD false

def iiifManifestUrl (json : JsonValue N) : Option String :=
  (json.get "iiif_manifest_url").bind JsonValue.asStr

end Report

section Lookup

variable (toString : FiggyItems N → Option String)
  (modifyItems : FiggyItems N → Record → FiggyItems N)

def figgy1display (r : Record) (cache : FiggyMmsIdCache N) : Option String :=
  match ControlNumber.ofRecord r with
  | .alma mmsId => ((cache.get mmsId).map fun figgyItems => modifyItems figgyItems r).bind toString
  | _ => none

/-- The first item with the ark under the first MMS id that has one. -/
def manifestUrl (ark : String) (cache : FiggyMmsIdCache N) : Option String :=
  (cache.entries.filterMap fun entry => entry.2.find? (arkEq ark)).head?.bind iiifManifestUrl

def mmsId (ark : String) (cache : FiggyMmsIdCache N) : Option String :=
  (cache.entries.find? fun entry => entry.2.any (arkEq ark)).map Prod.fst

end Lookup

end Bibdata
