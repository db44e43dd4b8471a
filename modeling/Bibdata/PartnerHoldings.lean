import Bibdata.Formats
import Bibdata.ProcessHoldings

/-!
# The holdings of the partners

The holdings of a SCSB record, one for each `852` that has a visible item, and the rule that skips
records whose items are all private. The collection group of an item is read in two ways: by
`CollectionGroup::try_from`, for the holdings, and by `CollectionGroup::from_str`, for the notes
that the rule goes by. `toLowercase` is `str::to_lowercase`.
-/

namespace Bibdata

inductive CollectionGroup
  | committed
  | «open»
  | «private»
  | shared
  | uncommittable
  deriving DecidableEq

namespace CollectionGroup

def tryFrom (toLowercase : String → String) (s : String) : Option CollectionGroup :=
  let value := toLowercase (trim s)
  if value = "committed" then some .committed
  else if value = "open" then some .open
  else if value = "private" then some .private
  else if value = "shared" then some .shared
  else if value = "uncommittable" then some .uncommittable
  else none

def fromStr (s : String) : Option CollectionGroup :=
  if s = "Shared" then some .shared
  else if s = "Private" then some .private
  else if s = "Committed" then some .committed
  else if s = "Uncommittable" then some .uncommittable
  else if s = "Open" then some .open
  else none

def code : CollectionGroup → Char
  | committed => 'C'
  | .open => 'O'
  | .private => 'P'
  | shared => 'S'
  | uncommittable => 'U'

end CollectionGroup

section Notes

def collectionGroups (r : Record) : List CollectionGroup :=
  (r.getFieldValues "876" 'x').filterMap CollectionGroup.fromStr

inductive RecapPartner
  | columbiaUniversityLibrary
  | harvardLibrary
  | newYorkPublicLibrary
  deriving DecidableEq

namespace RecapPartner

def displayCode : RecapPartner → Char
  | columbiaUniversityLibrary => 'C'
  | harvardLibrary => 'H'
  | newYorkPublicLibrary => 'N'

def fromStr (s : String) : Option RecapPartner :=
  if trim s = "scsbcul" then some columbiaUniversityLibrary
  else if trim s = "scsbhl" then some harvardLibrary
  else if trim s = "scsbnypl" then some newYorkPublicLibrary
  else none

def tryFrom (r : Record) : Option RecapPartner :=
  if !isScsb r || (r.getFieldValues "852" '0').isEmpty then none
  else (r.getFieldValues "852" 'b').head?.bind fromStr

end RecapPartner

def recapPartnerNotes (r : Record) : List String :=
  if !isScsb r then []
  else
    match RecapPartner.tryFrom r with
    | some partner =>
      (collectionGroups r).map fun group =>
        String.ofList ([partner.displayCode] ++ " - ".toList ++ [group.code])
    | none => []

/-- Whether the record is skipped for including only private items. -/
def skipsPrivate (r : Record) : Bool :=
  let recapNotes := recapPartnerNotes r
  if recapNotes.isEmpty then false
  else !(recapNotes.map fun note => decide ('P' ∈ note.toList)).contains false

end Notes

section Holdings

/-- `PartnerItem`. -/
structure PartnerItem where
  holdingId : Option String
  description : Option String
  id : Option String
  statusAtLoad : Option String
  barcode : Option String
  copyNumber : Option String
  useStatement : Option String
  storageLocation : Option String
  cgd : Option CollectionGroup
  collectionCode : Option String
  deriving DecidableEq

structure PartnerHolding where
  holdingId : String
  displayFormat : String
  sourceId : String
  locationCode : Option String
  location : Option String
  library : Option String
  callNumber : Option String
  callNumberBrowse : Option String
  subLocation : Option (List String)
  shelvingTitle : Option (List String)
  locationNote : Option (List String)
  items : List PartnerItem
  locationHas : List String
  supplements : List String
  indexes : List String
  deriving DecidableEq

variable (toLowercase : String → String) (labels : HoldingLocations) (r : Record)

def PartnerItem.from (f876 : Field) : PartnerItem where
  holdingId := f876.firstSubfield '0'
  description := f876.firstSubfield '3'
  id := f876.firstSubfield 'a'
  statusAtLoad := f876.firstSubfield 'j'
  barcode := f876.firstSubfield 'p'
  copyNumber := f876.firstSubfield 't'
  useStatement := f876.firstSubfield 'h'
  storageLocation := f876.firstSubfield 'l'
  cgd := (f876.firstSubfield 'x').bind (CollectionGroup.tryFrom toLowercase)
  collectionCode := f876.firstSubfield 'z'

def fieldHasScsbHoldingId (field : Field) (holdingId : String) : Bool :=
  field.firstSubfield '0' = some holdingId

/-- `$a` and `$z`. -/
def textualHoldings (field : Field) : Option String :=
  let text := " ".intercalate
    ((field.firstSubfield 'a').toList ++ (field.firstSubfield 'z').toList)
  if text = "" then none else some text

/-- What the holding fields of one tag say about a holding. -/
def textualHoldingsOf (tag holdingId : String) : List String :=
  (r.fields.filter fun f => f.tag = tag && fieldHasScsbHoldingId f holdingId).filterMap
    textualHoldings

def partnerItems (holdingId : String) : List PartnerItem :=
  (r.fields.filter fun f => f.tag = "876" && fieldHasScsbHoldingId f holdingId).filterMap
    fun f =>
      let item := PartnerItem.from toLowercase f
      if item.cgd = some .private then none else some item

/-- The holding of an `852`; `sourceId` is the first `001`. -/
def partnerHolding (sourceId : String) (f852 : Field) : Option PartnerHolding :=
  (f852.firstSubfield '0').bind fun holdingId =>
    let items := partnerItems toLowercase r holdingId
    if items.isEmpty then none
    else
      let locationCode := f852.firstSubfield 'b'
      some
        { holdingId
          displayFormat := displayFormat (formats r)
          sourceId
          locationCode
          location := locationCode.bind labels.locationLabel <|> locationCode
          library := locationCode.bind labels.libraryLabel <|> locationCode
          callNumber := buildCallNumber f852
          callNumberBrowse := buildCallNumber f852
          subLocation := (f852.firstSubfield 'k').map ([·])
          shelvingTitle := (f852.firstSubfield 'l').map ([·])
          locationNote := (f852.firstSubfield 'z').map ([·])
          items
          locationHas := textualHoldingsOf r "866" holdingId
          supplements := textualHoldingsOf r "867" holdingId
          indexes := textualHoldingsOf r "868" holdingId }

/-- Without a `001` the code panics at the first `852` that has an id. -/
def partnerHoldings : Option (List PartnerHolding) :=
  match r.controlNumber with
  | some sourceId =>
    some ((r.getFields "852").filterMap (partnerHolding toLowercase labels r sourceId))
  | none =>
    if (r.getFields "852").all fun f => (f.firstSubfield '0').isNone then some [] else none

end Holdings

end Bibdata
