import Bibdata.RecapItem

/-!
# What ReCAP is sent of an item

When an item is accessioned, the inventory of ReCAP asks for it by its barcode. It is sent the
record of the item, or the records that are bound together in it, and each has the data of the
item and of its holding in it. ReCAP's parser cannot take everything that MARC can: a call number
is in one subfield, and so is a location, and tags are numeric. What XML cannot have is taken out of
the whole response. The MARC gem, which writes and reads the XML, is a parameter here.
-/

namespace Bibdata

namespace BarcodeController

/-- Where Ruby raises: there is no such method, or Alma says that there is an error. -/
inductive Raised
  | noMethodError
  | almaError
  deriving DecidableEq

section Marc

structure DataField where
  tag : String
  indicator1 : Char
  indicator2 : Char
  subfields : List (Char × Option String)
  deriving DecidableEq

/-- The fields of a record, as the MARC gem has them. -/
inductive MarcField
  | control (tag value : String)
  | data (field : DataField)
  deriving DecidableEq

structure MarcRecord where
  leader : String
  fields : List MarcField
  deriving DecidableEq

namespace MarcField

def tag : MarcField → String
  | control tag _ => tag
  | data field => field.tag

def toDataField : MarcField → Except Raised DataField
  | control _ _ => .error .noMethodError
  | data field => .ok field

end MarcField

/-- The value of the first subfield with the code. -/
def DataField.get (field : DataField) (code : Char) : Option String :=
  (field.subfields.find? (·.1 = code)).bind Prod.snd

def MarcRecord.fieldsWithTag (record : MarcRecord) (tag : String) : List MarcField :=
  record.fields.filter (·.tag = tag)

def isAlmaBibId (code : String) : Bool := startsWith code "99" && endsWith code "06421"

def linkedRecordIds (record : MarcRecord) : Except Raised (List String) := do
  let fields ← (record.fieldsWithTag "774").mapM MarcField.toDataField
  pure (fields.filterMap fun field =>
    (field.get 'w').filter fun w => isAlmaBibId w && (field.get 't').isSome)

end Marc

section Item

/-- An item of Alma with all that its `876` is made from. -/
structure Item extends RecapItem where
  mmsId : String
  holdingId : String
  pid : Option String
  barcode : Option String
  copyId : Option String
  enumerations : List (Option String) := []
  chronologies : List (Option String) := []
  deriving DecidableEq

def compactBlank (texts : List (Option String)) : List String :=
  (texts.filter present).reduceOption

variable (upcase : String → String) (item : Item)

def enumeration : String := ", ".intercalate (compactBlank item.enumerations)

def chronology : String := ", ".intercalate (compactBlank item.chronologies)

def enumCron : Option String :=
  if blank (enumeration item) && blank (chronology item) then none
  else if blank (chronology item) then some (enumeration item)
  else if blank (enumeration item) then some (chronology item)
  else some (enumeration item ++ " (" ++ chronology item ++ ")")

def subfieldsFor876 : Except Raised (List (Char × Option String)) :=
  match item.recap876Fields upcase with
  | .error _ => .error .noMethodError
  | .ok recapFields =>
    .ok ([('0', some item.holdingId), ('3', enumCron item), ('a', item.pid), ('p', item.barcode),
      ('t', item.copyId)] ++ recapFields)

def enrichment876 : Except Raised DataField :=
  (subfieldsFor876 upcase item).map fun subfields => ⟨"876", ' ', ' ', subfields⟩

end Item

section Holding

structure AlmaHolding where
  holdingId : String
  holdingRecord : MarcRecord

/-- `[[:blank:]]`. -/
def isBlank (c : Char) : Bool :=
  c.toNat ∈ [0x9, 0x20, 0xA0, 0x1680, 0x202F, 0x205F, 0x3000]
    || 0x2000 ≤ c.toNat && c.toNat ≤ 0x200A

/-- The blanks that a line starts with are taken away. -/
def withoutLeadingBlanks : Bool → List Char → List Char
  | _, [] => []
  | atStart, c :: cs =>
    if atStart && isBlank c then withoutLeadingBlanks true cs
    else c :: withoutLeadingBlanks (c = '\n') cs

def callnoFrom852 (field : DataField) : Option String :=
  (field.get 'h').map fun h =>
    let callNo := match field.get 'i' with
      | some i => h ++ " " ++ i
      | none => h
    String.ofList (withoutLeadingBlanks true callNo.toList)

def combineLocation (field : DataField) : DataField :=
  if '$' ∈ ((field.get 'b').getD "").toList then field
  else
    let bCode := (field.get 'b').getD "" ++ "$" ++ (field.get 'c').getD ""
    { field with subfields := field.subfields.filter (·.1 ≠ 'b') ++ [('b', some bCode)] }

/-- What is done to an `852` for ReCAP. -/
def combine852 (field : DataField) : DataField :=
  let callNo := callnoFrom852 field
  combineLocation
    { field with
      subfields := field.subfields.filter (·.1 ∉ ['h', 'i']) ++ [('h', callNo)] }

variable (holding : AlmaHolding)

def prependHoldingId (fields : List MarcField) : Except Raised (List DataField) := do
  let fields ← fields.mapM MarcField.toDataField
  pure (fields.map fun field =>
    { field with subfields := ('0', some holding.holdingId) :: field.subfields })

/-- Without any `852` there is nothing to map. -/
def enriched852 : Except Raised (List DataField) :=
  match holding.holdingRecord.fieldsWithTag "852" with
  | [] => .error .noMethodError
  | fields => (prependHoldingId holding fields).map (·.map combine852)

def marcRecordEnrichment : Except Raised (List DataField) := do
  let fields852 ← enriched852 holding
  let fields856 ← prependHoldingId holding (holding.holdingRecord.fieldsWithTag "856")
  let fields866 ← prependHoldingId holding (holding.holdingRecord.fieldsWithTag "866")
  let fields867 ← prependHoldingId holding (holding.holdingRecord.fieldsWithTag "867")
  pure (fields852 ++ fields856 ++ fields866 ++ fields867)

end Holding

section Enrich

def enrichWithItem (upcase : String → String) (item : Item) (record : MarcRecord) :
    Except Raised MarcRecord :=
  (enrichment876 upcase item).map fun field =>
    { record with fields := record.fields ++ [.data field] }

def deleteConflictingHoldingData (record : MarcRecord) : MarcRecord :=
  { record with fields := record.fields.filter (·.tag ∉ ["852", "866", "867", "868"]) }

def enrichWithHolding (holding : AlmaHolding) (record : MarcRecord) : Except Raised MarcRecord :=
  (marcRecordEnrichment holding).map fun fields =>
    { record with fields := record.fields ++ fields.map .data }

/-- A line of the tag starts with something that is no digit. -/
def nonNumeric : Bool → List Char → Bool
  | _, [] => false
  | atStart, c :: cs => atStart && !c.isDigit || nonNumeric (c = '\n') cs

def stripNonNumeric (record : MarcRecord) : MarcRecord :=
  { record with fields := record.fields.filter fun field => !nonNumeric true field.tag.toList }

def enrich (upcase : String → String) (item : Item) (holding : AlmaHolding) (record : MarcRecord) :
    Except Raised MarcRecord := do
  let record ← enrichWithItem upcase item record
  let record ← enrichWithHolding holding (deleteConflictingHoldingData record)
  pure (stripNonNumeric record)

end Enrich

section FormattingConcern

/-- The XML of some records, and the hashes of the records that are read from it. -/
structure MarcXml (η : Type) where
  xmlWriter : List MarcRecord → Except Raised String
  xmlReader : String → Except Raised (List η)

/-- The complement of `invalid_xml_range`. -/
def isValidXml (c : Char) : Bool :=
  c.toNat ∈ [0x9, 0xA, 0xD] || (0x20 ≤ c.toNat && c.toNat ≤ 0xD7FF)
    || (0xE000 ≤ c.toNat && c.toNat ≤ 0xFFFD)

def validXml (xmlString : String) : String := String.ofList (xmlString.toList.filter isValidXml)

inductive RecordHashes (η : Type)
  | one (hash : η)
  | many (hashes : List η)
  deriving DecidableEq

def RecordHashes.ofList {η : Type} : List η → RecordHashes η
  | [hash] => .one hash
  | hashes => .many hashes

variable {η : Type} (marcXml : MarcXml η) (records : List MarcRecord)

/-- For an array; nothing else is given to it here. -/
def recordsToXmlString : Except Raised String := (marcXml.xmlWriter records).map validXml

def passRecordsThroughXmlParser : Except Raised (RecordHashes η) := do
  let hashes ← marcXml.xmlReader (← recordsToXmlString marcXml records)
  pure (.ofList hashes)

end FormattingConcern

section Scsb

/-- What the API of Alma and its search give. -/
structure Alma where
  itemByBarcode : String → Except Raised Item
  holdingById : String → String → Except Raised AlmaHolding
  getBibRecords : List String → Bool → Except Raised (List MarcRecord)

/-- The formats that are responded to. -/
inductive Format
  | json
  | xml
  deriving DecidableEq

inductive Response (η : Type)
  | barcodeNotValid
  | recordNotFound
  | barcodeNotFound
  | json (hashes : RecordHashes η)
  | xml (xml : String)
  deriving DecidableEq

/-- Five digits and nine, or a test barcode; only the first line is looked at. -/
def validBarcode (barcode : String) : Bool :=
  let line := barcode.toList.takeWhile (· ≠ '\n')
  ("32101".toList.isPrefixOf line && (line.drop 5).length = 9 && (line.drop 5).all Char.isDigit)
    || ("PULTST".toList.isPrefixOf line && (line.drop 6).length = 5
      && (line.drop 6).all Char.isDigit)

variable (upcase : String → String) (alma : Alma)

def getBibRecord (id : String) (showSuppressed : Bool) : Except Raised (Option MarcRecord) :=
  if id.toList ≠ [] ∧ id.toList.all Char.isDigit then
    (alma.getBibRecords [id] showSuppressed).map List.head?
  else .ok none

/-- The records that are bound together, or the one record. -/
def recordsToSend (record : MarcRecord) : Except Raised (List MarcRecord) := do
  match ← linkedRecordIds record with
  | [] => pure [record]
  | ids => alma.getBibRecords ids false

variable {η : Type} (marcXml : MarcXml η)

def respondTo (records : List MarcRecord) : Format → Except Raised (Response η)
  | .json => (passRecordsThroughXmlParser marcXml records).map .json
  | .xml => (recordsToXmlString marcXml records).map .xml

def scsb (wants : Format) (barcode : String) : Except Raised (Response η) :=
  if validBarcode barcode then do
    let item ← alma.itemByBarcode barcode
    match ← getBibRecord alma item.mmsId true with
    | none => pure .recordNotFound
    | some record =>
      let holding ← alma.holdingById item.mmsId item.holdingId
      let records ← (← recordsToSend alma record).mapM (enrich upcase item holding)
      if records = [] then pure .barcodeNotFound else respondTo marcXml records wants
  else .ok .barcodeNotValid

end Scsb

end BarcodeController

end Bibdata
