import Mathlib.Data.String.Basic
import Bibdata.Marc

/-!
# From the records of Ruby to those of Rust

The indexer reads each record in Ruby and finds what it says in Rust: the fields are copied, one
after the other, but for those that are not used there. What is not as it should be is passed over,
and only a leader can stop the copy. The crate that the copies are made with is a parameter.
-/

namespace Bibdata

/-- A field with its first indicator too. -/
structure MarctkField extends Field where
  ind1 : String := ""
  deriving DecidableEq

structure MarctkRecord where
  controlFields : List Controlfield := []
  fields : List MarctkField := []
  leader : String := ""
  deriving DecidableEq

/-- What most functions read of a record. -/
def MarctkRecord.toRecord (r : MarctkRecord) : Record :=
  ⟨r.controlFields, r.fields.map (·.toField), r.leader⟩

namespace MarcGem

section Ruby

/-! An instance variable is `none` where it is not a text, or nothing. -/

structure RubySubfield where
  code : Option String
  value : Option String
  deriving DecidableEq

inductive RubyField
  | data (tag indicator1 indicator2 : Option String) (subfields : Option (List RubySubfield))
  | control (tag value : Option String)
  | other
  deriving DecidableEq

structure RubyRecord where
  leader : Option String
  fields : Option (List RubyField)
  deriving DecidableEq

/-- The text as a `char`: it has to be one. -/
def toChar (text : Option String) : Option Char :=
  text.bind fun s => match s.toList with
    | [c] => some c
    | _ => none

end Ruby

/-- What `marctk` takes for the parts of a record, and where it inserts a control field. -/
structure Limits where
  leader : String → Bool
  tag : String → Bool
  indicator : Char → Bool
  subfield : Char → String → Bool
  controlfield : String → String → Bool
  insertControlField : Controlfield → List Controlfield → List Controlfield

def unusedFields : List String := ["902", "904", "911", "947", "952", "979", "999"]

variable (limits : Limits) (unused : List String)

/-- Its bytes are counted, and where there are too many, its characters. -/
def normalizeLeader (original : String) : String :=
  if original.utf8ByteSize < 24 then
    original ++ String.ofList (List.replicate (24 - original.utf8ByteSize) ' ')
  else if 24 < original.utf8ByteSize then String.ofList (original.toList.take 24)
  else original

def marctkControlField (tag value : Option String) : Option Controlfield :=
  tag.bind fun tag => value.bind fun value =>
    if limits.controlfield tag value then some ⟨tag, value⟩ else none

def marctkSubfield (subfield : RubySubfield) : Option Subfield :=
  (toChar subfield.code).bind fun code => subfield.value.bind fun content =>
    if limits.subfield code content then some ⟨code, content⟩ else none

def marctkDataField (tag indicator1 indicator2 : Option String)
    (subfields : Option (List RubySubfield)) : Option MarctkField :=
  tag.bind fun tag =>
    if tag ∈ unused then none
    else
      let ind1 := (toChar indicator1).getD ' '
      let ind2 := (toChar indicator2).getD ' '
      if limits.tag tag && limits.indicator ind1 && limits.indicator ind2 then
        some {
          tag := tag
          subfields := (subfields.getD []).filterMap (marctkSubfield limits)
          ind1 := String.singleton ind1
          ind2 := String.singleton ind2 }
      else none

/-- One more field, unless it is passed over. -/
def addField (record : MarctkRecord) : RubyField → MarctkRecord
  | .data tag indicator1 indicator2 subfields =>
    match marctkDataField limits unused tag indicator1 indicator2 subfields with
    | some field => { record with fields := record.fields ++ [field] }
    | none => record
  | .control tag value =>
    match marctkControlField limits tag value with
    | some field =>
      { record with controlFields := limits.insertControlField field record.controlFields }
    | none => record
  | .other => record

/-- `marctk_from_ruby_marc_record`, which raises where it is `none`. -/
def marctkFromRubyMarcRecord (ruby : RubyRecord) : Option MarctkRecord :=
  ruby.leader.bind fun leaderFromRuby => ruby.fields.bind fun fieldsFromRuby =>
    let leader := normalizeLeader leaderFromRuby
    if limits.leader leader then
      some (fieldsFromRuby.foldl (addField limits unused) { leader })
    else none

end MarcGem

end Bibdata
