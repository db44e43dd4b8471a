import Mathlib.Data.List.DropRight
import Mathlib.Data.List.Infix
import Mathlib.Tactic.Common

/-!
# MARC records and the codes in them

The parts of a record that the holdings are read from: control fields, data fields with their
subfields in order, and the forms of the ids of Alma and SCSB.
-/

namespace Bibdata

structure Subfield where
  code : Char
  content : String
  deriving DecidableEq

structure Field where
  tag : String
  subfields : List Subfield
  ind2 : String := ""
  deriving DecidableEq

structure Controlfield where
  tag : String
  content : String
  deriving DecidableEq

structure Record where
  controlFields : List Controlfield := []
  fields : List Field := []
  leader : String := ""
  deriving DecidableEq

def Field.firstSubfield (f : Field) (code : Char) : Option String :=
  (f.subfields.find? (·.code = code)).map (·.content)

def Field.hasSubfield (f : Field) (code : Char) : Bool := f.subfields.any (·.code = code)

def Record.getFields (r : Record) (tag : String) : List Field := r.fields.filter (·.tag = tag)

/-- Every value of these subfields. -/
def Record.getFieldValues (r : Record) (tag : String) (code : Char) : List String :=
  (r.getFields tag).flatMap fun f => (f.subfields.filter (·.code = code)).map (·.content)

def Record.controlNumber (r : Record) : Option String :=
  (r.controlFields.find? (·.tag = "001")).map (·.content)

def startsWith (s pre : String) : Bool := pre.toList.isPrefixOf s.toList

def endsWith (s suf : String) : Bool := suf.toList.isSuffixOf s.toList

inductive ControlNumber
  | alma (number : String)
  | scsb (number : String)
  | unknown (number : String)
  | missing
  deriving DecidableEq

def ControlNumber.ofString (s : String) : ControlNumber :=
  if startsWith s "SCSB-" then .scsb s
  else if startsWith s "99" && endsWith s "06421" then .alma s
  else .unknown s

def ControlNumber.ofRecord (r : Record) : ControlNumber :=
  match r.controlNumber with
  | some s => .ofString s
  | none => .missing

def isScsb (r : Record) : Bool :=
  match ControlNumber.ofRecord r with
  | .scsb _ => true
  | _ => false

def Record.IsAlma (r : Record) : Prop := ∃ n, ControlNumber.ofRecord r = .alma n

/-- `AlmaHoldingId::is_valid`. -/
def almaCodeStart22 (code : String) : Bool := startsWith code "22" && endsWith code "06421"

/-- The `[[:space:]]` characters. -/
def isSpace (c : Char) : Bool :=
  c.toNat ∈ [0x9, 0xA, 0xB, 0xC, 0xD, 0x20, 0x85, 0xA0, 0x1680, 0x2028, 0x2029, 0x202F, 0x205F,
      0x3000]
    || 0x2000 ≤ c.toNat && c.toNat ≤ 0x200A

def trim (s : String) : String :=
  String.ofList ((s.toList.dropWhile isSpace).rdropWhile isSpace)

def blank (s : String) : Bool := s.toList.all isSpace

def present : Option String → Bool
  | some s => !blank s
  | none => false

theorem Record.IsAlma.controlNumber {r : Record} (h : r.IsAlma) : r.controlNumber.isSome := by
  obtain ⟨n, hn⟩ := h
  unfold ControlNumber.ofRecord at hn
  split at hn
  · rename_i hr
    rw [hr]
    rfl
  · cases hn

theorem present_of_mem {s : String} {c : Char} (hc : c ∈ s.toList) (hs : isSpace c = false) :
    present (some s) = true := by
  unfold present blank
  rw [Bool.not_eq_true', List.all_eq_false]
  exact ⟨c, hc, by simp [hs]⟩

theorem present_of_almaCodeStart22 {s : String} (h : almaCodeStart22 s = true) :
    present (some s) = true := by
  unfold almaCodeStart22 startsWith at h
  rw [Bool.and_eq_true, List.isPrefixOf_iff_prefix] at h
  obtain ⟨tl, htl⟩ := h.1
  have hmem : '2' ∈ s.toList := by
    rw [← htl]
    simp
  exact present_of_mem hmem (by decide)

end Bibdata
