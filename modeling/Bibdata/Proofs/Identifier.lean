import Bibdata.Identifier

/-!
# What is listed for the records that a record links to

The test for a prefix asks for its parenthesis where it should ask for none, so a $w that is no
OCLC number is listed when it should not be, and the other way around
(`linkedRecordControlNumber_eq_iff`).
-/

namespace Bibdata

variable (isNumeric isDecimal : Char → Bool) {value : String}

def linkedControlNumbers (r : Record) : List String :=
  (r.fields.filter (·.tag ∈ ["776", "787"])).flatMap fun field =>
    subfieldContents (filterByCode ['w'] field.subfields)

def hasParenthesisedPrefix (value : String) : Bool :=
  match value.toList.dropWhile isSpace with
  | '(' :: rest => ')' ∈ rest
  | _ => false

/-- What one $w should add. -/
def numberToList (value : String) : Option String :=
  if isOclcNumber isDecimal value then some (normalizeOclcNumber isNumeric value)
  else if hasParenthesisedPrefix value then none
  else some ("BIB" ++ stripNonNumeric isNumeric value)

structure ListsNumbers (M : Marctk) (r : Record) : Prop where
  each : ∀ value ∈ linkedControlNumbers r,
    linkedRecordControlNumber isNumeric isDecimal value = numberToList isNumeric isDecimal value
  inOrder : linkedRecordControlNumbers isNumeric isDecimal M r
    = (linkedControlNumbers r).filterMap (numberToList isNumeric isDecimal)

theorem mem_of_hasParenthesisedPrefix (h : hasParenthesisedPrefix value = true) :
    '(' ∈ value.toList := by
  unfold hasParenthesisedPrefix at h
  split at h
  · rename_i rest hrest
    exact (List.dropWhile_suffix isSpace).subset (hrest ▸ List.mem_cons_self)
  · cases h

theorem linkedRecordControlNumber_eq_iff :
    linkedRecordControlNumber isNumeric isDecimal value = numberToList isNumeric isDecimal value
      ↔ isOclcNumber isDecimal value = true
        ∨ '(' ∈ value.toList ∧ hasParenthesisedPrefix value = false := by
  unfold linkedRecordControlNumber numberToList
  by_cases hoclc : isOclcNumber isDecimal value = true
  · simp [hoclc]
  · by_cases hprefix : hasParenthesisedPrefix value = true
    · simp [hoclc, hprefix, mem_of_hasParenthesisedPrefix hprefix]
    · simp [hoclc, hprefix]

theorem plainMarctk_linkedControlNumbers :
    plainMarctk.GivesEachSubfield "776w:787w" ["776", "787"] ['w'] :=
  plainMarctk_givesEachSubfield (by decide +kernel)

def linkedOclc : Record :=
  ⟨[], [⟨"776", [⟨'w', "(OCoLC)on9990014350"⟩], ""⟩, ⟨"787", [⟨'w', "(OCoLC)12345"⟩], ""⟩], ""⟩

def linkedAlma : Record :=
  ⟨[], [⟨"776", [⟨'w', "9947652213506421"⟩], ""⟩, ⟨"776", [⟨'w', "(DLC)12345678"⟩], ""⟩], ""⟩

end Bibdata
