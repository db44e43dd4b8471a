import Bibdata.RecapItem

/-!
# ReCAP items that are elsewhere

The groups of the designations are all that an item is accepted for (`mem_allRecapGroups`), so an
item in its permanent location is always designated. One that is elsewhere is treated by the code
of that other location, which need not be of any group.
-/

namespace Bibdata

namespace RecapItem

variable {upcase : String → String} {item : RecapItem}

section Designation

def sharedGroups : List String := ["pv", "pa", "gp", "qk", "pf"]

def privateGroups : List String :=
  inLibraryRecapGroupsAndPrivate ++ supervisedRecapGroups ++ noAccessRecapGroups

/-- The item before it was put elsewhere. -/
def atHome (item : RecapItem) : RecapItem := { item with temporaryLocation := none }

/-- Designated, and with the subfields that it has in its permanent location. -/
structure SameAnywhere (upcase : String → String) (item : RecapItem) : Prop where
  designated : ∃ designation ∈ ["Committed", "Shared", "Private"],
    item.groupDesignation = some designation
  fields : item.recap876Fields upcase = item.atHome.recap876Fields upcase

/-- The customer that a code with something in it belongs to. -/
def customerOf (upcase : String → String) (code : String) : String :=
  if code.toList.head?.any fun c => c = 'x' || c = 'X' then "PG" else upcase (firstTwo code)

/-- Two locations with the same restrictions, the same customer and, for an item that is not
committed, the same designation. -/
structure SameClass (upcase : String → String) (committed : Bool) (code permanent : String) :
    Prop where
  nonempty : code ≠ ""
  customer : customerOf upcase code = customerOf upcase permanent
  inLibrary : firstTwo code ∈ inLibraryRecapGroups ↔ firstTwo permanent ∈ inLibraryRecapGroups
  supervised : firstTwo code ∈ supervisedRecapGroups ↔ firstTwo permanent ∈ supervisedRecapGroups
  group : committed = true ∨ firstTwo code ∈ allRecapGroups
    ∧ (firstTwo code ∈ sharedGroups ↔ firstTwo permanent ∈ sharedGroups)

theorem mem_allRecapGroups (code : String) :
    code ∈ allRecapGroups ↔ code ∈ sharedGroups ∨ code ∈ privateGroups := by
  have hleft : ∀ code ∈ allRecapGroups, code ∈ sharedGroups ∨ code ∈ privateGroups := by decide
  have hright : ∀ code ∈ sharedGroups ++ privateGroups, code ∈ allRecapGroups := by decide
  exact ⟨hleft code, fun h => hright code (List.mem_append.2 h)⟩

theorem not_mem_supervised {code : String} (h : code ∈ inLibraryRecapGroups) :
    code ∉ supervisedRecapGroups := by
  have hdisjoint : ∀ code ∈ inLibraryRecapGroups, code ∉ supervisedRecapGroups := by decide
  exact hdisjoint code h

/-- What is computed of the location alone, for an item that is accepted. -/
def restrictionOf (code : String) : Option String :=
  if code ∈ inLibraryRecapGroups then some "In Library Use"
  else if code ∈ supervisedRecapGroups then some "Supervised Use"
  else none

def designationOf (committed : Bool) (code : String) : Option String :=
  if committed then some "Committed"
  else if code ∈ sharedGroups then some "Shared"
  else if code ∈ privateGroups then some "Private"
  else none

def fieldsAt (upcase : String → String) (item : RecapItem) (code : String) :
    Except NoMethodError (List (Char × Option String)) :=
  if code = "" then .error .casecmp
  else .ok [('h', restrictionOf (firstTwo code)),
    ('x', designationOf item.itemCgdCommitted (firstTwo code)),
    ('z', some (customerOf upcase code)), ('j', some recapStatus), ('l', some "RECAP"),
    ('k', some item.holdingLibrary)]

theorem restrictionOf_eq_iff (code code' : String) :
    restrictionOf code = restrictionOf code'
      ↔ (code ∈ inLibraryRecapGroups ↔ code' ∈ inLibraryRecapGroups)
        ∧ (code ∈ supervisedRecapGroups ↔ code' ∈ supervisedRecapGroups) := by
  unfold restrictionOf
  by_cases h : code ∈ inLibraryRecapGroups <;> by_cases h' : code' ∈ inLibraryRecapGroups
  · simp [h, h', not_mem_supervised h, not_mem_supervised h']
  · by_cases hs : code' ∈ supervisedRecapGroups <;> simp [h, h', hs]
  · by_cases hs : code ∈ supervisedRecapGroups <;> simp [h, h', hs]
  · by_cases hs : code ∈ supervisedRecapGroups <;>
    by_cases hs' : code' ∈ supervisedRecapGroups <;> simp [h, h', hs, hs']

theorem designationOf_mem_iff (committed : Bool) (code : String) :
    (∃ designation ∈ ["Committed", "Shared", "Private"],
        designationOf committed code = some designation)
      ↔ committed = true ∨ code ∈ allRecapGroups := by
  rw [mem_allRecapGroups]
  unfold designationOf
  cases committed
  · by_cases hshared : code ∈ sharedGroups
    · simp [hshared]
    · by_cases hprivate : code ∈ privateGroups <;> simp [hshared, hprivate]
  · simp

theorem designationOf_eq_iff {committed : Bool} {code code' : String}
    (h : committed = true ∨ code ∈ allRecapGroups) (h' : code' ∈ allRecapGroups) :
    designationOf committed code = designationOf committed code'
      ↔ committed = true ∨ (code ∈ sharedGroups ↔ code' ∈ sharedGroups) := by
  rw [mem_allRecapGroups] at h h'
  unfold designationOf
  cases committed
  · by_cases hs : code ∈ sharedGroups <;> by_cases hs' : code' ∈ sharedGroups <;>
      simp_all
  · simp

theorem fieldsAt_eq_iff {code permanent : String} (h : permanent ≠ "") :
    fieldsAt upcase item code = fieldsAt upcase item permanent
      ↔ code ≠ "" ∧ restrictionOf (firstTwo code) = restrictionOf (firstTwo permanent)
        ∧ designationOf item.itemCgdCommitted (firstTwo code)
          = designationOf item.itemCgdCommitted (firstTwo permanent)
        ∧ customerOf upcase code = customerOf upcase permanent := by
  unfold fieldsAt
  rw [if_neg h]
  by_cases hempty : code = ""
  · simp [hempty]
  · rw [if_neg hempty]
    simp [hempty]

theorem sameClass_iff {committed : Bool} {code permanent : String}
    (h : firstTwo permanent ∈ allRecapGroups) :
    SameClass upcase committed code permanent
      ↔ (committed = true ∨ firstTwo code ∈ allRecapGroups)
        ∧ code ≠ "" ∧ restrictionOf (firstTwo code) = restrictionOf (firstTwo permanent)
        ∧ designationOf committed (firstTwo code) = designationOf committed (firstTwo permanent)
        ∧ customerOf upcase code = customerOf upcase permanent := by
  rw [restrictionOf_eq_iff]
  constructor
  · rintro ⟨hnonempty, hcustomer, hinLibrary, hsupervised, hgroup⟩
    have hdesignated := hgroup.imp_right And.left
    exact ⟨hdesignated, hnonempty, ⟨hinLibrary, hsupervised⟩,
      (designationOf_eq_iff hdesignated h).2 (hgroup.imp_right And.right), hcustomer⟩
  · rintro ⟨hdesignated, hnonempty, ⟨hinLibrary, hsupervised⟩, hdesignation, hcustomer⟩
    refine ⟨hnonempty, hcustomer, hinLibrary, hsupervised, ?_⟩
    rcases hdesignated with hcommitted | hmem
    · exact .inl hcommitted
    · exact ((designationOf_eq_iff (.inr hmem) h).1 hdesignation).imp_right fun hshared =>
        ⟨hmem, hshared⟩

end Designation

section Accepted

variable (h : item.isRecapItem = true)
include h

theorem recapUseRestriction_eq :
    item.recapUseRestriction = restrictionOf (firstTwo item.location) := by
  simp only [recapUseRestriction, h, restrictionOf]
  rfl

theorem groupDesignation_eq :
    item.groupDesignation = designationOf item.itemCgdCommitted (firstTwo item.location) := by
  simp only [groupDesignation, h, designationOf, sharedGroups, privateGroups]
  rfl

theorem recapCustomerCode_eq :
    item.recapCustomerCode upcase = if item.location = "" then .error .casecmp
      else .ok (some (customerOf upcase item.location)) := by
  have hempty : item.location = "" ↔ item.location.toList = [] := by
    rw [← String.toList_inj, String.toList_empty]
  simp only [recapCustomerCode, h, hempty, customerOf]
  rcases item.location.toList with _ | ⟨c, cs⟩
  · rfl
  · by_cases hx : (c = 'x' || c = 'X') = true <;> simp [hx]

theorem recap876Fields_eq : item.recap876Fields upcase = fieldsAt upcase item item.location := by
  rw [recap876Fields, if_neg (by simp [h]), recapCustomerCode_eq h, recapUseRestriction_eq h,
    groupDesignation_eq h, fieldsAt]
  split_ifs
  · rfl
  · rfl

theorem holdingLocation_ne : item.holdingLocation ≠ "" := by
  intro hempty
  rw [isRecapItem, hempty] at h
  exact absurd h (by decide)

theorem firstTwo_holdingLocation : firstTwo item.holdingLocation ∈ allRecapGroups :=
  of_decide_eq_true h

end Accepted

section Anywhere

theorem sameAnywhere_iff_sameClass (h : item.isRecapItem = true) :
    SameAnywhere upcase item
      ↔ SameClass upcase item.itemCgdCommitted item.location item.holdingLocation := by
  have hhome : item.atHome.recap876Fields upcase = fieldsAt upcase item item.holdingLocation :=
    recap876Fields_eq h
  rw [sameClass_iff (firstTwo_holdingLocation h), ← fieldsAt_eq_iff (holdingLocation_ne h),
    ← designationOf_mem_iff, ← groupDesignation_eq h, ← recap876Fields_eq h, ← hhome]
  exact ⟨fun hsame => ⟨hsame.designated, hsame.fields⟩, fun ⟨hdesignated, hfields⟩ =>
    ⟨hdesignated, hfields⟩⟩

theorem sameClass_self (h : item.isRecapItem = true) :
    SameClass upcase item.itemCgdCommitted item.holdingLocation item.holdingLocation :=
  ⟨holdingLocation_ne h, rfl, Iff.rfl, Iff.rfl, .inr ⟨firstTwo_holdingLocation h, Iff.rfl⟩⟩

theorem sameAnywhere_iff (upcase : String → String) (item : RecapItem)
    (h : item.isRecapItem = true) :
    SameAnywhere upcase item ↔ ∀ code, item.temporaryLocation = some code →
      SameClass upcase item.itemCgdCommitted code item.holdingLocation := by
  rw [sameAnywhere_iff_sameClass h, location]
  rcases item.temporaryLocation with _ | code
  · exact ⟨fun _ code hcode => (by cases hcode), fun _ => sameClass_self h⟩
  · simp

/-- Moved between two locations for supervised use. -/
theorem sameAnywhere_supervised :
    SameAnywhere String.toUpper
      { holdingLibrary := "rare", holdingLocation := "xc", temporaryLocation := some "xgr" } :=
  (sameAnywhere_iff String.toUpper
    { holdingLibrary := "rare", holdingLocation := "xc", temporaryLocation := some "xgr" }
    (by decide)).2 fun code hcode => by
      obtain rfl := Option.some_inj.1 hcode
      exact ⟨by decide, by decide, by decide, by decide, .inr (by decide)⟩

/-- Shared, and now on course reserve in another library. -/
def onReserve : RecapItem :=
  { holdingLibrary := "recap", holdingLocation := "pa", temporaryLocation := some "res" }

theorem not_sameAnywhere_reserve :
    onReserve.isRecapItem = true ∧ ¬SameAnywhere String.toUpper onReserve := by
  refine ⟨by decide, fun h => ?_⟩
  obtain ⟨designation, hmem, hdesignation⟩ := h.designated
  have hnone : groupDesignation onReserve = none := by
    decide
  rw [hnone] at hdesignation
  cases hdesignation

end Anywhere

end RecapItem

end Bibdata
