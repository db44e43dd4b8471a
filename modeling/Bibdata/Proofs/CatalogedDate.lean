import Bibdata.CatalogedDate
import Bibdata.Library.FirstInOrder

/-!
# When the first date as text is the earliest

The texts are sorted, and each is read in its own time zone only afterwards. What is taken is the
first readable text of the first list that has one (`catalogedDate_eq`), which is the earliest date
when no other of that list was earlier. A field gives one date to its list at most, that of its
first `$d`, `$w` or `$b`.
-/

namespace Bibdata

open FirstInOrder

variable (D : DateLibrary) (r : Record)

section Lists

variable {r} {date : String}

/-- The dates of the items of valid holdings. -/
theorem mem_itemEditDates : date ∈ itemEditDates r ↔ ∃ field ∈ r.fields, field.tag = "876"
    ∧ (∃ id, field.firstSubfield '0' = some id ∧ almaCodeStart22 id = true)
    ∧ field.firstSubfield 'd' = some date := by
  rw [itemEditDates, mem_extractFieldValuesBy]
  simp [Option.any_eq_true, and_assoc]

theorem ofField_eq_active {field : Field} : AlmaElectronicPortfolio.ofField field = some .active
    ↔ field.tag = "951"
      ∧ (∃ id, field.firstSubfield '8' = some id ∧ isValidPortfolioId id = true)
      ∧ field.firstSubfield 'a' = some "Available" := by
  have hcontent : ∀ content,
      AlmaElectronicPortfolio.ofContent content = .active ↔ content = "Available" := by
    simp [AlmaElectronicPortfolio.ofContent]
  unfold AlmaElectronicPortfolio.ofField
  by_cases htag : field.tag = "951"
  · rcases hid : field.firstSubfield '8' with _ | id
    · simp [htag]
    · by_cases hvalid : isValidPortfolioId id = true
      · simp [htag, hvalid, hcontent]
      · simp [htag, hvalid]
  · simp [htag]

/-- The dates of the active portfolios. -/
theorem mem_electronicEditDates : date ∈ electronicEditDates r ↔ ∃ field ∈ r.fields,
    field.tag = "951"
    ∧ (∃ id, field.firstSubfield '8' = some id ∧ isValidPortfolioId id = true)
    ∧ field.firstSubfield 'a' = some "Available" ∧ field.firstSubfield 'w' = some date := by
  rw [electronicEditDates, mem_extractFieldValuesBy]
  simp [ofField_eq_active, and_assoc]

theorem mem_recordEditDates : date ∈ recordEditDates r
    ↔ ∃ field ∈ r.fields, field.tag = "950" ∧ field.firstSubfield 'b' = some date := by
  rw [recordEditDates, mem_extractFieldValuesBy]
  simp

end Lists

section Tiers

def editDates : List (List String) := [itemEditDates r, electronicEditDates r, recordEditDates r]

def hasReadable (values : List String) : Bool := values.any fun value => (parseDate D value).isSome

/-- The list that decides: the first with a date that can be read. -/
def decidingDates : Option (List String) := (editDates r).find? (hasReadable D)

def earliest (instants : List ℤ) : Option ℤ := instants.min?

/-- The earliest date of the list that decides, written in UTC. -/
def earliestDate : Option String :=
  ((decidingDates D r).bind fun values => earliest (values.filterMap (parseDate D))).map D.strftime

def IsEarliest : Prop := isScsb r = false → catalogedDate r D = earliestDate D r

end Tiers

variable {D r} {values : List String}

section Deciding

def firstReadable (D : DateLibrary) (values : List String) : Option ℤ :=
  ((sorted values).filterMap (parseDate D)).head?

theorem firstReadable_eq_some {instant : ℤ} : firstReadable D values = some instant
    ↔ ∃ v, IsFirst (parseDate D) values v ∧ parseDate D v = some instant :=
  head?_filterMap_mergeSort

theorem firstReadable_isSome_iff : (firstReadable D values).isSome ↔ hasReadable D values := by
  rw [firstReadable, List.isSome_head?, hasReadable, List.any_eq_true]
  rw [ne_eq, List.filterMap_eq_nil_iff]
  simp only [sorted, List.mem_mergeSort, not_forall, Option.isSome_iff_ne_none, exists_prop]

theorem firstReadable_flatMap (tiers : List (List String)) :
    ((tiers.flatMap sorted).filterMap (parseDate D)).head?
      = (tiers.find? (hasReadable D)).bind (firstReadable D) := by
  induction tiers with
  | nil => rfl
  | cons values tiers ih =>
    rw [List.flatMap_cons, List.filterMap_append, List.head?_append, ih, List.find?_cons,
      ← firstReadable]
    cases hreadable : hasReadable D values
    · have hnone : firstReadable D values = none := by
        rw [← Option.not_isSome_iff_eq_none, firstReadable_isSome_iff, hreadable]
        exact Bool.false_ne_true
      rw [hnone, Option.none_or]
    · obtain ⟨instant, hinstant⟩ :=
        Option.isSome_iff_exists.1 (firstReadable_isSome_iff.2 hreadable)
      rw [hinstant, Option.some_or]
      exact hinstant.symm

theorem catalogedDate_eq (h : isScsb r = false) :
    catalogedDate r D = ((decidingDates D r).bind (firstReadable D)).map D.strftime := by
  have htiers : sorted (itemEditDates r) ++ sorted (electronicEditDates r)
      ++ sorted (recordEditDates r) = (editDates r).flatMap sorted := by
    simp [editDates]
  have hmap : ∀ raws : List String, raws.filterMap (fun raw => (parseDate D raw).map D.strftime)
      = (raws.filterMap (parseDate D)).map D.strftime := fun raws => List.map_filterMap.symm
  rw [catalogedDate, h, htiers, hmap, List.head?_map, firstReadable_flatMap]
  rfl

end Deciding

section Earliest

/-- The least text that can be read is of no later second than the others. -/
def FirstIsEarliest (D : DateLibrary) (values : List String) : Prop :=
  ∀ v instant, IsFirst (parseDate D) values v → parseDate D v = some instant →
    ∀ v' ∈ values, ∀ instant', parseDate D v' = some instant' → second instant ≤ second instant'

theorem second_mono {a b : ℤ} (h : a ≤ b) : second a ≤ second b :=
  Int.ediv_le_ediv (by decide) h

theorem strftime_inj (hformat : Function.Injective D.strftimeSecond) {a b : ℤ} :
    D.strftime a = D.strftime b ↔ second a = second b := hformat.eq_iff

theorem earliest_iff (hformat : Function.Injective D.strftimeSecond)
    (hreadable : hasReadable D values) :
    (firstReadable D values).map D.strftime
        = (earliest (values.filterMap (parseDate D))).map D.strftime
      ↔ FirstIsEarliest D values := by
  obtain ⟨first, hfirst⟩ := Option.isSome_iff_exists.1 (firstReadable_isSome_iff.2 hreadable)
  obtain ⟨v, hv, hparsed⟩ := firstReadable_eq_some.1 hfirst
  have hmem : first ∈ values.filterMap (parseDate D) := List.mem_filterMap.2 ⟨v, hv.mem, hparsed⟩
  obtain ⟨least, hleast⟩ := Option.isSome_iff_exists.1 (List.isSome_min?_of_mem hmem)
  obtain ⟨hleastMem, hle⟩ := List.min?_eq_some_iff.1 hleast
  rw [hfirst, earliest, hleast, Option.map_some, Option.map_some, Option.some_inj,
    strftime_inj hformat]
  constructor
  · intro hsame v' instant hv' hinstant w hw instant' hinstant'
    rw [hv'.unique hv, hparsed] at hinstant
    cases hinstant
    rw [hsame]
    exact second_mono (hle instant' (List.mem_filterMap.2 ⟨w, hw, hinstant'⟩))
  · intro hfirstIsEarliest
    obtain ⟨w, hw, hleastParsed⟩ := List.mem_filterMap.1 hleastMem
    have hbound := hfirstIsEarliest v first hv hparsed w hw least hleastParsed
    exact le_antisymm hbound (second_mono (hle first hmem))

theorem isEarliest_iff (hformat : Function.Injective D.strftimeSecond) (r : Record) :
    IsEarliest D r
      ↔ isScsb r = true ∨ ∀ values ∈ decidingDates D r, FirstIsEarliest D values := by
  unfold IsEarliest
  cases hscsb : isScsb r
  · rw [catalogedDate_eq hscsb, earliestDate]
    rcases hdeciding : decidingDates D r with _ | values
    · simp
    · have hreadable : hasReadable D values := List.find?_some hdeciding
      simp [earliest_iff hformat hreadable]
  · simp

end Earliest

section Mixed

def otherSecond (s : ℤ) : String :=
  String.ofList (List.replicate (s.natAbs + 1) (if 0 ≤ s then '+' else '-'))

/-- Two hours of one day, by name; the other seconds are only told apart. -/
def nameSecond (s : ℤ) : String :=
  if s = 1626177600 then "2021-07-13T12:00:00Z"
  else if s = 1626184800 then "2021-07-13T14:00:00Z"
  else otherSecond s

/-- Noon in UTC, and ten o'clock in New York. -/
def twoHours : DateLibrary where
  parseDatetimeAtDate
    | .utc, "2021-07-13 12:00:00" => some (1626177600 * nanosecondsPerSecond)
    | .newYork, "2021-07-13 10:00:00 " => some (1626184800 * nanosecondsPerSecond)
    | _, _ => none
  strftimeSecond := nameSecond

theorem otherSecond_ne {s : ℤ} {name : String} (h : name.toList.head? = some '2') :
    otherSecond s ≠ name := by
  rintro rfl
  rw [otherSecond, String.toList_ofList, List.replicate_succ, List.head?_cons] at h
  split_ifs at h <;> exact absurd h (by decide)

theorem otherSecond_injective : Function.Injective otherSecond := by
  intro a b h
  have hlist := congrArg String.toList h
  simp only [otherSecond, String.toList_ofList] at hlist
  obtain ⟨hlength, hsign⟩ := List.replicate_inj.1 hlist
  have hiff : 0 ≤ a ↔ 0 ≤ b := by
    rcases hsign with hzero | hsign
    · omega
    · by_cases ha : 0 ≤ a
      · by_cases hb : 0 ≤ b
        · simp only [ha, hb]
        · simp [ha, hb] at hsign
      · by_cases hb : 0 ≤ b
        · simp [ha, hb] at hsign
        · simp only [ha, hb]
  omega

theorem nameSecond_injective : Function.Injective nameSecond := by
  intro a b h
  unfold nameSecond at h
  split_ifs at h
  · omega
  · exact absurd h (by decide)
  · exact absurd h.symm (otherSecond_ne (by decide))
  · exact absurd h (by decide)
  · omega
  · exact absurd h.symm (otherSecond_ne (by decide))
  · exact absurd h (otherSecond_ne (by decide))
  · exact absurd h (otherSecond_ne (by decide))
  · exact otherSecond_injective h

def cataloged (dates : List String) : Record :=
  ⟨[], dates.map fun date => ⟨"876", [⟨'0', "22710806450006421"⟩, ⟨'d', date⟩], ""⟩, ""⟩

theorem isEarliest_cataloged : IsEarliest twoHours (cataloged ["2021-07-13 12:00:00"]) :=
  (isEarliest_iff nameSecond_injective (cataloged ["2021-07-13 12:00:00"])).2 (.inr (by
    have hdeciding : decidingDates twoHours (cataloged ["2021-07-13 12:00:00"])
        = some ["2021-07-13 12:00:00"] := by
      decide +kernel
    intro values hvalues v instant hv hinstant w hw instant' hinstant'
    rw [hdeciding] at hvalues
    cases hvalues
    rw [List.mem_singleton.1 hv.mem, ← List.mem_singleton.1 hw, hinstant'] at hinstant
    cases hinstant
    exact le_refl _))

theorem not_isEarliest_cataloged :
    catalogedDate (cataloged ["2021-07-13 10:00:00 US/Eastern", "2021-07-13 12:00:00"]) twoHours
        = some "2021-07-13T14:00:00Z"
      ∧ ¬IsEarliest twoHours
        (cataloged ["2021-07-13 10:00:00 US/Eastern", "2021-07-13 12:00:00"]) := by
  have hdeciding : decidingDates twoHours
      (cataloged ["2021-07-13 10:00:00 US/Eastern", "2021-07-13 12:00:00"])
        = some ["2021-07-13 10:00:00 US/Eastern", "2021-07-13 12:00:00"] := by
    decide +kernel
  have hle : "2021-07-13 10:00:00 US/Eastern" ≤ "2021-07-13 12:00:00" := by
    decide +kernel
  have hparsed : parseDate twoHours "2021-07-13 10:00:00 US/Eastern"
      = some (1626184800 * nanosecondsPerSecond) := by
    decide +kernel
  have hfirst : firstReadable twoHours ["2021-07-13 10:00:00 US/Eastern", "2021-07-13 12:00:00"]
      = some (1626184800 * nanosecondsPerSecond) := by
    refine firstReadable_eq_some.2 ⟨_, ⟨List.mem_cons_self, by rw [hparsed]; rfl, ?_⟩, hparsed⟩
    intro w hw _
    rcases List.mem_cons.1 hw with rfl | hw
    · exact le_refl _
    · rw [List.mem_singleton.1 hw]
      exact hle
  have hcataloged : catalogedDate
      (cataloged ["2021-07-13 10:00:00 US/Eastern", "2021-07-13 12:00:00"]) twoHours
        = some "2021-07-13T14:00:00Z" := by
    rw [catalogedDate_eq (by decide), hdeciding, Option.bind_some, hfirst]
    decide +kernel
  refine ⟨hcataloged, fun h => ?_⟩
  have hearliest := h (by decide)
  rw [hcataloged] at hearliest
  revert hearliest
  decide +kernel

end Mixed

end Bibdata
