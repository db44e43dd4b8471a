import Bibdata.Publication

/-!
# Which open ranges are closed

Three of the four lists of statements append the end date; the Latin 264 fields leave it out, so a
record is right when it has no end date to append or no such field with an open range.
-/

namespace Bibdata

variable {M : Marctk} {isNumeric isDecimal : Char → Bool}

section EndDates

variable (isNumeric isDecimal)

/-- The year that publication ended in, where the 008 has one. -/
def knownEndDate (r : Record) : Option String :=
  if DateType.ofRecord r = .continuousResourceCeasedPublication then
    (endDate isNumeric isDecimal r).bind Date.endToString
  else none

theorem DateType.ofRecord_eq_ceased {r : Record} :
    DateType.ofRecord r = .continuousResourceCeasedPublication
      ↔ charFrom008 r typeOfDateIndex = some 'd' := by
  unfold DateType.ofRecord
  rcases charFrom008 r typeOfDateIndex with _ | code
  · simp
  · rw [Option.some_inj]
    constructor
    · intro h
      dsimp only at h
      unfold DateType.ofChar at h
      split at h
      all_goals first
        | rfl
        | cases h
    · rintro rfl
      rfl

/-- The year that the digits of an end date stand for, where they stand for one. -/
def lastYear (digits : String) : Option String :=
  if digits = "9999" ∨ digits = "uuuu" then none
  else if isKnownYear isNumeric digits then some digits
  else if isPartiallyKnownYear isDecimal digits then
    some (String.ofList (digits.toList.map fun c => if c = 'u' then '9' else c))
  else none

theorem bind_endToString (digits : String) :
    (Date.ofString isNumeric isDecimal digits).bind Date.endToString
      = lastYear isNumeric isDecimal digits := by
  unfold Date.ofString lastYear
  by_cases h9999 : digits = "9999"
  · simp [h9999, Date.endToString]
  · by_cases huuuu : digits = "uuuu"
    · simp [huuuu, Date.endToString]
    · simp only [h9999, huuuu, or_self, if_false]
      split_ifs
      · rfl
      · rfl
      · rfl

/-- The end date is known if position 6 of the 008 has a `d` and positions 11 to 14 have a year:
neither all `u`s nor 9999, and each `u` of it is a 9. -/
theorem knownEndDate_eq_some_iff {r : Record} {year : String} :
    knownEndDate isNumeric isDecimal r = some year
      ↔ charFrom008 r typeOfDateIndex = some 'd'
        ∧ ∃ digits, sliceFrom008 r 11 15 = some digits
          ∧ lastYear isNumeric isDecimal digits = some year := by
  rw [← DateType.ofRecord_eq_ceased, knownEndDate]
  by_cases hceased : DateType.ofRecord r = .continuousResourceCeasedPublication
  · simp only [hceased, if_true, true_and, endDate]
    rw [Option.bind_assoc]
    simp only [bind_endToString, Option.bind_eq_some_iff]
  · simp [hceased]

/-- An open range with its end. -/
def completed (r : Record) (statement : String) : String :=
  match knownEndDate isNumeric isDecimal r with
  | some year => if endsWith statement "-" then statement ++ year else statement
  | none => statement

theorem appendEndDateIfNeeded_eq (statement : String) (r : Record) :
    appendEndDateIfNeeded isNumeric isDecimal statement r
      = completed isNumeric isDecimal r statement := by
  unfold appendEndDateIfNeeded completed knownEndDate
  by_cases hceased : DateType.ofRecord r = .continuousResourceCeasedPublication
  · rw [if_pos hceased, hceased]
    rcases endDate isNumeric isDecimal r with _ | date
    · rfl
    · rcases hyear : date.endToString with _ | year
      · simp [displayEndDate, hyear]
      · simp [displayEndDate, hyear]
  · rw [if_neg hceased]
    split
    · exact absurd ‹_› hceased
    · rfl

theorem ofString_endToString {s year : String} {date : Date}
    (hdate : Date.ofString isNumeric isDecimal s = some date)
    (hyear : date.endToString = some year) : year ≠ "" := by
  unfold Date.ofString at hdate
  split_ifs at hdate with h9999 huuuu hknown hpartly
  · cases hdate; cases hyear
  · cases hdate; cases hyear
  · cases hdate
    cases hyear
    rintro rfl
    simp [isKnownYear] at hknown
  · cases hdate
    cases hyear
    intro hempty
    have hlength := congrArg (List.length ∘ String.toList) hempty
    simp [isPartiallyKnownYear] at hpartly hlength
    rw [hlength] at hpartly
    simp at hpartly

theorem knownEndDate_ne_empty {r : Record} {year : String}
    (h : knownEndDate isNumeric isDecimal r = some year) : year ≠ "" := by
  unfold knownEndDate at h
  split_ifs at h
  obtain ⟨date, hdate, hyear⟩ := Option.bind_eq_some_iff.1 h
  obtain ⟨s, -, hs⟩ := Option.bind_eq_some_iff.1 hdate
  exact ofString_endToString isNumeric isDecimal hs hyear

theorem completed_eq_self_iff {r : Record} {statement : String} :
    completed isNumeric isDecimal r statement = statement
      ↔ knownEndDate isNumeric isDecimal r = none ∨ endsWith statement "-" = false := by
  unfold completed
  rcases hknown : knownEndDate isNumeric isDecimal r with _ | year
  · simp
  · by_cases hopen : endsWith statement "-" = true
    · have hne := knownEndDate_ne_empty isNumeric isDecimal hknown
      simp [hopen, hne]
    · simp [hopen]

end EndDates

section Statements

variable (M isNumeric isDecimal)

/-- The statements as the fields have them. -/
def statements (r : Record) : List String :=
  (M.extractPartialFields "260abcefg" r).map joinAllSubfields
    ++ (M.getParallelFields "260" r).map (joinSubfieldsByCode · ['a', 'b', 'c', 'e', 'f', 'g'])
    ++ ((M.extractPartialFields "264abcefg3" r).mergeSort fun a b => a.ind2 ≤ b.ind2).map
      joinAllSubfields
    ++ (M.getParallelFields "264" r).map
      (joinSubfieldsByCode · ['a', 'b', 'c', 'e', 'f', 'g', '3'])

def CompletesStatements (r : Record) : Prop :=
  pubCreatedDisplay M isNumeric isDecimal r
    = (statements M r).map (completed isNumeric isDecimal r)

theorem completesStatements_iff_264 (r : Record) :
    CompletesStatements M isNumeric isDecimal r
      ↔ ∀ statement ∈ statementsFrom264 M r,
        completed isNumeric isDecimal r statement = statement := by
  have hcompleted : ∀ statement, appendEndDateIfNeeded isNumeric isDecimal statement r
      = completed isNumeric isDecimal r statement := fun statement =>
    appendEndDateIfNeeded_eq isNumeric isDecimal statement r
  unfold CompletesStatements pubCreatedDisplay statements statementsFrom260
    statementsFromParallel260 statementsFromParallel264
  rw [← statementsFrom264]
  simp only [hcompleted, List.map_append, List.map_map, Function.comp_def,
    List.append_cancel_left_eq, List.append_cancel_right_eq]
  rw [eq_comm, ← List.map_inj_left, List.map_id']

theorem completesStatements_iff (r : Record) :
    CompletesStatements M isNumeric isDecimal r ↔ knownEndDate isNumeric isDecimal r = none
      ∨ ∀ field ∈ M.extractPartialFields "264abcefg3" r,
        endsWith (joinAllSubfields field) "-" = false := by
  rw [completesStatements_iff_264]
  simp only [completed_eq_self_iff, statementsFrom264, List.forall_mem_map, List.mem_mergeSort]
  by_cases hknown : knownEndDate isNumeric isDecimal r = none
  · simp [hknown]
  · simp [hknown]

/-- The publication has ceased and its range is open. -/
def ceased (tag : String) : Record :=
  ⟨[⟨"008", "911219d19912007ohufr-p-------0---a0eng-c"⟩],
    [⟨tag, [⟨'a', "Cincinnati, Ohio :"⟩, ⟨'c', "c1991-"⟩], "1"⟩], ""⟩

theorem not_completesStatements_ceased :
    pubCreatedDisplay plainMarctk Char.isDigit Char.isDigit (ceased "260")
        = ["Cincinnati, Ohio : c1991-2007"]
      ∧ pubCreatedDisplay plainMarctk Char.isDigit Char.isDigit (ceased "264")
        = ["Cincinnati, Ohio : c1991-"]
      ∧ ¬CompletesStatements plainMarctk Char.isDigit Char.isDigit (ceased "264") := by
  have h260 : pubCreatedDisplay plainMarctk Char.isDigit Char.isDigit (ceased "260")
      = ["Cincinnati, Ohio : c1991-2007"] := by
    decide +kernel
  have h264 : pubCreatedDisplay plainMarctk Char.isDigit Char.isDigit (ceased "264")
      = ["Cincinnati, Ohio : c1991-"] := by
    decide +kernel
  refine ⟨h260, h264, fun h => ?_⟩
  unfold CompletesStatements at h
  rw [h264] at h
  revert h
  decide +kernel

end Statements

end Bibdata
