import Bibdata.Library.LazyRuns
import Bibdata.OverflowChecks
import Bibdata.Proofs.ParallelFields

/-!
# When both builds list the same fields

Without overflow checks the run is the list of `unmatched_parallel_strings`
(`unmatchedParallelStringsIn_noOverflowChecks`). With them it is the same list as long as no 880
field has number 0: such a field has no pair that the search for it could end at, so the search
comes to the subtraction (`anyPairOf_error`).
-/

namespace Bibdata

open LazyRuns

section Numbers

theorem byteLength_of_byteRange {a b : ℕ} {cs ds : List Char} (h : byteRange a b cs = some ds) :
    byteLength ds = b - a := by
  obtain ⟨skipped, -, hds⟩ := Option.bind_eq_some_iff.1 h
  exact (firstBytes_eq_some hds).2

theorem parseUsize_eq_some {cs : List Char} {n : ℕ} (h : parseUsize cs = some n) :
    withoutPlus cs ≠ [] ∧ (∀ c ∈ withoutPlus cs, c.isDigit) ∧ digitsValue (withoutPlus cs) = n
      ∧ n < 2 ^ 64 := by
  simp only [parseUsize] at h
  split_ifs at h with hdigits
  cases h
  exact ⟨hdigits.1, by simpa using hdigits.2.1, rfl, hdigits.2.2⟩

/-- Two bytes that are read as zero. -/
theorem parseUsize_eq_zero {cs : List Char} (hlength : byteLength cs = 2) :
    parseUsize cs = some 0 ↔ cs = ['0', '0'] ∨ cs = ['+', '0'] := by
  constructor
  · intro h
    obtain ⟨hne, hdigits, hvalue, -⟩ := parseUsize_eq_some h
    have hzero : ∀ c : Char, c.isDigit → c.toNat - '0'.toNat = 0 → c = '0' := fun c hc hc0 => by
      have := toNat_of_isDigit hc
      refine Char.toNat_inj.1 ?_
      show c.toNat = 48
      rw [show '0'.toNat = 48 from rfl] at hc0
      omega
    rcases cs with _ | ⟨c, _ | ⟨d, _ | ⟨e, cs⟩⟩⟩
    · exact absurd rfl hne
    · by_cases hc : c = '+'
      · rw [hc] at hne
        exact absurd rfl hne
      · have hdigit : c.isDigit := hdigits c (by simp [withoutPlus, hc])
        simp [byteLength, utf8Size_of_isDigit hdigit] at hlength
    · by_cases hc : c = '+'
      · rw [hc] at hdigits hvalue ⊢
        simp only [withoutPlus, digitsValue, Nat.ofDigitChars_cons, Nat.ofDigitChars_nil] at hvalue
        rw [hzero d (hdigits d (by simp [withoutPlus])) (by omega)]
        exact .inr rfl
      · have hplus : withoutPlus [c, d] = [c, d] := by simp [withoutPlus, hc]
        rw [hplus] at hdigits hvalue
        simp only [digitsValue, Nat.ofDigitChars_cons, Nat.ofDigitChars_nil] at hvalue
        rw [hzero c (hdigits c (by simp)) (by omega), hzero d (hdigits d (by simp)) (by omega)]
        exact .inl rfl
    · have hc := c.utf8Size_pos
      have hd := d.utf8Size_pos
      have he := e.utf8Size_pos
      simp only [byteLength, List.map_cons, List.sum_cons] at hlength
      omega
  · rintro (rfl | rfl) <;> decide

end Numbers

section Pairs

variable {r : Record} {field nonLatin : Field}

/-- The linkage can be read and its number is zero. -/
def NumberedZero (field : Field) : Prop :=
  ∃ linkage, field.firstSubfield '6' = some linkage ∧ (byteRange 0 3 linkage.toList).isSome
    ∧ byteRange 4 6 linkage.toList ∈ [some ['0', '0'], some ['+', '0']]

instance (field : Field) : Decidable (NumberedZero field) :=
  decidable_of_iff
    ((field.firstSubfield '6').any fun linkage => (byteRange 0 3 linkage.toList).isSome
      && decide (byteRange 4 6 linkage.toList ∈ [some ['0', '0'], some ['+', '0']]))
    (by simp [NumberedZero, Option.any_eq_true])

theorem linkageParts_eq_some {linkage : String} {tag : List Char} {number : ℕ} :
    linkageParts linkage = some (tag, number) ↔ byteRange 0 3 linkage.toList = some tag
      ∧ ∃ occurrence, byteRange 4 6 linkage.toList = some occurrence
        ∧ parseUsize occurrence = some number := by
  unfold linkageParts
  rcases byteRange 0 3 linkage.toList with _ | found
  · simp
  · rcases byteRange 4 6 linkage.toList with _ | occurrence
    · simp
    · simp [and_comm]

theorem numberedZero_iff :
    NumberedZero field ↔ ∃ tag, (field.firstSubfield '6').bind linkageParts = some (tag, 0) := by
  unfold NumberedZero
  constructor
  · rintro ⟨linkage, hlinkage, htag, hoccurrence⟩
    obtain ⟨tag, htag⟩ := Option.isSome_iff_exists.1 htag
    refine ⟨tag, ?_⟩
    rw [hlinkage, Option.bind_some, linkageParts_eq_some]
    simp only [List.mem_cons, List.not_mem_nil, or_false] at hoccurrence
    rcases hoccurrence with hzero | hzero
    · exact ⟨htag, _, hzero, by decide⟩
    · exact ⟨htag, _, hzero, by decide⟩
  · rintro ⟨tag, hparts⟩
    obtain ⟨linkage, hlinkage, hparts⟩ := Option.bind_eq_some_iff.1 hparts
    obtain ⟨htag, occurrence, hoccurrence, hnumber⟩ := linkageParts_eq_some.1 hparts
    refine ⟨linkage, hlinkage, by rw [htag]; rfl, ?_⟩
    rw [hoccurrence]
    rcases (parseUsize_eq_zero (byteLength_of_byteRange hoccurrence)).1 hnumber with rfl | rfl
    · exact List.mem_cons_self
    · exact List.mem_cons_of_mem _ List.mem_cons_self

theorem pairedWith_eq (r : Record) (nonLatin : Field) :
    pairedWith r nonLatin = ((nonLatin.firstSubfield '6').bind linkageParts).bind fun parts =>
      match parts.2 with
      | 0 => none
      | index + 1 => (r.getFields (String.ofList parts.1))[index]? := by
  unfold pairedWith linkageParts
  rcases nonLatin.firstSubfield '6' with _ | linkage
  · rfl
  · simp only [Option.bind_some]
    rcases byteRange 0 3 linkage.toList with _ | tag
    · rfl
    · simp only [Option.bind_some]
      rcases byteRange 4 6 linkage.toList with _ | occurrence
      · rfl
      · simp only [Option.bind_some]
        rcases parseUsize occurrence with _ | number
        · rfl
        · cases number <;> rfl

/-- The pair of a field whose number is not zero, in any build. -/
theorem parallelFieldPairIn_of_not_numberedZero (build : Build) (h : ¬NumberedZero nonLatin) :
    parallelFieldPairIn build r nonLatin
      = .ok ((pairedWith r nonLatin).map fun latin => ⟨nonLatin, latin⟩) := by
  rw [numberedZero_iff] at h
  rw [pairedWith_eq, parallelFieldPairIn]
  rcases hparts : (nonLatin.firstSubfield '6').bind linkageParts with _ | ⟨tag, number⟩
  · rfl
  · cases number with
    | zero => exact absurd ⟨tag, hparts⟩ h
    | succ index =>
      obtain ⟨linkage, -, hlinkage⟩ := Option.bind_eq_some_iff.1 hparts
      obtain ⟨-, occurrence, -, hnumber⟩ := linkageParts_eq_some.1 hlinkage
      have hbound := (parseUsize_eq_some hnumber).2.2.2
      have hindex : index < 2 ^ 64 - 1 := by omega
      simp only [Build.sub, Nat.le_add_left, if_true, Nat.add_sub_cancel, Except.map, sliceGet,
        hindex, Option.bind_some]

theorem parallelFieldPairIn_overflowChecks (h : NumberedZero nonLatin) :
    parallelFieldPairIn .overflowChecks r nonLatin = .error .subtractWithOverflow := by
  obtain ⟨tag, htag⟩ := numberedZero_iff.1 h
  rw [parallelFieldPairIn, htag]
  rfl

theorem parallelFieldPairIn_noOverflowChecks (r : Record) (nonLatin : Field) :
    parallelFieldPairIn .noOverflowChecks r nonLatin
      = .ok ((pairedWith r nonLatin).map fun latin => ⟨nonLatin, latin⟩) := by
  by_cases h : NumberedZero nonLatin
  · obtain ⟨tag, htag⟩ := numberedZero_iff.1 h
    rw [parallelFieldPairIn, pairedWith_eq, htag]
    rfl
  · exact parallelFieldPairIn_of_not_numberedZero _ h

end Pairs

section Runs

variable {r : Record} {field : Field} {build : Build}

def ReadsPairs (build : Build) (r : Record) : Prop :=
  ∀ nonLatin ∈ r.getFields "880", parallelFieldPairIn build r nonLatin
    = .ok ((pairedWith r nonLatin).map fun latin => ⟨nonLatin, latin⟩)

theorem any_parallelFieldPairs_eq (r : Record) (field : Field) :
    (parallelFieldPairs r).any (·.nonLatin = field) = (r.getFields "880").any fun nonLatin =>
      ((pairedWith r nonLatin).map fun latin => (⟨nonLatin, latin⟩ : ParallelFieldPair)).any
        (·.nonLatin = field) := by
  unfold parallelFieldPairs
  induction r.getFields "880" with
  | nil => rfl
  | cons nonLatin fields ih =>
    rw [List.filterMap_cons, List.any_cons, ← ih]
    rcases pairedWith r nonLatin with _ | latin
    · rfl
    · rfl

theorem isUnmatchedIn_of_readsPairs (h : ReadsPairs build r) (field : Field) :
    isUnmatchedIn build r field = .ok (isUnmatched r field) := by
  unfold isUnmatchedIn isUnmatched
  split_ifs with htag
  · have hany : anyPairOf build r field
        = .ok ((parallelFieldPairs r).any (·.nonLatin = field)) := by
      rw [any_parallelFieldPairs_eq]
      refine anyM_ok fun nonLatin hmem => ?_
      rw [h nonLatin hmem]
      rfl
    rw [hany]
    simp [htag, Except.map]
  · simp [htag]

theorem unmatchedParallelStringsIn_of_readsPairs (h : ReadsPairs build r) :
    unmatchedParallelStringsIn build r = .ok (unmatchedParallelStrings r) := by
  refine filterMapM_ok fun field _ => ?_
  rw [isUnmatchedIn_of_readsPairs h]
  rfl

theorem unmatchedParallelStringsIn_noOverflowChecks (r : Record) :
    unmatchedParallelStringsIn .noOverflowChecks r = .ok (unmatchedParallelStrings r) :=
  unmatchedParallelStringsIn_of_readsPairs fun nonLatin _ =>
    parallelFieldPairIn_noOverflowChecks r nonLatin

/-- No pair before the field is its own, so the field is come to. -/
theorem anyPairOf_error (hmem : field ∈ r.getFields "880") (hzero : NumberedZero field) :
    ∃ e, anyPairOf .overflowChecks r field = .error e := by
  refine anyM_error ⟨field, hmem, .subtractWithOverflow, ?_⟩ fun nonLatin _ hpass => ?_
  · rw [parallelFieldPairIn_overflowChecks hzero]
    rfl
  · by_cases hnonLatin : NumberedZero nonLatin
    · rw [parallelFieldPairIn_overflowChecks hnonLatin] at hpass
      cases hpass
    · rw [parallelFieldPairIn_of_not_numberedZero _ hnonLatin] at hpass
      obtain ⟨latin, -, hsame⟩ :
          ∃ latin, pairedWith r nonLatin = some latin ∧ nonLatin = field := by
        simpa [Except.map, Option.any_eq_true] using hpass
      rw [hsame] at hnonLatin
      exact hnonLatin hzero

/-- Both builds return, and the same list. -/
def ReturnsAlike (r : Record) : Prop :=
  ∃ strings, unmatchedParallelStringsIn .overflowChecks r = .ok strings
    ∧ unmatchedParallelStringsIn .noOverflowChecks r = .ok strings

theorem returnsAlike_iff (r : Record) :
    ReturnsAlike r ↔ ∀ field ∈ r.getFields "880", ¬NumberedZero field := by
  constructor
  · rintro ⟨strings, hchecked, -⟩ field hfield hzero
    obtain ⟨hmem, htag⟩ := List.mem_filter.1 hfield
    obtain ⟨e, he⟩ := anyPairOf_error hfield hzero
    have herror : ∃ e, unmatchedParallelStringsIn .overflowChecks r = .error e := by
      refine filterMapM_error ⟨field, hmem, e, ?_⟩
      rw [isUnmatchedIn, if_pos (of_decide_eq_true htag), he]
      rfl
    obtain ⟨e, he⟩ := herror
    rw [he] at hchecked
    cases hchecked
  · intro h
    refine ⟨_, unmatchedParallelStringsIn_of_readsPairs fun nonLatin hmem => ?_,
      unmatchedParallelStringsIn_noOverflowChecks r⟩
    exact parallelFieldPairIn_of_not_numberedZero _ (h nonLatin hmem)

/-- A place without a field that it is parallel to. -/
def unpaired : Record := ⟨[], [⟨"880", [⟨'6', "260-00"⟩, ⟨'a', "東京"⟩], ""⟩], ""⟩

theorem not_returnsAlike : ¬ReturnsAlike unpaired := by
  rintro ⟨strings, hchecked, -⟩
  have hpanic : unmatchedParallelStringsIn .overflowChecks unpaired
      = .error .subtractWithOverflow := by
    rfl
  rw [hpanic] at hchecked
  cases hchecked

end Runs

end Bibdata
