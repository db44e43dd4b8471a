import Bibdata.Identifier

/-!
# The canonical form of an OCLC number

What normalization puts before the numbers of a text is letters and zeros, which are passed over
when the numbers are read again (`stripNonNumeric_append`). So the form has the same numbers, and
there is one form for each.
-/

namespace Bibdata

variable {isNumeric : Char → Bool}

/-- What is passed over before the first number. -/
def isPassedOver (isNumeric : Char → Bool) (c : Char) : Bool := !isNumeric c || c = '0'

theorem toList_stripNonNumeric (s : String) :
    (stripNonNumeric isNumeric s).toList
      = (s.toList.dropWhile (isPassedOver isNumeric)).filter isNumeric := by
  rw [stripNonNumeric, String.toList_ofList]
  rfl

theorem stripNonNumeric_append {pre : String}
    (hpre : ∀ c ∈ pre.toList, isPassedOver isNumeric c = true) (s : String) :
    stripNonNumeric isNumeric (pre ++ s) = stripNonNumeric isNumeric s := by
  rw [← String.toList_inj, toList_stripNonNumeric, toList_stripNonNumeric, String.toList_append,
    List.dropWhile_append_of_pos hpre]

/-- The first number stands at the front, and is not zero. -/
theorem stripNonNumeric_stripNonNumeric (s : String) :
    stripNonNumeric isNumeric (stripNonNumeric isNumeric s) = stripNonNumeric isNumeric s := by
  rw [← String.toList_inj, toList_stripNonNumeric, toList_stripNonNumeric]
  rcases hrest : s.toList.dropWhile (isPassedOver isNumeric) with _ | ⟨c, rest⟩
  · rfl
  · have hc : isPassedOver isNumeric c = false := by
      have hne : s.toList.dropWhile (isPassedOver isNumeric) ≠ [] := by simp [hrest]
      have hhead := List.head_dropWhile_not (isPassedOver isNumeric) hne
      simpa [hrest] using hhead
    have hnumeric : isNumeric c = true := by
      simp only [isPassedOver, Bool.or_eq_false_iff, Bool.not_eq_false'] at hc
      exact hc.1
    rw [List.filter_cons_of_pos hnumeric, List.dropWhile_cons_of_neg (by simp [hc]),
      List.filter_cons_of_pos hnumeric, List.filter_filter]
    simp

/-- Letters and zeros are put before the numbers. -/
theorem normalizeOclcNumber_eq (hletters : ∀ c : Char, c.isAlpha → isNumeric c = false)
    (s : String) :
    ∃ pre : String, (∀ c ∈ pre.toList, isPassedOver isNumeric c = true)
      ∧ normalizeOclcNumber isNumeric s = pre ++ stripNonNumeric isNumeric s := by
  have hpassed : ∀ c : Char, c.isAlpha → isPassedOver isNumeric c = true := by
    intro c hc
    simp [isPassedOver, hletters c hc]
  have hname : ∀ c ∈ ['o', 'c', 'm', 'n'], isPassedOver isNumeric c = true := by
    simp only [List.forall_mem_cons]
    exact ⟨hpassed _ rfl, hpassed _ rfl, hpassed _ rfl, hpassed _ rfl, by simp⟩
  simp only [List.forall_mem_cons] at hname
  obtain ⟨ho, hc, hm, hn, -⟩ := hname
  simp only [normalizeOclcNumber, padToEight]
  split_ifs with hshort hnine
  · refine ⟨"ocm" ++ String.ofList (List.replicate
      (8 - (stripNonNumeric isNumeric s).toList.length) '0'), ?_, by rw [String.append_assoc]⟩
    intro c hmem
    simp only [String.toList_append, String.toList_ofList, List.mem_append,
      List.mem_replicate] at hmem
    rcases hmem with hmem | ⟨-, rfl⟩
    · have : c = 'o' ∨ c = 'c' ∨ c = 'm' := by simpa using hmem
      rcases this with rfl | rfl | rfl <;> assumption
    · simp [isPassedOver]
  · refine ⟨"ocn", ?_, rfl⟩
    simp [ho, hc, hn]
  · refine ⟨"on", ?_, rfl⟩
    simp [ho, hn]

/-- The form of a number is that of its digits, and the other way round. -/
theorem normalizeOclcNumber_canonical (hletters : ∀ c : Char, c.isAlpha → isNumeric c = false)
    (x y : String) :
    normalizeOclcNumber isNumeric (normalizeOclcNumber isNumeric x)
        = normalizeOclcNumber isNumeric x
      ∧ stripNonNumeric isNumeric (normalizeOclcNumber isNumeric x) = stripNonNumeric isNumeric x
      ∧ (normalizeOclcNumber isNumeric x = normalizeOclcNumber isNumeric y
        ↔ stripNonNumeric isNumeric x = stripNonNumeric isNumeric y) := by
  have hstrip : ∀ s, stripNonNumeric isNumeric (normalizeOclcNumber isNumeric s)
      = stripNonNumeric isNumeric s := by
    intro s
    obtain ⟨pre, hpre, hs⟩ := normalizeOclcNumber_eq hletters s
    rw [hs, stripNonNumeric_append hpre, stripNonNumeric_stripNonNumeric]
  have hform : ∀ {s t : String}, stripNonNumeric isNumeric s = stripNonNumeric isNumeric t →
      normalizeOclcNumber isNumeric s = normalizeOclcNumber isNumeric t := by
    intro s t hsame
    rw [normalizeOclcNumber, normalizeOclcNumber, hsame]
  refine ⟨hform (hstrip x), hstrip x, fun hsame => ?_, hform⟩
  rw [← hstrip x, hsame, hstrip y]

/-- With a digit of another script, which takes two bytes. -/
theorem normalizeOclcNumber_canonical_arabic :
    normalizeOclcNumber (fun c => c.isDigit || c = '٣') "(OCoLC)ocm00012٣45" = "ocm00012٣45"
      ∧ (normalizeOclcNumber (fun c => c.isDigit || c = '٣') "(OCoLC)ocm00012٣45"
          = normalizeOclcNumber (fun c => c.isDigit || c = '٣') "12٣45"
        ↔ stripNonNumeric (fun c => c.isDigit || c = '٣') "(OCoLC)ocm00012٣45"
          = stripNonNumeric (fun c => c.isDigit || c = '٣') "12٣45") := by
  refine ⟨by decide +kernel, (normalizeOclcNumber_canonical ?_ _ _).2.2⟩
  intro c hc
  have hdigit : c.isDigit = false := by
    by_contra hdigit
    rw [Bool.not_eq_false, Char.isDigit_iff_toNat] at hdigit
    have hnine : '9'.toNat = 57 := rfl
    have hupper : 'A'.val.toNat = 65 := rfl
    have hlower : 'a'.val.toNat = 97 := rfl
    rw [← Char.toNat_val (c := c)] at hdigit
    rcases Bool.or_eq_true_iff.1 hc with hletter | hletter
    · have hfrom : 'A'.val ≤ c.val := (of_decide_eq_true hletter).1
      rw [UInt32.le_iff_toNat_le] at hfrom
      omega
    · have hfrom : 'a'.val ≤ c.val := of_decide_eq_true (Bool.and_eq_true_iff.1 hletter).1
      rw [UInt32.le_iff_toNat_le] at hfrom
      omega
  have hother : c ≠ '٣' := by
    rintro rfl
    simp at hc
  simp [hdigit, hother]

end Bibdata
