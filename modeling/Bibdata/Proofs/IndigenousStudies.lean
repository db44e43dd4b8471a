import Bibdata.IndigenousStudies
import Bibdata.Proofs.Subject

/-!
# Headings and their prefixes indicate the same

Whether a heading indicates indigenous studies is a matter of its parts (`indicates_iff`): more
parts at the end keep it so (`PartsIndicate.append`), and empty parts at the end do not matter
(`PartsIndicate.of_append_empty`). The prefixes that a facet lists have the first parts of the
heading, and the longest has all but the empty ones at the end.
-/

namespace Bibdata

section Subslice

theorem containsSubslice_iff {slice subslice : List String} :
    containsSubslice slice subslice = true ↔ subslice <:+: slice := by
  unfold containsSubslice
  split_ifs with hempty hlength
  · rw [List.isEmpty_iff.1 hempty]
    simp
  · constructor
    · intro h
      cases h
    · intro h
      have := h.length_le
      omega
  · rw [List.any_eq_true]
    constructor
    · rintro ⟨i, -, hi⟩
      rw [← of_decide_eq_true hi]
      exact (List.take_prefix _ _).isInfix.trans (List.drop_suffix _ _).isInfix
    · rintro ⟨s, t, rfl⟩
      refine ⟨s.length, ?_, ?_⟩
      · rw [List.mem_range, List.length_append, List.length_append]
        omega
      · rw [List.append_assoc, List.drop_left, List.take_left]
        simp

end Subslice

variable {toLowercase : String → String} {terms : IndigenousTerms}

section Terms

theorem replaceIndicators_eq_nil {cs : List Char} : replaceIndicators cs = [] ↔ cs = [] := by
  unfold replaceIndicators
  split <;> simp
  split_ifs <;> simp

theorem normalize_eq_empty (hlower : ∀ s, toLowercase s = "" ↔ s = "") {s : String} :
    normalize toLowercase s = "" ↔ s = "" := by
  rw [normalize, hlower, ← String.toList_inj, String.toList_ofList, String.toList_empty,
    replaceIndicators_eq_nil, String.toList_eq_nil_iff]

theorem empty_notMem_map (hlower : ∀ s, toLowercase s = "" ↔ s = "") {l : List String}
    (h : "" ∉ l) : "" ∉ l.map (normalize toLowercase) := by
  intro hmem
  obtain ⟨s, hs, hempty⟩ := List.mem_map.1 hmem
  rw [(normalize_eq_empty hlower).1 hempty] at hs
  exact h hs

theorem combinedWindows_ne_empty (hlower : ∀ s, toLowercase s = "" ↔ s = "") {main : String}
    {windows : List (List String)} (h : combinedWindows toLowercase terms main = some windows) :
    ∀ window ∈ windows, window ≠ [] ∧ "" ∉ window := by
  obtain ⟨row, hrow, rfl⟩ := Option.map_eq_some_iff.1 h
  intro window hw
  obtain ⟨raw, hraw, rfl⟩ := List.mem_map.1 hw
  have hmem := List.mem_reverse.1 (List.mem_of_find?_eq_some hrow)
  obtain ⟨hne, hempty⟩ := terms.ne_empty_window row hmem raw hraw
  exact ⟨by simp [hne], empty_notMem_map hlower hempty⟩

end Terms

/-- What the three matchers ask of the parts of a heading. -/
inductive PartsIndicate (toLowercase : String → String) (terms : IndigenousTerms)
    (ps : List String) : Prop
  | subfield {p : String} (mem : p ∈ ps) (listed : toLowercase p ∈ lcshSubfields toLowercase terms)
  | mainTerm {main : String} (head : ps.head? = some main)
      (listed : trimEndMatches '.' (normalize toLowercase main) ∈ mainTerms toLowercase terms)
  | combined {main : String} {windows : List (List String)} {window : List String}
      (head : ps.head? = some main)
      (listed : combinedWindows toLowercase terms (normalize toLowercase main) = some windows)
      (mem : window ∈ windows)
      (found : window <:+: ps.tail.map (normalize toLowercase))

section Matchers

variable {term : String}

theorem hasSubfield_iff :
    hasSubfield toLowercase terms term = true
      ↔ ∃ p ∈ splitChar separator term, toLowercase p ∈ lcshSubfields toLowercase terms := by
  simp [hasSubfield]

theorem hasMainTerm_iff :
    hasMainTerm toLowercase terms term = true
      ↔ ∃ main, (splitChar separator term).head? = some main
        ∧ trimEndMatches '.' (normalize toLowercase main) ∈ mainTerms toLowercase terms := by
  rw [hasMainTerm, Option.any_eq_true]
  simp

theorem splitChar_eq_singleton (h : separator ∉ term.toList) :
    splitChar separator term = [term] := by
  rw [splitChar, List.splitOn_eq_singleton h]
  simp

/-- A term without subdivisions has no window anyway. -/
theorem hasCombinedTerm_iff (hlower : ∀ s, toLowercase s = "" ↔ s = "") :
    hasCombinedTerm toLowercase terms term = true
      ↔ ∃ main windows window, (splitChar separator term).head? = some main
        ∧ combinedWindows toLowercase terms (normalize toLowercase main) = some windows
        ∧ window ∈ windows
        ∧ window <:+: (splitChar separator term).tail.map (normalize toLowercase) := by
  unfold hasCombinedTerm
  by_cases hsep : separator ∈ term.toList
  · rw [if_neg (not_not_intro hsep)]
    simp only [Option.any_eq_true, Option.bind_eq_some_iff, List.any_eq_true,
      containsSubslice_iff]
    constructor
    · rintro ⟨windows, ⟨main, hhead, hlisted⟩, window, hmem, hfound⟩
      exact ⟨main, windows, window, hhead, hlisted, hmem, hfound⟩
    · rintro ⟨main, windows, window, hhead, hlisted, hmem, hfound⟩
      exact ⟨windows, ⟨main, hhead, hlisted⟩, window, hmem, hfound⟩
  · rw [if_pos hsep, splitChar_eq_singleton hsep]
    constructor
    · intro h
      cases h
    · rintro ⟨main, windows, window, -, hlisted, hmem, hfound⟩
      have hnil := List.eq_nil_of_infix_nil hfound
      exact absurd hnil (combinedWindows_ne_empty hlower hlisted window hmem).1

theorem indicates_iff (hlower : ∀ s, toLowercase s = "" ↔ s = "") {headings : List String} :
    indicatesIndigenousStudies toLowercase terms headings = true
      ↔ ∃ term ∈ headings, PartsIndicate toLowercase terms (splitChar separator term) := by
  rw [indicatesIndigenousStudies, List.any_eq_true]
  refine exists_congr fun term => and_congr_right fun _ => ?_
  rw [Bool.or_eq_true, Bool.or_eq_true, hasSubfield_iff, hasMainTerm_iff,
    hasCombinedTerm_iff hlower]
  constructor
  · rintro ((⟨p, hp, hlisted⟩ | ⟨main, hhead, hlisted⟩)
      | ⟨main, windows, window, hhead, hlisted, hmem, hfound⟩)
    · exact .subfield hp hlisted
    · exact .mainTerm hhead hlisted
    · exact .combined hhead hlisted hmem hfound
  · intro h
    cases h with
    | subfield hp hlisted => exact .inl (.inl ⟨_, hp, hlisted⟩)
    | mainTerm hhead hlisted => exact .inl (.inr ⟨_, hhead, hlisted⟩)
    | combined hhead hlisted hmem hfound => exact .inr ⟨_, _, _, hhead, hlisted, hmem, hfound⟩

end Matchers

section Extension

variable {ps qs : List String}

theorem PartsIndicate.append (h : PartsIndicate toLowercase terms ps) :
    PartsIndicate toLowercase terms (ps ++ qs) := by
  cases h with
  | subfield hp hlisted => exact .subfield (List.mem_append_left qs hp) hlisted
  | mainTerm hhead hlisted => exact .mainTerm (by rw [List.head?_append, hhead]; rfl) hlisted
  | combined hhead hlisted hmem hfound =>
    have hne : ps ≠ [] := by
      rintro rfl
      cases hhead
    refine .combined (by rw [List.head?_append, hhead]; rfl) hlisted hmem ?_
    rw [List.tail_append_of_ne_nil hne, List.map_append]
    exact hfound.trans (List.prefix_append _ _).isInfix

theorem PartsIndicate.of_append_empty (hlower : ∀ s, toLowercase s = "" ↔ s = "") {n : ℕ}
    (hne : ps ≠ []) (h : PartsIndicate toLowercase terms (ps ++ List.replicate n "")) :
    PartsIndicate toLowercase terms ps := by
  have hhead : (ps ++ List.replicate n "").head? = ps.head? := List.head?_append_of_ne_nil _ hne
  cases h with
  | subfield hp hlisted =>
    rcases List.mem_append.1 hp with hp | hp
    · exact .subfield hp hlisted
    · rw [List.eq_of_mem_replicate hp, (hlower "").2 rfl] at hlisted
      exact absurd hlisted (empty_notMem_map hlower terms.ne_empty_subfieldX)
  | mainTerm hmain hlisted => exact .mainTerm (hhead ▸ hmain) hlisted
  | combined hmain hlisted hmem hfound =>
    refine .combined (hhead ▸ hmain) hlisted hmem ?_
    obtain ⟨hwindow, hempty⟩ := combinedWindows_ne_empty hlower hlisted _ hmem
    rw [List.tail_append_of_ne_nil hne, List.map_append, List.map_replicate,
      (normalize_eq_empty hlower).2 rfl] at hfound
    exact Delimited.infix_of_infix_append_replicate hfound hwindow hempty

theorem not_partsIndicate_empty (hlower : ∀ s, toLowercase s = "" ↔ s = "") {n : ℕ} :
    ¬ PartsIndicate toLowercase terms (List.replicate n "") := by
  intro h
  cases h with
  | subfield hp hlisted =>
    rw [List.eq_of_mem_replicate hp, (hlower "").2 rfl] at hlisted
    exact empty_notMem_map hlower terms.ne_empty_subfieldX hlisted
  | mainTerm hmain hlisted =>
    rw [List.eq_of_mem_replicate (List.mem_of_head? hmain), (normalize_eq_empty hlower).2 rfl]
      at hlisted
    exact empty_notMem_map hlower terms.ne_empty_subfieldA hlisted
  | combined hmain hlisted hmem hfound =>
    obtain ⟨hwindow, hempty⟩ := combinedWindows_ne_empty hlower hlisted _ hmem
    rw [List.tail_replicate, List.map_replicate, (normalize_eq_empty hlower).2 rfl,
      ← List.nil_append (List.replicate _ _)] at hfound
    have hnil := Delimited.infix_of_infix_append_replicate hfound hwindow hempty
    exact hwindow (List.eq_nil_of_infix_nil hnil)

end Extension

section Prefixes

theorem splitChar_joined {ps : List String} (hne : ps ≠ [])
    (h : ∀ p ∈ ps, separator ∉ p.toList) : splitChar separator (joined ps) = ps := by
  rw [splitChar, joined, String.toList_intercalate, String.toList_singleton,
    List.splitOn_intercalate]
  · rw [List.map_map]
    simp
  · simpa using h
  · simpa using hne

theorem splitChar_push (heading rest : String) :
    splitChar separator (heading.push separator ++ rest)
      = splitChar separator heading ++ splitChar separator rest := by
  rw [splitChar, String.toList_append, String.toList_push, List.append_assoc,
    List.singleton_append, List.splitOn_append_cons_self, List.map_append]
  rfl

theorem exists_splitChar_eq (heading : String) :
    ∃ n, splitChar separator heading = split separator heading ++ List.replicate n "" := by
  obtain ⟨n, hn⟩ := Delimited.exists_splitOn_eq separator heading.toList
  refine ⟨n, ?_⟩
  rw [splitChar, hn, List.map_append, List.map_replicate]
  rfl

theorem separator_notMem_of_mem_split {heading p : String} (h : p ∈ split separator heading) :
    separator ∉ p.toList := by
  obtain ⟨w, hw, rfl⟩ := List.mem_map.1 h
  rw [String.toList_ofList]
  exact Delimited.not_mem_of_mem_splitOn ((List.rdropWhile_prefix _ _).subset hw)

theorem splitChar_of_mem_accumulate {heading e : String}
    (h : e ∈ accumulateSubheading (split separator heading)) :
    splitChar separator e <+: split separator heading := by
  rw [accumulateSubheading_eq] at h
  obtain ⟨k, hk, rfl⟩ := List.mem_map.1 h
  have hlength := List.mem_range.1 hk
  have hinit := List.take_prefix (k + 1) (split separator heading)
  rw [splitChar_joined]
  · exact hinit
  · intro hnil
    have := congrArg List.length hnil
    rw [List.length_take, List.length_nil] at this
    omega
  · exact fun p hp => separator_notMem_of_mem_split (hinit.subset hp)

/-- Each prefix has first parts of the heading, and the last of them all that is not empty. -/
theorem partsIndicate_accumulate_iff (hlower : ∀ s, toLowercase s = "" ↔ s = "")
    (heading : String) :
    (∃ e ∈ accumulateSubheading (split separator heading),
        PartsIndicate toLowercase terms (splitChar separator e))
      ↔ PartsIndicate toLowercase terms (splitChar separator heading) := by
  obtain ⟨n, hn⟩ := exists_splitChar_eq heading
  constructor
  · rintro ⟨e, he, h⟩
    obtain ⟨qs, hqs⟩ := splitChar_of_mem_accumulate he
    rw [hn, ← hqs, List.append_assoc]
    exact h.append
  · intro h
    rw [hn] at h
    by_cases hne : split separator heading = []
    · rw [hne, List.nil_append] at h
      exact absurd h (not_partsIndicate_empty hlower)
    · refine ⟨joined (split separator heading), ?_, ?_⟩
      · exact List.mem_of_getLast? (getLast?_accumulateSubheading.2 ⟨hne, rfl⟩)
      · rw [splitChar_joined hne fun p hp => separator_notMem_of_mem_split hp]
        exact h.of_append_empty hlower hne

end Prefixes

theorem indicates_processHierarchy_eq (hlower : ∀ s, toLowercase s = "" ↔ s = "")
    (terms : IndigenousTerms) (isWord : Char → Bool) (extractor : MarcExtractor)
    (includeHeading : Field → Bool) :
    (∀ r : Record,
      indicatesIndigenousStudies toLowercase terms
          (processHierarchy isWord extractor includeHeading r)
        = indicatesIndigenousStudies toLowercase terms
          (accumulateHierarchyPerField isWord extractor includeHeading r))
    ∧ ∀ heading rest : String,
      indicatesIndigenousStudies toLowercase terms [heading] = true →
      indicatesIndigenousStudies toLowercase terms [heading.push separator ++ rest] = true := by
  constructor
  · intro r
    rw [Bool.eq_iff_iff, indicates_iff hlower, indicates_iff hlower]
    simp only [processHierarchy, accumulateHierarchyPerField, accumulatedHeadings,
      List.mem_flatMap]
    constructor
    · rintro ⟨heading, ⟨f, hf, hheading⟩, h⟩
      obtain ⟨e, he, h⟩ := (partsIndicate_accumulate_iff hlower heading).2 h
      exact ⟨e, ⟨f, hf, heading, hheading, he⟩, h⟩
    · rintro ⟨e, ⟨f, hf, heading, hheading, he⟩, h⟩
      exact ⟨heading, ⟨f, hf, hheading⟩, (partsIndicate_accumulate_iff hlower heading).1 ⟨e, he, h⟩⟩
  · intro heading rest h
    rw [indicates_iff hlower] at h ⊢
    obtain ⟨term, hterm, h⟩ := h
    rw [List.mem_singleton.1 hterm] at h
    refine ⟨_, List.mem_singleton_self _, ?_⟩
    rw [splitChar_push]
    exact h.append

def alaskanTerms : IndigenousTerms where
  standaloneSubfieldA := ["Quinnipiac Indians"]
  combinedTerms := [("Alaska", [["Antiquities"]])]
  standaloneSubfieldX := ["Indian authors"]
  ne_empty_subfieldA := by decide
  ne_empty_subfieldX := by decide
  ne_empty_window := by decide

def lcExtractor : MarcExtractor where
  specsCovering f :=
    if f.tag = "650" ∧ f.ind2 = "0" then [['a', 'b', 'c', 'v', 'x', 'y', 'z']] else []
  collects f spec := f.subfields.any (·.code ∈ spec)
  collects_iff := any_code_iff

def alaskanRecord : Record where
  fields := [{ tag := "650", subfields := [⟨'a', "Alaska"⟩, ⟨'x', "Antiquities."⟩, ⟨'v', "Maps"⟩],
               ind2 := "0" }]

theorem indicates_processHierarchy_eq_alaskan :
    indicatesIndigenousStudies lowercaseLetters alaskanTerms
        (accumulateHierarchyPerField Char.isAlpha lcExtractor (fun _ => true) alaskanRecord) = true
    ∧ indicatesIndigenousStudies lowercaseLetters alaskanTerms
        ["Alaska—Antiquities".push separator ++ "ABC123"] = true := by
  have h := indicates_processHierarchy_eq lowercaseLetters_eq_empty alaskanTerms Char.isAlpha
    lcExtractor fun _ => true
  constructor
  · rw [← h.1 alaskanRecord]
    decide +kernel
  · exact h.2 _ _ (by decide +kernel)

end Bibdata
