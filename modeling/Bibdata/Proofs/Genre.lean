import Bibdata.Genre
import Bibdata.Proofs.Subject

/-!
# Headings of rare books and their prefixes

A heading that starts with the separator loses it in all its prefixes, and nothing that
`accumulate_hierarchical_heading` gives starts with it (`not_separator_of_mem`). The heading of a
field starts with the separator when a subdivision or an empty $a comes first (`headsWithTerm_iff`).
-/

namespace Bibdata

open Boundaries

section Prefixes

variable {heading : String} {prefixes : List String}

/-- A beginning of the heading that a separator follows, or the heading. -/
def EndsAtSeparator (heading p : String) : Prop :=
  Boundaries.EndsAt separator heading.toList p.toList

def startsWithSeparator (heading : String) : Bool := heading.toList.head? = some separator

structure ListsPrefixes (heading : String) (prefixes : List String) : Prop where
  exact : ∀ p, p ∈ prefixes ↔ p ≠ "" ∧ EndsAtSeparator heading p
  increasing : prefixes.Pairwise fun p q => p.length < q.length
  whole : heading ≠ "" → prefixes.getLast? = some heading

def accumulated (heading : String) : List String :=
  (accumulateHierarchicalHeading heading).getD []

theorem accumulated_eq (heading : String) :
    accumulated heading = ((scan separator [] (heading.toList.splitOn separator)).map
      String.ofList).filter (· ≠ "") := by
  simp only [accumulated, accumulateHierarchicalHeading]
  split_ifs with h
  · rw [h]
    rfl
  · rfl

theorem accumulated_of_not_startsWith (h : startsWithSeparator heading = false) :
    accumulated heading
      = ((Boundaries.prefixes separator heading.toList).map String.ofList).filter (· ≠ "") := by
  rw [accumulated_eq, scan_splitOn (of_decide_eq_false h)]

theorem not_separator_of_mem {p : String} (h : p ∈ accumulated heading) :
    p ≠ "" ∧ startsWithSeparator p = false := by
  rw [accumulated_eq, List.mem_filter] at h
  obtain ⟨hmem, hne⟩ := h
  obtain ⟨q, hq, rfl⟩ := List.mem_map.1 hmem
  refine ⟨of_decide_eq_true hne, decide_eq_false ?_⟩
  rw [String.toList_ofList]
  exact head?_of_mem_scan (by simp) (fun part => Delimited.not_mem_of_mem_splitOn) hq

theorem listsPrefixes_of_not_startsWith (h : startsWithSeparator heading = false) :
    ListsPrefixes heading (accumulated heading) := by
  rw [accumulated_of_not_startsWith h]
  refine ⟨fun p => ?_, ?_, fun hne => ?_⟩
  · have hmap : p ∈ (Boundaries.prefixes separator heading.toList).map String.ofList
        ↔ p.toList ∈ Boundaries.prefixes separator heading.toList := by
      constructor
      · intro hmem
        obtain ⟨q, hq, rfl⟩ := List.mem_map.1 hmem
        rwa [String.toList_ofList]
      · intro hmem
        exact List.mem_map.2 ⟨p.toList, hmem, String.ofList_toList⟩
    rw [List.mem_filter, hmap, mem_prefixes, EndsAtSeparator, decide_eq_true_eq, and_comm]
  · refine List.Pairwise.filter _ (List.pairwise_map.2 ?_)
    exact (pairwise_prefixes separator heading.toList).imp fun hlength => by
      rwa [String.length_ofList, String.length_ofList]
  · obtain ⟨init, hinit⟩ :=
      List.getLast?_eq_some_iff.1 (getLast?_prefixes separator heading.toList)
    have hlast : [heading].filter (· ≠ "") = [heading] := by simp [hne]
    rw [hinit, List.map_append, List.filter_append, List.map_singleton, String.ofList_toList, hlast,
      List.getLast?_concat]

theorem listsPrefixes_iff (heading : String) :
    ListsPrefixes heading (accumulated heading) ↔ startsWithSeparator heading = false := by
  refine ⟨fun h => ?_, listsPrefixes_of_not_startsWith⟩
  by_cases hne : heading = ""
  · rw [hne]
    rfl
  · have hmem : heading ∈ accumulated heading :=
      List.mem_of_getLast? (h.whole hne)
    exact (not_separator_of_mem hmem).2

end Prefixes

section Headings

variable (isWord : Char → Bool)

def headingSubfields (field : Field) : List Subfield :=
  field.subfields.filter (·.code ∈ ['a', 'v', 'x', 'y', 'z'])

def isEmptyTerm (s : Subfield) : Bool := s.code = 'a' && trimPunctuation isWord s.content = ""

/-- The first subfield that adds to a heading is an $a, whose text is no separator at first. -/
def HeadsWithTerm (subfields : List Subfield) : Prop :=
  ∃ s, (subfields.dropWhile (isEmptyTerm isWord)).head? = some s ∧ s.code = 'a'
    ∧ startsWithSeparator (trimPunctuation isWord s.content) = false

theorem headsWithTerm_iff_head? {subs : List Subfield} {p : Subfield → Bool}
    (hp : ∀ s ∈ subs, p s = true ↔ s.code ≠ 'a') :
    HeadsWithTerm isWord subs ↔ ∃ c,
      (subs.flatMap (Delimited.before separator p (headingText isWord))).head? = some c
        ∧ c ≠ separator := by
  unfold HeadsWithTerm
  induction subs with
  | nil => simp
  | cons s subs ih =>
    have hrest := ih fun t ht => hp t (List.mem_cons_of_mem _ ht)
    rw [List.flatMap_cons, Delimited.before]
    by_cases ha : s.code = 'a'
    · have hmark : p s = false := by
        by_contra hmark
        exact (hp s List.mem_cons_self).1 (Bool.not_eq_false _ ▸ hmark) ha
      simp only [hmark, Bool.false_eq_true, if_false, List.nil_append]
      by_cases hempty : trimPunctuation isWord s.content = ""
      · have htext : headingText isWord s = [] := by rw [headingText, hempty, String.toList_empty]
        rw [List.dropWhile_cons_of_pos (by simp [isEmptyTerm, ha, hempty]), htext, List.nil_append]
        exact hrest
      · have htext : headingText isWord s ≠ [] := by
          rwa [headingText, ne_eq, String.toList_eq_nil_iff]
        rw [List.dropWhile_cons_of_neg (by simp [isEmptyTerm, hempty]),
          List.head?_append_of_ne_nil _ htext]
        obtain ⟨c, cs, hcs⟩ := List.exists_cons_of_ne_nil htext
        have hhead : startsWithSeparator (trimPunctuation isWord s.content) = false
            ↔ c ≠ separator := by
          rw [startsWithSeparator, ← headingText, hcs, decide_eq_false_iff_not, List.head?_cons,
            Option.some_inj]
        simp [hcs, ha, hhead]
    · have hmark : p s = true := (hp s List.mem_cons_self).2 ha
      rw [List.dropWhile_cons_of_neg (by simp [isEmptyTerm, ha])]
      simp [hmark, ha]

theorem headsWithTerm_iff (field : Field) :
    HeadsWithTerm isWord (headingSubfields field) ↔ rareBooksGenreHeading isWord field ≠ ""
      ∧ startsWithSeparator (rareBooksGenreHeading isWord field) = false := by
  have hmarked : ∀ s ∈ headingSubfields field,
      decide (s.code ∈ ['v', 'x', 'y', 'z']) = true ↔ s.code ≠ 'a' := by
    intro s hs
    have hincluded := of_decide_eq_true (List.mem_filter.1 hs).2
    rw [decide_eq_true_eq]
    constructor
    · rintro hsub ha
      simp [ha] at hsub
    · exact (List.mem_cons.1 hincluded).resolve_left
  rw [headsWithTerm_iff_head? isWord hmarked, startsWithSeparator, ne_eq,
    ← String.toList_eq_nil_iff, rareBooksGenreHeading, toList_hierarchicalHeading,
    ← headingSubfields]
  rcases (headingSubfields field).flatMap _ with _ | ⟨c, cs⟩
  · simp
  · simp

end Headings

section Facet

variable (isWord : Char → Bool) {r : Record} {v : String}

def isRareBooks : Field → Bool := hasGenre .rareBooksManuscriptsGenreVocabularies

theorem mem_rbgenrS :
    v ∈ rbgenrS isWord r
      ↔ ∃ field ∈ r.fields, isRareBooks field ∧ rareBooksGenreHeading isWord field = v := by
  rw [rbgenrS, genreValues, mem_extractFieldValuesBy]
  simp only [Option.some_inj, isRareBooks]

theorem mem_rbgenrGenreFacet :
    v ∈ rbgenrGenreFacet isWord r ↔ ∃ field ∈ r.fields, isRareBooks field
      ∧ v ∈ accumulated (rareBooksGenreHeading isWord field) := by
  have haccumulated : ∀ heading, v ∈ accumulated heading
      ↔ ∃ prefixes, accumulateHierarchicalHeading heading = some prefixes ∧ v ∈ prefixes := by
    intro heading
    rw [accumulated]
    rcases accumulateHierarchicalHeading heading with _ | prefixes
    · simp
    · simp
  simp only [haccumulated, rbgenrGenreFacet, List.mem_flatten, mem_extractFieldValuesBy]
  constructor
  · rintro ⟨prefixes, ⟨field, hmem, hrare, hprefixes⟩, hv⟩
    exact ⟨field, hmem, hrare, prefixes, hprefixes, hv⟩
  · rintro ⟨field, hmem, hrare, prefixes, hprefixes, hv⟩
    exact ⟨prefixes, ⟨field, hmem, hrare, hprefixes⟩, hv⟩

def RbgenrInFacet (r : Record) : Prop := ∀ v ∈ rbgenrS isWord r, v ∈ rbgenrGenreFacet isWord r

theorem rbgenrInFacet_iff (r : Record) :
    RbgenrInFacet isWord r
      ↔ ∀ field ∈ r.fields, isRareBooks field → HeadsWithTerm isWord (headingSubfields field) := by
  constructor
  · intro h field hmem hrare
    obtain ⟨other, -, -, hprefix⟩ := (mem_rbgenrGenreFacet isWord).1
      (h _ ((mem_rbgenrS isWord).2 ⟨field, hmem, hrare, rfl⟩))
    exact (headsWithTerm_iff isWord field).2 (not_separator_of_mem hprefix)
  · intro h v hv
    obtain ⟨field, hmem, hrare, rfl⟩ := (mem_rbgenrS isWord).1 hv
    obtain ⟨hne, hstart⟩ := (headsWithTerm_iff isWord field).1 (h field hmem hrare)
    have hwhole := (listsPrefixes_of_not_startsWith hstart).whole hne
    exact (mem_rbgenrGenreFacet isWord).2 ⟨field, hmem, hrare, List.mem_of_getLast? hwhole⟩

/-- When the prefixes of a heading are all there, and when a record finds its values again. -/
theorem prefixes_and_facet_iff (heading : String) (r : Record) :
    (ListsPrefixes heading (accumulated heading) ↔ startsWithSeparator heading = false)
      ∧ (RbgenrInFacet isWord r
        ↔ ∀ field ∈ r.fields, isRareBooks field → HeadsWithTerm isWord (headingSubfields field)) :=
  ⟨listsPrefixes_iff heading, rbgenrInFacet_iff isWord r⟩

/-- A field with a subdivision alone. -/
def subdivisionAlone : Field := ⟨"655", [⟨'z', "Maine"⟩, ⟨'2', "rbgenr"⟩], "7"⟩

theorem not_prefixes_and_facet :
    ¬ListsPrefixes "—Maine" (accumulated "—Maine")
      ∧ rbgenrS Char.isAlpha ⟨[], [subdivisionAlone], ""⟩ = ["—Maine"]
      ∧ rbgenrGenreFacet Char.isAlpha ⟨[], [subdivisionAlone], ""⟩ = ["Maine"]
      ∧ ¬RbgenrInFacet Char.isAlpha ⟨[], [subdivisionAlone], ""⟩ := by
  have hdisplay : rbgenrS Char.isAlpha ⟨[], [subdivisionAlone], ""⟩ = ["—Maine"] := by
    decide +kernel
  have hfacet : rbgenrGenreFacet Char.isAlpha ⟨[], [subdivisionAlone], ""⟩ = ["Maine"] := by
    decide +kernel
  refine ⟨fun h => ?_, hdisplay, hfacet, fun h => ?_⟩
  · have hwhole := h.whole (by decide)
    revert hwhole
    decide +kernel
  · have hmem := h "—Maine" (by simp [hdisplay])
    rw [hfacet] at hmem
    revert hmem
    decide

end Facet

end Bibdata
