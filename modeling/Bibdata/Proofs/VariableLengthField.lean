import Bibdata.VariableLengthField

/-!
# Which fields a specification covers

An ordinary field is covered under all scripts as it is under Latin script, and an 880 field as it
is under the others (`matches_of_ne`, `matches_of_eq`), as long as no specification asks for 880
itself. So a field is extracted for one of the scripts or for none (`filter_sourced`).

The function for the title compares codes of one letter with a text of eight, and joins nothing;
`extract_marc` reads the same codes one by one (`extractMarc_title`).
-/

namespace Bibdata

section Scripts

variable {field : Field} {tags : List String}

theorem nonLatinTag_of_ne (h : field.tag ≠ "880") : nonLatinTag field = none := if_pos h

theorem matches_of_ne (h : field.tag ≠ "880") :
    fieldTagMatches field .latinOnly tags = fieldTagMatches field .all tags
      ∧ fieldTagMatches field .nonLatinOnly tags = false := by
  simp [fieldTagMatches, latinTagIncludedIn, latinOrNonLatinTagIncludedIn,
    nonLatinTagIncludedIn, nonLatinTag_of_ne h]

theorem matches_of_eq (h : field.tag = "880") (htags : "880" ∉ tags) :
    fieldTagMatches field .nonLatinOnly tags = fieldTagMatches field .all tags
      ∧ fieldTagMatches field .latinOnly tags = false := by
  simp [fieldTagMatches, latinTagIncludedIn, latinOrNonLatinTagIncludedIn,
    nonLatinTagIncludedIn, h, htags]

end Scripts

section Extraction

variable {specs : List ExtractSpec} {field : Field} {scripts scripts' : ScriptsToIndex}

def forScripts (scripts : ScriptsToIndex) (specs : List ExtractSpec) : List ExtractSpec :=
  specs.map (·.withScripts scripts)

/-- What one field adds. -/
def extracted (specs : List ExtractSpec) (field : Field) : Option String :=
  if specs.any (·.tagMatcher field) then specs.findSome? (·.getSubfields field) else none

/-- The values, each with the field it is from. -/
def sourced (specs : List ExtractSpec) (fields : List Field) : List (Field × String) :=
  fields.filterMap fun field => (extracted specs field).map (field, ·)

theorem map_snd_sourced (specs : List ExtractSpec) (r : Record) :
    (sourced specs r.fields).map Prod.snd = extractMarc specs r := by
  unfold sourced extractMarc extractFieldValuesBy
  rw [List.map_filterMap]
  refine List.filterMap_congr fun field _ => ?_
  rw [Option.map_map]
  show (extracted specs field).map id = _
  rw [Option.map_id]
  rfl

theorem map_fst_sourced_sublist (specs : List ExtractSpec) (fields : List Field) :
    ((sourced specs fields).map Prod.fst).Sublist fields := by
  induction fields with
  | nil => exact List.Sublist.refl _
  | cons field fields ih =>
    unfold sourced at ih ⊢
    rw [List.filterMap_cons]
    rcases extracted specs field with _ | value
    · exact ih.cons field
    · exact ih.cons_cons field

theorem getSubfields_eq_none {spec : ExtractSpec} (h : spec.tagMatcher field = false) :
    spec.getSubfields field = none := by
  rw [ExtractSpec.getSubfields, h, if_neg Bool.false_ne_true]

/-- A specification that finds a text covers the field. -/
theorem extracted_eq (specs : List ExtractSpec) (field : Field) :
    extracted specs field = specs.findSome? (·.getSubfields field) := by
  unfold extracted
  split_ifs with hany
  · rfl
  · rw [Bool.not_eq_true, List.any_eq_false] at hany
    refine (List.findSome?_eq_none_iff.2 fun spec hspec => ?_).symm
    exact getSubfields_eq_none (Bool.not_eq_true _ ▸ hany spec hspec)

theorem extracted_congr
    (h : ∀ spec ∈ specs,
      fieldTagMatches field scripts [spec.tag] = fieldTagMatches field scripts' [spec.tag]) :
    extracted (forScripts scripts specs) field = extracted (forScripts scripts' specs) field := by
  rw [extracted_eq, extracted_eq]
  unfold forScripts
  induction specs with
  | nil => rfl
  | cons spec specs ih =>
    have hspec : (spec.withScripts scripts).getSubfields field
        = (spec.withScripts scripts').getSubfields field := by
      show (if fieldTagMatches field scripts [spec.tag] then _ else none) = _
      rw [h spec List.mem_cons_self]
      rfl
    rw [List.map_cons, List.map_cons, List.findSome?_cons, List.findSome?_cons, hspec,
      ih fun spec hmem => h spec (List.mem_cons_of_mem _ hmem)]

theorem extracted_eq_none
    (h : ∀ spec ∈ specs, fieldTagMatches field scripts [spec.tag] = false) :
    extracted (forScripts scripts specs) field = none := by
  rw [extracted_eq, List.findSome?_eq_none_iff]
  intro spec hspec
  obtain ⟨spec, hmem, rfl⟩ := List.mem_map.1 hspec
  exact getSubfields_eq_none (h spec hmem)

theorem covered_of_mem_sourced {value : Field × String} {fields : List Field}
    (h : value ∈ sourced (forScripts .all specs) fields) :
    value.1.tag ∈ specs.map (·.tag) ∨ nonLatinTagIncludedIn (specs.map (·.tag)) value.1 := by
  obtain ⟨field, -, hvalue⟩ := List.mem_filterMap.1 h
  obtain ⟨text, htext, rfl⟩ := Option.map_eq_some_iff.1 hvalue
  rw [extracted_eq] at htext
  obtain ⟨_, hspec, hget⟩ := List.exists_of_findSome?_eq_some htext
  obtain ⟨spec, hmem, rfl⟩ := List.mem_map.1 hspec
  have hmatch : (spec.withScripts .all).tagMatcher field = true := by
    by_contra hmatch
    rw [getSubfields_eq_none (Bool.not_eq_true _ ▸ hmatch)] at hget
    cases hget
  have htag : spec.tag ∈ specs.map (·.tag) := List.mem_map_of_mem hmem
  simp only [ExtractSpec.tagMatcher, ExtractSpec.withScripts, fieldTagMatches,
    latinOrNonLatinTagIncludedIn, List.mem_singleton, Bool.or_eq_true, decide_eq_true_eq,
    Option.any_eq_true] at hmatch
  rcases hmatch with hordinary | ⟨tag, hlinked, rfl⟩
  · exact .inl (hordinary ▸ htag)
  · refine .inr ?_
    rw [nonLatinTagIncludedIn, hlinked, Option.any_some]
    exact decide_eq_true htag

/-- The values of the fields that the specifications cover alike. -/
theorem filter_sourced {specs specs' : List ExtractSpec} {p : Field → Bool}
    (hsame : ∀ field, p field = true → extracted specs field = extracted specs' field)
    (hnone : ∀ field, p field = false → extracted specs' field = none) (fields : List Field) :
    (sourced specs fields).filter (fun value => p value.1) = sourced specs' fields := by
  induction fields with
  | nil => rfl
  | cons field fields ih =>
    unfold sourced at ih ⊢
    rw [List.filterMap_cons, List.filterMap_cons]
    cases hp : p field
    · rw [hnone field hp]
      rcases extracted specs field with _ | value
      · exact ih
      · simp only [Option.map_some, Option.map_none, List.filter_cons, hp]
        exact ih
    · rw [← hsame field hp]
      rcases extracted specs field with _ | value
      · exact ih
      · simp only [Option.map_some, List.filter_cons, hp, ih, if_true]

/-- The values of all scripts are those of the two kinds of fields, in the order of the record. -/
theorem extractMarc_all (h : ∀ spec ∈ specs, spec.tag ≠ "880") (r : Record) :
    let all := sourced (forScripts .all specs) r.fields
    all.map Prod.snd = extractMarc (forScripts .all specs) r
      ∧ (all.map Prod.fst).Sublist r.fields
      ∧ (all.filter (·.1.tag ≠ "880")).map Prod.snd = extractMarc (forScripts .latinOnly specs) r
      ∧ (all.filter (·.1.tag = "880")).map Prod.snd
        = extractMarc (forScripts .nonLatinOnly specs) r
      ∧ ∀ value ∈ all, value.1.tag ∈ specs.map (·.tag)
        ∨ nonLatinTagIncludedIn (specs.map (·.tag)) value.1 := by
  have htags : ∀ spec ∈ specs, "880" ∉ [spec.tag] := fun spec hspec => by
    simpa using (h spec hspec).symm
  refine ⟨map_snd_sourced _ r, map_fst_sourced_sublist _ _, ?_, ?_, ?_⟩
  · rw [← map_snd_sourced]
    congr 1
    refine filter_sourced (p := (·.tag ≠ "880")) (fun field hfield => ?_) (fun field hfield => ?_) _
    · refine extracted_congr fun spec _ => ?_
      exact (matches_of_ne (of_decide_eq_true hfield)).1.symm
    · refine extracted_eq_none fun spec hspec => ?_
      exact (matches_of_eq (by simpa using hfield) (htags spec hspec)).2
  · rw [← map_snd_sourced]
    congr 1
    refine filter_sourced (p := (·.tag = "880")) (fun field hfield => ?_) (fun field hfield => ?_) _
    · refine extracted_congr fun spec hspec => ?_
      exact (matches_of_eq (of_decide_eq_true hfield) (htags spec hspec)).1.symm
    · refine extracted_eq_none fun spec _ => ?_
      exact (matches_of_ne (of_decide_eq_false hfield)).2
  · intro value hvalue
    exact covered_of_mem_sourced hvalue

theorem extractMarc_all_title :
    let all := sourced (forScripts .all [⟨"245", ['a'], .all⟩])
      [⟨"245", [⟨'a', "Kokoro"⟩], ""⟩, ⟨"880", [⟨'6', " 245-01"⟩, ⟨'a', "こころ"⟩], ""⟩]
    all = [(⟨"245", [⟨'a', "Kokoro"⟩], ""⟩, "Kokoro"),
      (⟨"880", [⟨'6', " 245-01"⟩, ⟨'a', "こころ"⟩], ""⟩, "こころ")]
      ∧ (all.filter (·.1.tag ≠ "880")).map Prod.snd
        = extractMarc [⟨"245", ['a'], .latinOnly⟩]
          ⟨[], [⟨"245", [⟨'a', "Kokoro"⟩], ""⟩, ⟨"880", [⟨'6', " 245-01"⟩, ⟨'a', "こころ"⟩], ""⟩],
            ""⟩ := by
  have htag : ∀ spec ∈ [(⟨"245", ['a'], .all⟩ : ExtractSpec)], spec.tag ≠ "880" := by simp
  have hall := extractMarc_all htag
    ⟨[], [⟨"245", [⟨'a', "Kokoro"⟩], ""⟩, ⟨"880", [⟨'6', " 245-01"⟩, ⟨'a', "こころ"⟩], ""⟩], ""⟩
  exact ⟨by decide +kernel, hall.2.2.1⟩

end Extraction

section Title

variable {r : Record} {field : Field}

def titleSubfields : List Char := ['a', 'b', 'c', 'h', 'k', 'n', 'p', 's']

def joinedTitle (field : Field) : String :=
  " ".intercalate (subfieldContents (filterByCode titleSubfields field.subfields))

/-- The title is the join of the first 245. -/
def JoinsTitle (r : Record) : Prop := latinScriptTitle r = (r.getFields "245").head?.map joinedTitle

/-- With one 245, the title is what the specification extracts, up to whitespace, and none where
it is empty. -/
def AgreesWithExtractMarc (r : Record) : Prop :=
  ∀ spec, ExtractSpec.new "245abchknps" .latinOnly = some spec → (r.getFields "245").length = 1 →
    extractMarc [spec] r
      = (((latinScriptTitle r).map combineConsecutiveWhitespace).bind maybeNotEmpty).toList

theorem intercalate_eq_empty {texts : List String} :
    " ".intercalate texts = "" ↔ texts = [] ∨ texts = [""] := by
  rcases texts with _ | ⟨text, _ | ⟨next, texts⟩⟩
  · simp
  · simp
  · simp [String.intercalate_cons_cons]

theorem singleton_not_mem (c : Char) : String.singleton c ∉ latinScriptTitleSubfields := by
  rw [latinScriptTitleSubfields, List.mem_singleton]
  intro h
  have hlength := congrArg String.length h
  rw [String.length_singleton] at hlength
  exact absurd hlength (by decide)

/-- No subfield is ever joined. -/
theorem latinScriptTitle_eq (r : Record) :
    latinScriptTitle r = (r.getFields "245").head?.map fun _ => "" := by
  unfold latinScriptTitle firstMatchingFieldValue
  rw [extractFieldValuesBy_some, List.head?_map]
  refine congrArg (Option.map · _) (funext fun field => ?_)
  rw [List.filter_eq_nil_iff.2 fun s _ => by simp [singleton_not_mem]]
  rfl

/-- One by one, the codes find the title. -/
theorem extractMarc_title {spec : ExtractSpec}
    (hspec : ExtractSpec.new "245abchknps" .latinOnly = some spec) (r : Record) :
    extractMarc [spec] r = (r.getFields "245").filterMap fun field =>
      maybeNotEmpty (combineConsecutiveWhitespace (joinedTitle field)) := by
  have hnew : ExtractSpec.new "245abchknps" .latinOnly
      = some ⟨"245", titleSubfields, .latinOnly⟩ := by decide +kernel
  rw [hnew] at hspec
  cases hspec
  rw [Record.getFields, List.filterMap_filter]
  refine List.filterMap_congr fun field _ => ?_
  show extracted [⟨"245", titleSubfields, .latinOnly⟩] field = _
  rw [extracted_eq, List.findSome?_singleton, ExtractSpec.getSubfields]
  simp only [ExtractSpec.tagMatcher, fieldTagMatches, latinTagIncludedIn, List.mem_singleton]
  rfl

theorem joinsTitle_of_head? {r : Record} (h : (r.getFields "245").head? = none) :
    JoinsTitle r := by
  rw [JoinsTitle, latinScriptTitle_eq, h]
  rfl

theorem joinsTitle_iff_head {r : Record} {field : Field}
    (h : (r.getFields "245").head? = some field) :
    JoinsTitle r ↔ joinedTitle field = "" := by
  rw [JoinsTitle, latinScriptTitle_eq, h, Option.map_some, Option.map_some, Option.some_inj,
    eq_comm]

theorem JoinsTitle.agreesWithExtractMarc {r : Record} (h : JoinsTitle r) :
    AgreesWithExtractMarc r := by
  intro spec hspec hlength
  obtain ⟨field, hfield⟩ := List.length_eq_one_iff.1 hlength
  have hempty := (joinsTitle_iff_head (by rw [hfield]; rfl)).1 h
  rw [extractMarc_title hspec, latinScriptTitle_eq, hfield]
  simp only [List.filterMap_cons, List.filterMap_nil, hempty, List.head?_cons, Option.map_some,
    Option.bind_some]
  have hnone : maybeNotEmpty (combineConsecutiveWhitespace "") = none := by decide +kernel
  rw [hnone]
  rfl

theorem joinsTitle_iff (r : Record) :
    JoinsTitle r ∧ AgreesWithExtractMarc r
      ↔ ∀ field ∈ (r.getFields "245").head?,
        subfieldContents (filterByCode titleSubfields field.subfields) ∈ [[], [""]] := by
  rw [and_iff_left_of_imp JoinsTitle.agreesWithExtractMarc]
  rcases hhead : (r.getFields "245").head? with _ | field
  · simp [joinsTitle_of_head? hhead]
  · rw [joinsTitle_iff_head hhead, joinedTitle, intercalate_eq_empty]
    simp

def kokoro : Record := ⟨[], [⟨"245", [⟨'a', "Kokoro"⟩], ""⟩], ""⟩

theorem not_joinsTitle : ¬(JoinsTitle kokoro ∧ AgreesWithExtractMarc kokoro) := by
  rintro ⟨hjoins, -⟩
  revert hjoins
  unfold JoinsTitle
  decide +kernel

end Title

end Bibdata
