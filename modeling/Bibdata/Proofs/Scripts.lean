import Bibdata.NonLatin
import Bibdata.Library.Masks

/-!
# One rule for both lists of a script

A rule chooses subfields of a field by its outline: its tag and its $6, and the codes of the
others, but none of the text. The lists for all text and for authors follow one rule; those for
titles do where no chosen subfield stands at the first $t or after it (`splits_iff`), since the
lists with Chinese, Japanese or Korean text stop at $t and the others do not.
-/

namespace Bibdata

open Masks

section Contributes

/-- A field adds these texts to the list of any record that has it. -/
def Contributes (list : Record → List String) (field : Field) (texts : List String) : Prop :=
  ∀ (r : Record) (before after : List Field), r.fields = before ++ field :: after →
    (list r).Perm (texts ++ list { r with fields := before ++ after })

variable {list list' : Record → List String} {field : Field} {texts texts' : List String}

theorem Contributes.append (h : Contributes list field texts)
    (h' : Contributes list' field texts') :
    Contributes (fun r => list r ++ list' r) field (texts ++ texts') := by
  intro r before after hr
  refine ((h r before after hr).append (h' r before after hr)).trans ?_
  rw [List.append_assoc, List.append_assoc]
  refine List.Perm.append_left texts ?_
  rw [← List.append_assoc, ← List.append_assoc]
  exact List.Perm.append_right _ List.perm_append_comm

theorem Contributes.perm (h : Contributes list field texts) (h' : Contributes list field texts') :
    texts.Perm texts' := by
  have hone := h ⟨[], [field], ""⟩ [] [] rfl
  have hone' := h' ⟨[], [field], ""⟩ [] [] rfl
  exact (List.perm_append_right_iff _).1 (hone.symm.trans hone')

theorem contributes_extract (criteria : Field → Bool) (extractor : Field → Option String)
    (field : Field) :
    Contributes (fun r => extractFieldValuesBy r criteria extractor) field
      (if criteria field then extractor field else none).toList := by
  intro r before after hr
  show (r.fields.filterMap _).Perm (_ ++ (before ++ after).filterMap _)
  rw [hr, List.filterMap_append, List.filterMap_append, List.filterMap_cons]
  cases hadd : (if criteria field then extractor field else none) with
  | none => exact List.Perm.refl _
  | some text => exact List.perm_middle

end Contributes

section Trimming

/-- The characters that `trim_punctuation` may take away. -/
def IsTrimmed (c : Char) : Prop := isSpace c ∨ c ∈ [' ', ',', '/', ';', ':', '.', '[', ']']

/-- What is left when such characters are taken away at both ends. -/
def Trims (cs ds : List Char) : Prop :=
  ∃ pre post, cs = pre ++ ds ++ post ∧ ∀ c ∈ pre ++ post, IsTrimmed c

variable {isWord : Char → Bool} {cs ds es : List Char}

theorem Trims.refl (cs : List Char) : Trims cs cs := ⟨[], [], by simp, by simp⟩

theorem Trims.trans (h : Trims cs ds) (h' : Trims ds es) : Trims cs es := by
  obtain ⟨pre, post, rfl, htrimmed⟩ := h
  obtain ⟨pre', post', rfl, htrimmed'⟩ := h'
  refine ⟨pre ++ pre', post' ++ post, by simp, fun c hc => ?_⟩
  simp only [List.mem_append] at hc htrimmed htrimmed'
  rcases hc with (hc | hc) | hc | hc
  · exact htrimmed c (.inl hc)
  · exact htrimmed' c (.inl hc)
  · exact htrimmed' c (.inr hc)
  · exact htrimmed c (.inr hc)

theorem trims_rdropWhile {p : Char → Bool} (hp : ∀ c, p c = true → IsTrimmed c) (cs : List Char) :
    Trims cs (cs.rdropWhile p) := by
  refine ⟨[], cs.rtakeWhile p, ?_, fun c hc => hp c (List.mem_rtakeWhile_imp hc)⟩
  rw [List.nil_append, List.rdropWhile_append_rtakeWhile]

theorem trims_dropWhile {p : Char → Bool} (hp : ∀ c, p c = true → IsTrimmed c) (cs : List Char) :
    Trims cs (cs.dropWhile p) := by
  refine ⟨cs.takeWhile p, [], ?_, fun c hc => hp c (List.mem_takeWhile_imp (by simpa using hc))⟩
  rw [List.append_nil, List.takeWhile_append_dropWhile]

theorem trims_dropLast {c : Char} (hlast : cs.getLast? = some c) (hc : IsTrimmed c) :
    Trims cs cs.dropLast := by
  obtain ⟨init, rfl⟩ := List.getLast?_eq_some_iff.1 hlast
  refine ⟨[], [c], by simp, fun d hd => ?_⟩
  rw [List.nil_append, List.mem_singleton] at hd
  rw [hd]
  exact hc

theorem isTrimmed_of_mem {c : Char} {l : List Char}
    (hl : l ⊆ [' ', ',', '/', ';', ':', '.', '[', ']']) (hc : c ∈ l) : IsTrimmed c := .inr (hl hc)

theorem isTrimmed_blank (c : Char) (h : decide (c = ' ') = true) : IsTrimmed c :=
  .inr (by simp [of_decide_eq_true h])

theorem trims_trimTrailing (cs : List Char) : Trims cs (trimTrailing cs) := by
  have hbare := trims_rdropWhile isTrimmed_blank cs
  simp only [trimTrailing]
  split
  · rename_i c hlast
    split_ifs with hc
    · have hmark := isTrimmed_of_mem (l := [',', '/', ';', ':']) (by decide) hc
      exact (hbare.trans (trims_dropLast hlast hmark)).trans (trims_rdropWhile isTrimmed_blank _)
    · exact hbare
  · exact hbare

theorem trims_trimTrailingPeriod (isWord : Char → Bool) (cs : List Char) :
    Trims cs (trimTrailingPeriod isWord cs) := by
  have hperiod : ∀ c : Char, decide (c = '.') = true → IsTrimmed c :=
    fun c h => .inr (by simp [of_decide_eq_true h])
  simp only [trimTrailingPeriod]
  split_ifs
  · exact (trims_rdropWhile hperiod cs).trans (trims_rdropWhile isTrimmed_blank _)
  · exact Trims.refl cs

theorem trims_trimBrackets (cs : List Char) : Trims cs (trimStartingAndEndingBrackets cs) := by
  have hopen : IsTrimmed '[' := .inr (by simp)
  have hclose : IsTrimmed ']' := .inr (by simp)
  simp only [trimStartingAndEndingBrackets]
  split
  · rename_i t ht
    split_ifs
    · split at ht
      · rename_i startTrimmed
        have hstart : Trims ('[' :: startTrimmed) startTrimmed :=
          ⟨['['], [], by simp, fun c hc => by rw [List.mem_singleton.1 hc]; exact hopen⟩
        cases ht
        split_ifs with hlast
        · exact hstart.trans (trims_dropLast hlast hclose)
        · exact hstart
      · split_ifs at ht with hlast
        cases ht
        exact trims_dropLast hlast hclose
    · exact Trims.refl cs
  · exact Trims.refl cs

theorem not_isTrimmed_zhong : ¬IsTrimmed '中' := by
  rw [IsTrimmed]
  decide

theorem not_isTrimmed_a : ¬IsTrimmed 'a' := by
  rw [IsTrimmed]
  decide

theorem trims_trimPunctuation (isWord : Char → Bool) (s : String) :
    Trims s.toList (trimPunctuation isWord s).toList := by
  have hspace : ∀ c, isSpace c = true → IsTrimmed c := fun c h => .inl h
  rw [trimPunctuation, trim, String.toList_ofList, String.toList_ofList]
  have htrims := (trims_trimTrailing s.toList).trans
    ((trims_trimTrailingPeriod isWord _).trans (trims_trimBrackets _))
  exact htrims.trans ((trims_dropWhile hspace _).trans (trims_rdropWhile hspace _))

theorem Trims.mem {c : Char} (h : Trims cs ds) (hmem : c ∈ cs) (hc : ¬IsTrimmed c) : c ∈ ds := by
  obtain ⟨pre, post, rfl, htrimmed⟩ := h
  simp only [List.mem_append] at hmem htrimmed
  rcases hmem with (hmem | hmem) | hmem
  · exact absurd (htrimmed c (.inl hmem)) hc
  · exact hmem
  · exact absurd (htrimmed c (.inr hmem)) hc

theorem Trims.subset (h : Trims cs ds) : ds ⊆ cs := by
  obtain ⟨pre, post, rfl, -⟩ := h
  intro c hc
  simp [hc]

end Trimming

section Texts

variable {isWord : Char → Bool} {subfields : List Subfield} {c : Char}

theorem mem_intercalate {texts : List String} (h : c ∈ (" ".intercalate texts).toList) :
    c = ' ' ∨ ∃ text ∈ texts, c ∈ text.toList := by
  induction texts with
  | nil => simp at h
  | cons text texts ih =>
    rcases texts with _ | ⟨next, texts⟩
    · rw [String.intercalate_singleton] at h
      exact .inr ⟨text, by simp, h⟩
    · rw [String.intercalate_cons_cons] at h
      simp only [String.toList_append, List.mem_append] at h
      rcases h with (h | h) | h
      · exact .inr ⟨text, by simp, h⟩
      · exact .inl (by simpa using h)
      · rcases ih h with h | ⟨text', hmem, hc⟩
        · exact .inl h
        · exact .inr ⟨text', List.mem_cons_of_mem _ hmem, hc⟩

theorem mem_intercalate_of_mem {text : String} {texts : List String} (hmem : text ∈ texts)
    (hc : c ∈ text.toList) : c ∈ (" ".intercalate texts).toList := by
  induction texts with
  | nil => cases hmem
  | cons first texts ih =>
    rcases texts with _ | ⟨next, texts⟩
    · rw [List.mem_singleton.1 hmem] at hc
      rwa [String.intercalate_singleton]
    · rw [String.intercalate_cons_cons]
      simp only [String.toList_append, List.mem_append]
      rcases List.mem_cons.1 hmem with rfl | hmem
      · exact .inl (.inl hc)
      · exact .inr (ih hmem)

theorem mem_trimmedText (h : c ∈ (trimmedText isWord subfields).toList) :
    c = ' ' ∨ ∃ s ∈ subfields, c ∈ s.content.toList := by
  rcases mem_intercalate ((trims_trimPunctuation isWord _).subset h) with h | ⟨text, hmem, hc⟩
  · exact .inl h
  · obtain ⟨s, hs, rfl⟩ := List.mem_map.1 hmem
    exact .inr ⟨s, hs, hc⟩

theorem mem_trimmedText_of_mem {s : Subfield} (hs : s ∈ subfields) (hmem : c ∈ s.content.toList)
    (hc : ¬IsTrimmed c) : c ∈ (trimmedText isWord subfields).toList :=
  (trims_trimPunctuation isWord _).mem (mem_intercalate_of_mem (List.mem_map_of_mem hs) hmem) hc

theorem trimmedText_nil : trimmedText isWord [] = "" := by
  rw [← String.toList_eq_nil_iff, List.eq_nil_iff_forall_not_mem]
  intro c hc
  have := (trims_trimPunctuation isWord _).subset hc
  simp [subfieldContents] at this

end Texts

section Outline

/-- The text is left out, but for the linkage. -/
def Subfield.outline (s : Subfield) : Subfield :=
  if s.code = '6' then s else { s with content := "" }

def Field.outline (field : Field) : Field :=
  { field with subfields := field.subfields.map Subfield.outline }

@[simp] theorem Subfield.outline_code (s : Subfield) : s.outline.code = s.code := by
  unfold Subfield.outline
  split_ifs <;> rfl

theorem Subfield.outline_of_ne {s : Subfield} (h : s.code ≠ '6') : s.outline = ⟨s.code, ""⟩ := by
  rw [Subfield.outline, if_neg h]

theorem Subfield.outline_outline (s : Subfield) : s.outline.outline = s.outline := by
  by_cases h : s.code = '6'
  · simp [Subfield.outline, h]
  · simp [Subfield.outline, h]

theorem firstSubfield_outline (field : Field) :
    field.outline.firstSubfield '6' = field.firstSubfield '6' := by
  have hcode : (fun s : Subfield => decide (s.code = '6')) ∘ Subfield.outline =
      fun s => decide (s.code = '6') := by
    funext s
    simp
  rw [Field.firstSubfield, Field.firstSubfield, Field.outline, List.find?_map, hcode,
    Option.map_map]
  cases hfind : field.subfields.find? (·.code = '6') with
  | none => rfl
  | some s =>
    have hs : s.code = '6' := by simpa using List.find?_some hfind
    simp [Subfield.outline, hs]

theorem nonLatinTag_outline (field : Field) : nonLatinTag field.outline = nonLatinTag field := by
  rw [nonLatinTag, nonLatinTag, firstSubfield_outline]
  rfl

theorem nonLatinTagIncludedIn_outline (tags : List String) (field : Field) :
    nonLatinTagIncludedIn tags field.outline = nonLatinTagIncludedIn tags field := by
  rw [nonLatinTagIncludedIn, nonLatinTagIncludedIn, nonLatinTag_outline]

/-- All text replaced by one character in one subfield. -/
def refill (field : Field) (before : List Subfield) (s : Subfield) (after : List Subfield)
    (c : Char) : Field :=
  { field with
    subfields := before.map Subfield.outline ++ ⟨s.code, String.singleton c⟩ ::
      after.map Subfield.outline }

theorem refill_outline {field : Field} {before after : List Subfield} {s : Subfield}
    (hfield : field.subfields = before ++ s :: after) (hs : s.code ≠ '6') (c : Char) :
    (refill field before s after c).outline = field.outline := by
  have htwice : ∀ subfields : List Subfield,
      (subfields.map Subfield.outline).map Subfield.outline = subfields.map Subfield.outline := by
    intro subfields
    rw [List.map_map]
    exact List.map_congr_left fun s _ => Subfield.outline_outline s
  simp only [refill, Field.outline, hfield, List.map_append, List.map_cons, htwice,
    Subfield.outline_of_ne hs, Subfield.outline_of_ne (s := ⟨s.code, String.singleton c⟩) hs]

end Outline

section Rules

/-- A mask for each outline. -/
def ExtractionRule := Field → List Bool

def ExtractionRule.selected (e : ExtractionRule) (field : Field) : List Subfield :=
  masked (e field.outline) field.subfields

variable (isCjk : Char → Bool)

/-- The text of the chosen subfields is in one list or the other, and in none when empty. -/
def Splits (cjk nonCjk : Record → List String) (text : List Subfield → String)
    (e : ExtractionRule) (field : Field) : Prop :=
  Contributes cjk field
      (if hasCjkChars isCjk (text (e.selected field)) then [text (e.selected field)] else [])
    ∧ Contributes nonCjk field
      (if text (e.selected field) ≠ "" ∧ ¬hasCjkChars isCjk (text (e.selected field)) then
        [text (e.selected field)] else [])

variable {isCjk}

theorem toList_maybeHasCjkText (original : String) :
    (maybeHasCjkText isCjk original).toList =
      if hasCjkChars isCjk original then [original] else [] := by
  unfold maybeHasCjkText
  split_ifs <;> rfl

theorem toList_maybeHasNonCjkText (original : String) :
    (maybeHasNonCjkText isCjk original).toList =
      if original ≠ "" ∧ ¬hasCjkChars isCjk original then [original] else [] := by
  unfold maybeHasNonCjkText
  by_cases h : original = "" <;> cases hasCjkChars isCjk original <;> simp [h]

/-- Both lists take the text by one rule. -/
theorem splits_of_contributes {cjk nonCjk : Record → List String}
    {text : List Subfield → String} {e : ExtractionRule} {field : Field}
    (hcjk : Contributes cjk field (maybeHasCjkText isCjk (text (e.selected field))).toList)
    (hnonCjk : Contributes nonCjk field
      (maybeHasNonCjkText isCjk (text (e.selected field))).toList) :
    Splits isCjk cjk nonCjk text e field := by
  rw [toList_maybeHasCjkText] at hcjk
  rw [toList_maybeHasNonCjkText] at hnonCjk
  exact ⟨hcjk, hnonCjk⟩

theorem Splits.eq_empty {cjk nonCjk : Record → List String} {text : List Subfield → String}
    {e : ExtractionRule} {field : Field} (h : Splits isCjk cjk nonCjk text e field)
    (hcjk : Contributes cjk field []) (hnonCjk : Contributes nonCjk field []) :
    text (e.selected field) = "" := by
  have hno := (h.1.perm hcjk).eq_nil
  have hempty := (h.2.perm hnonCjk).eq_nil
  by_contra hne
  split_ifs at hno with hhas
  rw [if_pos ⟨hne, hhas⟩] at hempty
  cases hempty

theorem Splits.ne_empty {cjk nonCjk : Record → List String} {text : List Subfield → String}
    {e : ExtractionRule} {field : Field} (h : Splits isCjk cjk nonCjk text e field)
    {added : String} (hnonCjk : Contributes nonCjk field [added]) :
    text (e.selected field) ≠ "" := by
  intro hempty
  have hperm := h.2.perm hnonCjk
  rw [hempty, if_neg (by simp)] at hperm
  cases hperm.symm.eq_nil

theorem masked_outline (p : Subfield → Bool) (hp : ∀ s, p s.outline = p s)
    (subfields : List Subfield) :
    masked ((subfields.map Subfield.outline).map p) subfields = subfields.filter p := by
  rw [List.map_map, show p ∘ Subfield.outline = p from funext hp, masked_map]

def allRule : ExtractionRule := fun field => field.subfields.map (·.code ∉ ['6'])

theorem selected_allRule (field : Field) :
    allRule.selected field = field.subfields.filter (·.code ∉ ['6']) :=
  masked_outline _ (fun s => by rw [s.outline_code]) _

/-- What one field adds, when the rest of the extraction chooses nothing. -/
theorem contributes_chosen {maybe : String → Option String} (hempty : maybe "" = none)
    {criteria : Field → Bool} {text : Field → String} {field : Field}
    (hout : criteria field = false → text field = "") :
    Contributes (fun r => extractFieldValuesBy r criteria fun f => maybe (text f)) field
      (maybe (text field)).toList := by
  have h := contributes_extract criteria (fun f => maybe (text f)) field
  cases hcriteria : criteria field with
  | true => rwa [if_pos hcriteria] at h
  | false =>
    rw [if_neg (by simp [hcriteria])] at h
    rwa [hout hcriteria, hempty]

theorem splits_allTexts {field : Field} (h880 : field.tag = "880") :
    Splits isCjk (cjkAll isCjk) (nonLatinNonCjkAll isCjk) joinSubfields allRule field := by
  have hout : decide (field.tag = "880") = false → joinSubfieldsExcept field ['6'] = "" := by
    intro h
    exact absurd h880 (of_decide_eq_false h)
  refine splits_of_contributes ?_ ?_
  · rw [selected_allRule]
    exact contributes_chosen rfl hout
  · rw [selected_allRule]
    exact contributes_chosen rfl hout

end Rules

section Authors

variable {isCjk isWord : Char → Bool}

theorem authorSubfields_outline (field : Field) :
    authorSubfields field.outline = authorSubfields field := by
  rw [authorSubfields, authorSubfields, nonLatinTag_outline]

theorem subfieldsBefore_outline (t : Char) (subfields : List Subfield) :
    subfieldsBefore t (subfields.map Subfield.outline) =
      (subfieldsBefore t subfields).map Subfield.outline := by
  have hcode : (fun s : Subfield => decide (s.code ≠ t)) ∘ Subfield.outline =
      fun s => decide (s.code ≠ t) := by
    funext s
    simp
  rw [subfieldsBefore, List.takeWhile_map, hcode, subfieldsBefore]

theorem subfieldsAfter_outline (t : Char) (subfields : List Subfield) :
    subfieldsAfter t (subfields.map Subfield.outline) =
      (subfieldsAfter t subfields).map Subfield.outline := by
  have hcode : (fun s : Subfield => decide (s.code ≠ t)) ∘ Subfield.outline =
      fun s => decide (s.code ≠ t) := by
    funext s
    simp
  rw [subfieldsAfter, List.dropWhile_map, hcode, subfieldsAfter]

theorem subfieldsBefore_append_after (t : Char) (subfields : List Subfield) :
    subfieldsBefore t subfields ++ subfieldsAfter t subfields = subfields :=
  List.takeWhile_append_dropWhile

def authorRule : ExtractionRule := fun field =>
  (subfieldsBefore 't' field.subfields).map (·.code ∈ authorSubfields field)

theorem selected_authorRule (field : Field) :
    authorRule.selected field =
      filterByCode (authorSubfields field) (subfieldsBefore 't' field.subfields) := by
  have hcodes : ∀ s : Subfield, decide (s.outline.code ∈ authorSubfields field) =
      decide (s.code ∈ authorSubfields field) := fun s => by rw [s.outline_code]
  rw [ExtractionRule.selected, authorRule, authorSubfields_outline]
  show masked ((subfieldsBefore 't' (field.subfields.map Subfield.outline)).map _) _ = _
  rw [subfieldsBefore_outline, List.map_map,
    show (fun s : Subfield => decide (s.code ∈ authorSubfields field)) ∘ Subfield.outline =
      fun s => decide (s.code ∈ authorSubfields field) from funext hcodes]
  have hbefore := masked_prefix (fun s : Subfield => decide (s.code ∈ authorSubfields field))
    (subfieldsBefore 't' field.subfields) (subfieldsAfter 't' field.subfields)
  rwa [subfieldsBefore_append_after] at hbefore

theorem authorSubfields_eq_nil {field : Field}
    (h : nonLatinTagIncludedIn authorTags field = false) :
    authorSubfields field = [] := by
  unfold authorSubfields
  split <;> rename_i htag <;> first | rfl | simp [nonLatinTagIncludedIn, htag, authorTags] at h

theorem splits_authorTexts (field : Field) :
    Splits isCjk (cjkAuthors isCjk isWord) (nonLatinNonCjkAuthors isCjk isWord)
      (trimmedText isWord) authorRule field := by
  have hout : nonLatinTagIncludedIn authorTags field = false →
      trimmedText isWord
        (filterByCode (authorSubfields field) (subfieldsBefore 't' field.subfields)) = "" := by
    intro h
    rw [authorSubfields_eq_nil h, filterByCode]
    simp [trimmedText_nil]
  refine splits_of_contributes ?_ ?_
  · rw [selected_authorRule]
    exact contributes_chosen rfl hout
  · rw [selected_authorRule]
    exact contributes_chosen rfl hout

end Authors

section Titles

variable {isCjk isWord : Char → Bool} {T : TitleFields} {field : Field}

/-- The subfields do not depend on the text, the linkage is none of them, and no tag has both
kinds of titles. -/
structure TitleFields.Lawful (T : TitleFields) : Prop where
  outline : ∀ field, T.subfields field.outline = T.subfields field
  linkage : ∀ field, '6' ∉ T.subfields field
  tagged : ∀ field, T.subfields field ≠ [] → nonLatinTagIncludedIn T.tags field = true
  apart : ∀ tag ∈ T.tags, tag ∉ T.authorAndTitleTags

theorem mem_nonLatinTitleTags {tag : String} (h : tag ∈ linkingEntryTags) :
    tag ∈ nonLatinTitleTags := by
  simp [nonLatinTitleTags, h]

theorem mem_nonLatinSeriesTitleTags {tag : String} (h : tag ∈ linkingEntryTags) :
    tag ∈ nonLatinSeriesTitleTags := by
  simp [nonLatinSeriesTitleTags, h]

theorem titleFields_lawful : titleFields.Lawful where
  outline field := by
    show nonLatinTitleSubfields _ = nonLatinTitleSubfields _
    rw [nonLatinTitleSubfields, nonLatinTitleSubfields, nonLatinTag_outline]
  linkage field := by
    show '6' ∉ nonLatinTitleSubfields field
    unfold nonLatinTitleSubfields
    split <;> try decide
    split_ifs <;> decide
  tagged field h := by
    replace h : nonLatinTitleSubfields field ≠ [] := h
    show nonLatinTagIncludedIn nonLatinTitleTags field = true
    unfold nonLatinTitleSubfields at h
    split at h <;> rename_i htag <;> rw [nonLatinTagIncludedIn, htag] <;> try decide
    · split_ifs at h with hlinking
      · exact decide_eq_true (mem_nonLatinTitleTags hlinking)
      · exact absurd rfl h
    · exact absurd rfl h
  apart := by decide

theorem seriesTitleFields_lawful : seriesTitleFields.Lawful where
  outline field := by
    show nonLatinSeriesTitleSubfields _ = nonLatinSeriesTitleSubfields _
    rw [nonLatinSeriesTitleSubfields, nonLatinSeriesTitleSubfields, nonLatinTag_outline]
  linkage field := by
    show '6' ∉ nonLatinSeriesTitleSubfields field
    unfold nonLatinSeriesTitleSubfields
    split <;> try decide
    split_ifs <;> decide
  tagged field h := by
    replace h : nonLatinSeriesTitleSubfields field ≠ [] := h
    show nonLatinTagIncludedIn nonLatinSeriesTitleTags field = true
    unfold nonLatinSeriesTitleSubfields at h
    split at h <;> rename_i htag <;> rw [nonLatinTagIncludedIn, htag] <;> try decide
    · split_ifs at h with hlinking
      · exact decide_eq_true (mem_nonLatinSeriesTitleTags hlinking)
      · exact absurd rfl h
    · exact absurd rfl h
  apart := by decide

namespace TitleFields

/-- What is chosen of a field whose subfields are cut so. -/
def chosen (T : TitleFields) (cut : List Subfield → List Subfield) (field : Field) :
    List Subfield :=
  if nonLatinTagIncludedIn T.tags field then filterByCode (T.subfields field) (cut field.subfields)
  else if nonLatinTagIncludedIn T.authorAndTitleTags field then
    subfieldsAfter 't' field.subfields
  else []

def rule (T : TitleFields) : ExtractionRule := fun field =>
  if nonLatinTagIncludedIn T.tags field then field.subfields.map (·.code ∈ T.subfields field)
  else if nonLatinTagIncludedIn T.authorAndTitleTags field then
    (subfieldsBefore 't' field.subfields).map (fun _ => false)
      ++ (subfieldsAfter 't' field.subfields).map (fun _ => true)
  else []

/-- No chosen subfield stands at the first $t or after it. -/
def BeforeT (T : TitleFields) (field : Field) : Prop :=
  ∀ s ∈ subfieldsAfter 't' field.subfields, s.code ∉ T.subfields field

end TitleFields

theorem TitleFields.Lawful.not_authorAndTitle (hT : T.Lawful)
    (h : nonLatinTagIncludedIn T.tags field = true) :
    nonLatinTagIncludedIn T.authorAndTitleTags field = false := by
  unfold nonLatinTagIncludedIn at *
  cases htag : nonLatinTag field with
  | none => rfl
  | some tag =>
    rw [htag, Option.any_some, decide_eq_true_eq] at h
    rw [Option.any_some, decide_eq_false_iff_not]
    exact hT.apart tag h

theorem contributes_titleTexts (isWord : Char → Bool) (hT : T.Lawful)
    {maybe : String → Option String} (hempty : maybe "" = none)
    (cut : List Subfield → List Subfield) (field : Field) :
    Contributes (titleTexts isWord maybe T cut) field
      (maybe (trimmedText isWord (T.chosen cut field))).toList := by
  have htitle := contributes_extract (nonLatinTagIncludedIn T.tags)
    (fun field => maybe (trimmedText isWord
      (filterByCode (T.subfields field) (cut field.subfields)))) field
  have hauthor := contributes_extract (nonLatinTagIncludedIn T.authorAndTitleTags)
    (fun field => maybe (trimmedText isWord (subfieldsAfter 't' field.subfields))) field
  have h : Contributes (titleTexts isWord maybe T cut) field _ := htitle.append hauthor
  unfold TitleFields.chosen
  cases htags : nonLatinTagIncludedIn T.tags field with
  | true => simpa [htags, hT.not_authorAndTitle htags] using h
  | false =>
    cases htags' : nonLatinTagIncludedIn T.authorAndTitleTags field with
    | true => simpa [htags, htags'] using h
    | false => simpa [htags, htags', trimmedText_nil, hempty] using h

theorem masked_subfieldsAfter (t : Char) (subfields : List Subfield) :
    masked ((subfieldsBefore t subfields).map (fun _ => false)
        ++ (subfieldsAfter t subfields).map (fun _ => true)) subfields =
      subfieldsAfter t subfields := by
  have h := masked_append (fun _ : Subfield => false) (subfieldsBefore t subfields)
    (subfieldsAfter t subfields) ((subfieldsAfter t subfields).map fun _ => true)
  rw [subfieldsBefore_append_after, masked_map, List.filter_false, List.filter_true] at h
  exact h

theorem selected_rule (hT : T.Lawful) (field : Field) :
    T.rule.selected field = T.chosen id field := by
  unfold ExtractionRule.selected TitleFields.rule TitleFields.chosen
  rw [nonLatinTagIncludedIn_outline, nonLatinTagIncludedIn_outline, hT.outline]
  split_ifs
  · exact masked_outline _ (fun s => by rw [s.outline_code]) _
  · simp only [Field.outline, subfieldsBefore_outline, subfieldsAfter_outline, List.map_map]
    exact masked_subfieldsAfter 't' field.subfields
  · exact masked_nil _

theorem chosen_subfieldsBefore (h : T.BeforeT field) :
    T.chosen (subfieldsBefore 't') field = T.chosen id field := by
  have hafter : (subfieldsAfter 't' field.subfields).filter (·.code ∈ T.subfields field) = [] := by
    rw [List.filter_eq_nil_iff]
    intro s hs
    simpa using h s hs
  have hsame : filterByCode (T.subfields field) (subfieldsBefore 't' field.subfields) =
      filterByCode (T.subfields field) field.subfields := by
    conv_rhs => rw [← subfieldsBefore_append_after 't' field.subfields]
    rw [filterByCode, filterByCode, List.filter_append, hafter, List.append_nil]
  rw [TitleFields.chosen, TitleFields.chosen, hsame]
  rfl

theorem splits_titleTexts (hT : T.Lawful) (h : T.BeforeT field) :
    Splits isCjk (titleTexts isWord (maybeHasCjkText isCjk) T (subfieldsBefore 't'))
      (titleTexts isWord (maybeHasNonCjkText isCjk) T id) (trimmedText isWord) T.rule field := by
  refine splits_of_contributes ?_ ?_
  · rw [selected_rule hT, ← chosen_subfieldsBefore h]
    exact contributes_titleTexts isWord hT rfl _ field
  · rw [selected_rule hT]
    exact contributes_titleTexts isWord hT rfl _ field

theorem hasCjkChars_eq_false {text : String} (h : ∀ c ∈ text.toList, isCjk c = false) :
    hasCjkChars isCjk text = false := by
  rw [hasCjkChars, List.any_eq_false]
  intro c hc
  simp [h c hc]

theorem hasCjkChars_eq_true {text : String} {c : Char} (hmem : c ∈ text.toList)
    (hc : isCjk c = true) : hasCjkChars isCjk text = true := List.any_eq_true.2 ⟨c, hmem, hc⟩

/-- Nothing but the spaces between, and these are no such characters. -/
theorem hasCjkChars_trimmedText {subfields : List Subfield} (hspace : isCjk ' ' = false)
    (h : ∀ s ∈ subfields, ∀ c ∈ s.content.toList, isCjk c = false) :
    hasCjkChars isCjk (trimmedText isWord subfields) = false := by
  refine hasCjkChars_eq_false fun c hc => ?_
  rcases mem_trimmedText hc with rfl | ⟨s, hs, hmem⟩
  · exact hspace
  · exact h s hs c hmem

section Refilled

variable {before after₁ after₂ : List Subfield} {s : Subfield} {c : Char}

theorem subfieldsBefore_refill (hbefore : ∀ x ∈ before, x.code ≠ 't')
    (hhead : ∀ x, (after₁ ++ s :: after₂).head? = some x → x.code = 't') :
    subfieldsBefore 't' (refill field (before ++ after₁) s after₂ c).subfields =
      before.map Subfield.outline := by
  have hall : ∀ x ∈ before.map Subfield.outline, decide (x.code ≠ 't') = true := by
    intro x hx
    obtain ⟨y, hy, rfl⟩ := List.mem_map.1 hx
    simpa using hbefore y hy
  rw [subfieldsBefore, refill]
  simp only
  rw [List.map_append, List.append_assoc, List.takeWhile_append_of_pos hall]
  rcases after₁ with _ | ⟨x, after₁⟩
  · have := hhead s rfl
    simp [this]
  · have := hhead x rfl
    simp [this]

theorem content_of_mem_outline {codes : List Char} (hlinkage : '6' ∉ codes)
    {subfields : List Subfield} {x : Subfield} (hmem : x ∈ subfields.map Subfield.outline)
    (hcode : x.code ∈ codes) : x.content = "" := by
  obtain ⟨y, -, rfl⟩ := List.mem_map.1 hmem
  have hne : y.code ≠ '6' := by
    intro heq
    rw [y.outline_code, heq] at hcode
    exact hlinkage hcode
  rw [Subfield.outline_of_ne hne]

theorem content_of_mem_refill {codes : List Char} (hlinkage : '6' ∉ codes) {x : Subfield}
    (hx : x ∈ filterByCode codes (refill field before s after₁ c).subfields) :
    x.content = "" ∨ x = ⟨s.code, String.singleton c⟩ := by
  obtain ⟨hmem, hcode⟩ := List.mem_filter.1 hx
  rw [decide_eq_true_eq] at hcode
  rw [refill, List.mem_append, List.mem_cons] at hmem
  rcases hmem with hmem | rfl | hmem
  · exact .inl (content_of_mem_outline hlinkage hmem hcode)
  · exact .inr rfl
  · exact .inl (content_of_mem_outline hlinkage hmem hcode)

end Refilled

/-! ### A title that goes past its $t -/

/-- A chosen subfield at the first $t or after it, with what stands around it. -/
structure PastT (T : TitleFields) (field : Field) (before after₁ : List Subfield) (s : Subfield)
    (after₂ : List Subfield) : Prop where
  subfields : field.subfields = (before ++ after₁) ++ s :: after₂
  before : ∀ x ∈ before, x.code ≠ 't'
  head : ∀ x, (after₁ ++ s :: after₂).head? = some x → x.code = 't'
  chosen : s.code ∈ T.subfields field

theorem exists_pastT (h : ¬T.BeforeT field) :
    ∃ before after₁ s after₂, PastT T field before after₁ s after₂ := by
  simp only [TitleFields.BeforeT, not_forall, not_not] at h
  obtain ⟨s, hs, hcode⟩ := h
  obtain ⟨after₁, after₂, hafter⟩ := List.append_of_mem hs
  refine ⟨subfieldsBefore 't' field.subfields, after₁, s, after₂, ?_, fun x hx => ?_,
    fun x hx => ?_, hcode⟩
  · rw [List.append_assoc, ← hafter, subfieldsBefore_append_after]
  · simpa using List.mem_takeWhile_imp hx
  · have hnot := List.head?_dropWhile_not (fun s : Subfield => decide (s.code ≠ 't'))
      field.subfields
    rw [show field.subfields.dropWhile (fun s => decide (s.code ≠ 't')) =
      subfieldsAfter 't' field.subfields from rfl, hafter, hx] at hnot
    simpa using hnot

namespace PastT

variable {before after₁ after₂ : List Subfield} {s : Subfield} {c : Char}

theorem outline (hT : T.Lawful) (h : PastT T field before after₁ s after₂) (c : Char) :
    (refill field (before ++ after₁) s after₂ c).outline = field.outline := by
  refine refill_outline h.subfields (fun heq => ?_) c
  have hcode := h.chosen
  rw [heq] at hcode
  exact hT.linkage field hcode

theorem chosen_refill (hT : T.Lawful) (h : PastT T field before after₁ s after₂)
    (cut : List Subfield → List Subfield) (c : Char) :
    T.chosen cut (refill field (before ++ after₁) s after₂ c) = filterByCode (T.subfields field)
      (cut (refill field (before ++ after₁) s after₂ c).subfields) := by
  have hcodes : T.subfields (refill field (before ++ after₁) s after₂ c) = T.subfields field := by
    rw [← hT.outline (refill field (before ++ after₁) s after₂ c), h.outline hT, hT.outline]
  have htags : nonLatinTagIncludedIn T.tags (refill field (before ++ after₁) s after₂ c) = true :=
    hT.tagged _ (by
      rw [hcodes]
      exact List.ne_nil_of_mem h.chosen)
  rw [TitleFields.chosen, if_pos htags, hcodes]

/-- The cut leaves no text for the one list. -/
theorem contributes_cjk (isWord : Char → Bool) (hT : T.Lawful) (hspace : isCjk ' ' = false)
    (h : PastT T field before after₁ s after₂) (c : Char) :
    Contributes (titleTexts isWord (maybeHasCjkText isCjk) T (subfieldsBefore 't'))
      (refill field (before ++ after₁) s after₂ c) [] := by
  have hlist := contributes_titleTexts isWord hT
    (show maybeHasCjkText isCjk "" = none from rfl) (subfieldsBefore 't')
    (refill field (before ++ after₁) s after₂ c)
  rw [toList_maybeHasCjkText, hasCjkChars_trimmedText hspace] at hlist
  · exact hlist
  · intro x hx
    rw [h.chosen_refill hT, subfieldsBefore_refill h.before h.head] at hx
    obtain ⟨hmem, hcode⟩ := List.mem_filter.1 hx
    simp [content_of_mem_outline (hT.linkage field) hmem (of_decide_eq_true hcode)]

theorem mem_text (isWord : Char → Bool) (hT : T.Lawful)
    (h : PastT T field before after₁ s after₂) (hc : ¬IsTrimmed c) :
    c ∈ (trimmedText isWord
      (T.chosen id (refill field (before ++ after₁) s after₂ c))).toList := by
  refine mem_trimmedText_of_mem (s := ⟨s.code, String.singleton c⟩) ?_ (by simp) hc
  rw [h.chosen_refill hT]
  exact List.mem_filter.2
    ⟨List.mem_append_right _ List.mem_cons_self, decide_eq_true h.chosen⟩

theorem contributes_nil (isWord : Char → Bool) (hT : T.Lawful)
    (h : PastT T field before after₁ s after₂) (hc : isCjk c = true) (hc' : ¬IsTrimmed c) :
    Contributes (titleTexts isWord (maybeHasNonCjkText isCjk) T id)
      (refill field (before ++ after₁) s after₂ c) [] := by
  have hlist := contributes_titleTexts isWord hT
    (show maybeHasNonCjkText isCjk "" = none from rfl) id
    (refill field (before ++ after₁) s after₂ c)
  have hhas := hasCjkChars_eq_true (h.mem_text isWord hT hc') hc
  rwa [toList_maybeHasNonCjkText, if_neg (by simp [hhas])] at hlist

theorem contributes_text (isWord : Char → Bool) (hT : T.Lawful) (hspace : isCjk ' ' = false)
    (h : PastT T field before after₁ s after₂) (hc : isCjk c = false) (hc' : ¬IsTrimmed c) :
    Contributes (titleTexts isWord (maybeHasNonCjkText isCjk) T id)
      (refill field (before ++ after₁) s after₂ c)
      [trimmedText isWord (T.chosen id (refill field (before ++ after₁) s after₂ c))] := by
  have hlist := contributes_titleTexts isWord hT
    (show maybeHasNonCjkText isCjk "" = none from rfl) id
    (refill field (before ++ after₁) s after₂ c)
  rw [toList_maybeHasNonCjkText, if_pos] at hlist
  · exact hlist
  · refine ⟨fun hempty => ?_, ?_⟩
    · have := h.mem_text isWord hT hc'
      simp [hempty] at this
    · rw [hasCjkChars_trimmedText hspace]
      · simp
      · intro x hx
        rw [h.chosen_refill hT] at hx
        rcases content_of_mem_refill (hT.linkage field) hx with hx | rfl
        · simp [hx]
        · simp [hc]

/-- A rule looks at the outline only. -/
theorem selected_refill (hT : T.Lawful) (h : PastT T field before after₁ s after₂)
    (e : ExtractionRule) (c : Char) :
    e.selected (refill field (before ++ after₁) s after₂ c) = masked (e field.outline)
      ((before ++ after₁).map Subfield.outline ++ ⟨s.code, String.singleton c⟩ ::
        after₂.map Subfield.outline) := by
  rw [ExtractionRule.selected, h.outline hT]
  rfl

end PastT

/-- Where a chosen subfield stands at the first $t or after it, a field that is all in one
character there is in no list in one script and in one list in another. -/
theorem exists_not_splits (isWord : Char → Bool) (hT : T.Lawful) {c₁ c₂ : Char}
    (hc₁ : isCjk c₁ = true) (hc₁' : ¬IsTrimmed c₁)
    (hc₂ : isCjk c₂ = false) (hc₂' : ¬IsTrimmed c₂) (hspace : isCjk ' ' = false)
    (h : ¬T.BeforeT field) (e : ExtractionRule) :
    ∃ other : Field, other.tag = field.tag ∧ other.outline = field.outline
      ∧ ¬Splits isCjk (titleTexts isWord (maybeHasCjkText isCjk) T (subfieldsBefore 't'))
        (titleTexts isWord (maybeHasNonCjkText isCjk) T id) (trimmedText isWord) e other := by
  obtain ⟨before, after₁, s, after₂, hpast⟩ := exists_pastT h
  by_contra hall
  push Not at hall
  have hempty := (hall (refill field (before ++ after₁) s after₂ c₁) rfl
    (hpast.outline hT c₁)).eq_empty (hpast.contributes_cjk isWord hT hspace c₁)
      (hpast.contributes_nil isWord hT hc₁ hc₁')
  have hne := (hall (refill field (before ++ after₁) s after₂ c₂) rfl
    (hpast.outline hT c₂)).ne_empty (hpast.contributes_text isWord hT hspace hc₂ hc₂')
  -- The rule takes the subfield or it does not, whichever character is in it.
  rcases masked_cases (e field.outline) ((before ++ after₁).map Subfield.outline)
    (after₂.map Subfield.outline) with ⟨pre, post, hmasked⟩ | ⟨rest, hmasked⟩
  · rw [hpast.selected_refill hT, hmasked] at hempty
    have hin : c₁ ∈ (trimmedText isWord
        (pre ++ ⟨s.code, String.singleton c₁⟩ :: post)).toList :=
      mem_trimmedText_of_mem (List.mem_append_right _ List.mem_cons_self) (by simp) hc₁'
    rw [hempty] at hin
    cases hin
  · rw [hpast.selected_refill hT, hmasked] at hempty hne
    exact hne hempty

end Titles

section Outputs

variable (isCjk isWord : Char → Bool)

inductive Output
  | all
  | authors
  | titles
  | seriesTitles

namespace Output

def cjk : Output → Record → List String
  | all => cjkAll isCjk
  | authors => cjkAuthors isCjk isWord
  | titles => cjkTitles isCjk isWord
  | seriesTitles => cjkSeriesTitles isCjk isWord

def nonCjk : Output → Record → List String
  | all => nonLatinNonCjkAll isCjk
  | authors => nonLatinNonCjkAuthors isCjk isWord
  | titles => nonLatinNonCjkTitles isCjk isWord
  | seriesTitles => nonLatinNonCjkSeriesTitles isCjk isWord

def text : Output → List Subfield → String
  | all => joinSubfields
  | _ => trimmedText isWord

def rule : Output → ExtractionRule
  | all => allRule
  | authors => authorRule
  | titles => titleFields.rule
  | seriesTitles => seriesTitleFields.rule

/-- The two lists of an output choose the same subfields of the field. -/
def ChoosesAlike : Output → Field → Prop
  | all, _ => True
  | authors, _ => True
  | titles, field => titleFields.BeforeT field
  | seriesTitles, field => seriesTitleFields.BeforeT field

end Output

variable {isCjk}

/-- One rule splits every field of the outlines in `S`, whatever their text. -/
theorem splits_iff (hcjk : isCjk '中' = true)
    (hascii : ∀ c : Char, c.toNat < 128 → isCjk c = false) (S : Field → Prop) (o : Output) :
    (∃ e : ExtractionRule, ∀ field : Field, field.tag = "880" → S field.outline →
        Splits isCjk (o.cjk isCjk isWord) (o.nonCjk isCjk isWord) (o.text isWord) e field)
      ↔ ∀ field : Field, field.tag = "880" → S field.outline → o.ChoosesAlike field := by
  constructor
  · rintro ⟨e, he⟩ field h880 hS
    have halike {T : TitleFields} (hT : T.Lawful)
        (hT' : ∀ field : Field, field.tag = "880" → S field.outline →
          Splits isCjk (titleTexts isWord (maybeHasCjkText isCjk) T (subfieldsBefore 't'))
            (titleTexts isWord (maybeHasNonCjkText isCjk) T id) (trimmedText isWord) e field) :
        T.BeforeT field := by
      by_contra hnot
      obtain ⟨other, htag, houtline, hother⟩ := exists_not_splits isWord hT hcjk not_isTrimmed_zhong
        (hascii 'a' (by decide)) not_isTrimmed_a (hascii ' ' (by decide)) hnot e
      exact hother (hT' other (htag.trans h880) (houtline ▸ hS))
    cases o with
    | all => trivial
    | authors => trivial
    | titles => exact halike titleFields_lawful he
    | seriesTitles => exact halike seriesTitleFields_lawful he
  · intro h
    refine ⟨o.rule, fun field h880 hS => ?_⟩
    have halike := h field h880 hS
    cases o with
    | all => exact splits_allTexts h880
    | authors => exact splits_authorTexts field
    | titles => exact splits_titleTexts titleFields_lawful halike
    | seriesTitles => exact splits_titleTexts seriesTitleFields_lawful halike

/-- The main block of these characters. -/
def isUnifiedIdeograph (c : Char) : Bool := 0x4E00 ≤ c.toNat && c.toNat ≤ 0x9FFF

theorem isUnifiedIdeograph_ascii (c : Char) (h : c.toNat < 128) : isUnifiedIdeograph c = false := by
  have : ¬0x4E00 ≤ c.toNat := by omega
  simp [isUnifiedIdeograph, this]

def contents (title : String) : Record :=
  ⟨[], [⟨"880", [⟨'6', "505-01"⟩, ⟨'t', title⟩], ""⟩], ""⟩

example :
    nonLatinNonCjkTitles isUnifiedIdeograph Char.isAlpha (contents "Τίτλος") = ["Τίτλος"] := by
  decide +kernel

example : cjkTitles isUnifiedIdeograph Char.isAlpha (contents "紅樓夢") = []
    ∧ nonLatinNonCjkTitles isUnifiedIdeograph Char.isAlpha (contents "紅樓夢") = [] := by
  decide +kernel

/-- Without $t there is nothing to cut. -/
theorem splits_withoutT :
    ∃ e : ExtractionRule, ∀ field : Field, field.tag = "880" →
      (∀ s ∈ field.outline.subfields, s.code ≠ 't') →
      Splits isUnifiedIdeograph (cjkTitles isUnifiedIdeograph Char.isAlpha)
        (nonLatinNonCjkTitles isUnifiedIdeograph Char.isAlpha) (trimmedText Char.isAlpha) e
        field := by
  refine (splits_iff Char.isAlpha (by decide +kernel) isUnifiedIdeograph_ascii
    (fun outline => ∀ s ∈ outline.subfields, s.code ≠ 't') .titles).2 ?_
  intro field _ hno s hs
  have hnil : subfieldsAfter 't' field.subfields = [] := by
    rw [subfieldsAfter, List.dropWhile_eq_nil_iff]
    intro x hx
    simpa using hno x.outline (List.mem_map_of_mem hx)
  rw [hnil] at hs
  cases hs

/-- The titles in a table of contents, which have only $t. -/
theorem not_splits_contents :
    ¬∃ e : ExtractionRule, ∀ field : Field, field.tag = "880" →
      Splits isUnifiedIdeograph (cjkTitles isUnifiedIdeograph Char.isAlpha)
        (nonLatinNonCjkTitles isUnifiedIdeograph Char.isAlpha) (trimmedText Char.isAlpha) e
        field := by
  rintro ⟨e, he⟩
  have hnot : ¬titleFields.BeforeT ⟨"880", [⟨'6', "505-01"⟩, ⟨'t', "Τίτλος"⟩], ""⟩ := by
    unfold TitleFields.BeforeT
    decide +kernel
  obtain ⟨other, h880, -, hother⟩ := exists_not_splits Char.isAlpha
    titleFields_lawful (show isUnifiedIdeograph '中' = true by decide +kernel)
    not_isTrimmed_zhong (show isUnifiedIdeograph 'a' = false by decide +kernel) not_isTrimmed_a
    (show isUnifiedIdeograph ' ' = false by decide +kernel) hnot e
  exact hother (he other h880)

end Outputs

end Bibdata
