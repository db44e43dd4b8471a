import Bibdata.NameTitleBrowse
import Bibdata.Proofs.OverflowChecks
import Bibdata.Proofs.VariableLengthField
import Mathlib.Data.List.Flatten

/-!
# Related works in the browse list and in the catalog

Both programs cut the subfields of an entry at its first $t: Rust looks for it, Ruby walks with two
flags (`foldl_step`). The headings are then the prefixes of the entry with at least one level of
the title (`titleHeadings_eq`). They differ in the 880 fields that they take: Rust leaves out the
blanks before the tag in $6, Traject does not (`effectiveTag_iff`).
-/

namespace Bibdata

section Cut

variable {codes : List Char} {field : Field}

def hasCode (code : Char) (subfields : List Subfield) : Bool := subfields.any (·.code = code)

theorem filterByCode_cons (codes : List Char) (s : Subfield) (subfields : List Subfield) :
    filterByCode codes (s :: subfields)
      = if s.code ∈ codes then s :: filterByCode codes subfields
        else filterByCode codes subfields := by
  simp only [filterByCode, List.filter_cons, decide_eq_true_eq]

theorem step_of_not_mem {s : Subfield} (h : s.code ∉ codes) (walk : NameTitleWalk) :
    walk.step codes s = walk := if_pos h

/-- The walk when it has come to the title. -/
theorem foldl_step_title (codes : List Char) (subfields : List Subfield) (nonA : Bool)
    (author nameTitle : List String) :
    subfields.foldl (NameTitleWalk.step codes) ⟨nonA, false, author, nameTitle⟩
      = ⟨nonA && !hasCode 'a' (filterByCode codes subfields), false, author,
        nameTitle ++ subfieldContents (filterByCode codes subfields)⟩ := by
  induction subfields generalizing nonA nameTitle with
  | nil => simp [filterByCode, hasCode, subfieldContents]
  | cons s subfields ih =>
    rw [List.foldl_cons, filterByCode_cons]
    by_cases hcode : s.code ∈ codes
    · have hstep : NameTitleWalk.step codes ⟨nonA, false, author, nameTitle⟩ s
          = ⟨nonA && s.code ≠ 'a', false, author, nameTitle ++ [s.content]⟩ := by
        simp [NameTitleWalk.step, hcode]
      rw [hstep, ih, if_pos hcode]
      simp [hasCode, subfieldContents, Bool.and_assoc]
    · rw [step_of_not_mem hcode, ih, if_neg hcode]

/-- The walk from the start. -/
theorem foldl_step (codes : List Char) (subfields : List Subfield) (nonA : Bool)
    (author : List String) :
    subfields.foldl (NameTitleWalk.step codes) ⟨nonA, true, author, []⟩
      = ⟨nonA && !hasCode 'a' (filterByCode codes subfields),
        !hasCode 't' (filterByCode codes subfields),
        author ++ subfieldContents (subfieldsBefore 't' (filterByCode codes subfields)),
        subfieldContents (subfieldsAfter 't' (filterByCode codes subfields))⟩ := by
  induction subfields generalizing nonA author with
  | nil => simp [filterByCode, hasCode, subfieldContents, subfieldsBefore, subfieldsAfter]
  | cons s subfields ih =>
    rw [List.foldl_cons, filterByCode_cons]
    by_cases hcode : s.code ∈ codes
    · rw [if_pos hcode]
      by_cases ht : s.code = 't'
      · have hstep : NameTitleWalk.step codes ⟨nonA, true, author, []⟩ s
            = ⟨nonA && s.code ≠ 'a', false, author, [s.content]⟩ := by
          have ht' : 't' ∈ codes := ht ▸ hcode
          simp [NameTitleWalk.step, ht, ht']
        rw [hstep, foldl_step_title]
        simp [hasCode, subfieldContents, subfieldsBefore, subfieldsAfter, ht]
      · have hstep : NameTitleWalk.step codes ⟨nonA, true, author, []⟩ s
            = ⟨nonA && s.code ≠ 'a', true, author ++ [s.content], []⟩ := by
          simp [NameTitleWalk.step, hcode, ht]
        rw [hstep, ih]
        simp [hasCode, subfieldContents, subfieldsBefore, subfieldsAfter, ht, Bool.and_assoc]
    · rw [step_of_not_mem hcode, ih, if_neg hcode]

/-- The name and the levels, for subfields that have both. -/
def cutAtTitle (kept : List Subfield) : Option NameTitle :=
  if hasCode 'a' kept && hasCode 't' kept then
    some ⟨" ".intercalate (subfieldContents (subfieldsBefore 't' kept)),
      subfieldContents (subfieldsAfter 't' kept)⟩
  else none

theorem prepNameTitleOf_eq (codes : List Char) (field : Field) :
    prepNameTitleOf codes field
      = (cutAtTitle (filterByCode codes field.subfields)).map fun entry =>
        entry.name :: entry.titleLevels := by
  have hwalk := foldl_step codes field.subfields true []
  simp only [prepNameTitleOf, hwalk, cutAtTitle]
  cases hasCode 'a' (filterByCode codes field.subfields) <;>
    cases hasCode 't' (filterByCode codes field.subfields) <;> rfl

theorem mem_entrySubfields {tag : String} {allowed : List Char}
    (h : entrySubfields tag = some allowed) : 'a' ∈ allowed := by
  unfold entrySubfields at h
  split_ifs at h <;> cases h <;> decide

theorem hasCode_filterByCode {codes : List Char} {c : Char} (h : c ∈ codes)
    (subfields : List Subfield) :
    hasCode c (filterByCode codes subfields) = hasCode c subfields := by
  rw [hasCode, hasCode, filterByCode, List.any_filter]
  refine congrArg (List.any subfields) (funext fun s => ?_)
  by_cases hs : s.code = c
  · simp [hs, h]
  · simp [hs]

theorem isSome_firstSubfield (field : Field) (c : Char) :
    (field.firstSubfield c).isSome = hasCode c field.subfields := by
  rw [Field.firstSubfield, Option.isSome_map, List.isSome_find?]
  rfl

theorem ofField_eq {allowed : List Char}
    (hallowed : entrySubfields (latinOrNonLatinTag field) = some allowed) :
    NameTitle.ofField field = cutAtTitle (filterByCode allowed field.subfields) := by
  unfold NameTitle.ofField cutAtTitle
  rw [hasCode_filterByCode (mem_entrySubfields hallowed), ← isSome_firstSubfield, hallowed]
  rcases field.firstSubfield 'a' with _ | name
  · rfl
  · rw [Option.bind_some, Option.bind_some]
    generalize filterByCode allowed field.subfields = kept
    have hnot : (fun s : Subfield => !decide (s.code ≠ 't')) = fun s => decide (s.code = 't') :=
      funext fun s => by simp
    have htitle : (kept.findIdx? (·.code = 't')).isSome = hasCode 't' kept :=
      List.findIdx?_isSome
    rw [← htitle]
    simp only
    rcases hindex : kept.findIdx? (·.code = 't') with _ | index
    · rw [hindex]
      rfl
    · have hfound := (List.findIdx?_eq_some_iff_findIdx_eq.1 hindex).2
      have hbefore : subfieldsBefore 't' kept = kept.take index := by
        rw [subfieldsBefore, List.takeWhile_eq_take_findIdx_not, hnot, hfound]
      have hafter : subfieldsAfter 't' kept = kept.drop index := by
        rw [subfieldsAfter, List.dropWhile_eq_drop_findIdx_not, hnot, hfound]
      rw [hindex, hbefore, hafter]
      rfl

end Cut

section Levels

variable (isWord : Char → Bool)

theorem ne_nil_of_mem_inits_tail {α : Type} {l levels : List α} (h : l ∈ levels.inits.tail) :
    l ≠ [] := by
  rcases levels with _ | ⟨level, levels⟩
  · simp at h
  · rw [List.inits_cons, List.tail_cons, List.mem_map] at h
    obtain ⟨m, -, rfl⟩ := h
    exact List.cons_ne_nil level m

/-- One heading for each beginning of the levels. -/
theorem titleHeadings_eq (joined : String) (levels : List String) :
    NameTitle.titleHeadings isWord joined levels
      = levels.inits.tail.map fun l => normalized isWord (joined ++ " " ++ " ".intercalate l) := by
  induction levels generalizing joined with
  | nil => rfl
  | cons level levels ih =>
    have hinits : levels.inits = [] :: levels.inits.tail := by cases levels <;> rfl
    rw [NameTitle.titleHeadings, ih, List.inits_cons, List.tail_cons, hinits, List.map_cons,
      List.map_cons, List.map_map, String.intercalate_singleton, List.tail_cons]
    refine congrArg _ (List.map_congr_left fun l hl => ?_)
    rw [Function.comp_apply, String.intercalate_cons_of_ne_nil (ne_nil_of_mem_inits_tail hl)]
    simp only [String.append_assoc]

/-- The headings of every prefix of an entry that has a level of the title. -/
def normalizedPrefixes (entry : List String) : List String :=
  (entry.inits.filter (2 ≤ ·.length)).map fun p => normalized isWord (" ".intercalate p)

theorem headings_eq (entry : NameTitle) :
    entry.headings isWord false = normalizedPrefixes isWord (entry.name :: entry.titleLevels) := by
  have hinits : entry.titleLevels.inits = [] :: entry.titleLevels.inits.tail := by
    cases entry.titleLevels <;> rfl
  have hkept : entry.titleLevels.inits.tail.filter
      ((fun p => decide (2 ≤ p.length)) ∘ fun l => entry.name :: l)
        = entry.titleLevels.inits.tail := by
    refine List.filter_eq_self.2 fun l hl => ?_
    have := List.length_pos_of_ne_nil (ne_nil_of_mem_inits_tail hl)
    simp only [Function.comp_apply, List.length_cons, decide_eq_true_eq]
    omega
  rw [NameTitle.headings, titleHeadings_eq, normalizedPrefixes, List.inits_cons, hinits,
    List.map_cons, List.filter_cons_of_neg (by simp), List.filter_cons_of_neg (by simp),
    List.filter_map, List.map_map, List.tail_cons, hkept]
  refine List.map_congr_left fun l hl => ?_
  rw [Function.comp_apply, String.intercalate_cons_of_ne_nil (ne_nil_of_mem_inits_tail hl)]

end Levels

section Selection

variable {field : Field} {tag ind2 : String}

/-- The $6 of an 880 field starts with the tag, as Rust reads it: blanks apart. -/
def LinkedToTag (field : Field) (tag : String) : Prop :=
  field.tag = "880" ∧ ∃ linkage, field.firstSubfield '6' = some linkage
    ∧ tag.toList <+: (trim linkage).toList

theorem nonLatinTag_eq_some (htag : byteLength tag.toList = 3) :
    nonLatinTag field = some tag ↔ LinkedToTag field tag := by
  unfold nonLatinTag LinkedToTag
  split_ifs with h880
  · simp [h880]
  · rw [Option.bind_eq_some_iff]
    simp only [Option.map_eq_some_iff]
    constructor
    · rintro ⟨linkage, hlinkage, ds, hds, rfl⟩
      refine ⟨not_not.1 h880, linkage, hlinkage, ?_⟩
      rw [String.toList_ofList]
      exact (firstBytes_eq_some hds).1
    · rintro ⟨-, linkage, hlinkage, rest, hrest⟩
      refine ⟨linkage, hlinkage, tag.toList, ?_, String.ofList_toList⟩
      rw [← hrest, ← htag, firstBytes_append]

theorem latinOrNonLatinTag_eq (htag : byteLength tag.toList = 3) (h880 : tag ≠ "880") :
    latinOrNonLatinTag field = tag ↔ field.tag = tag ∨ LinkedToTag field tag := by
  rw [← nonLatinTag_eq_some htag, latinOrNonLatinTag]
  by_cases hfield : field.tag = "880"
  · rcases nonLatinTag field with _ | linked
    · simp
    · simp [hfield, h880.symm]
  · simp [nonLatinTag_of_ne hfield]

/-- The $6 of an 880 field starts with a blank. -/
def BeginsBlank (field : Field) : Prop :=
  field.tag = "880" ∧ ∃ linkage, field.firstSubfield '6' = some linkage
    ∧ ∃ c cs, linkage.toList = c :: cs ∧ isSpace c = true

instance (field : Field) : Decidable (BeginsBlank field) :=
  decidable_of_iff (field.tag = "880" ∧ (field.firstSubfield '6').any fun linkage =>
    linkage.toList.head?.any isSpace) <| and_congr_right fun _ => by
      rw [Option.any_eq_true]
      refine exists_congr fun linkage => and_congr_right fun _ => ?_
      cases linkage.toList <;> simp

/-- Fields are selected by tag, linked 880 and indicator. -/
def SelectsFields (covers : NameTitleSpec → Field → Bool) : Prop :=
  ∀ spec field, covers spec field = true
    ↔ effectiveTag field = some spec.tag ∧ field.ind2 = spec.ind2

theorem effectiveTag_eq_some (htag : byteLength tag.toList = 3) (h880 : tag ≠ "880") :
    effectiveTag field = some tag ↔ field.tag = tag ∨ field.tag = "880"
      ∧ ∃ linkage, field.firstSubfield '6' = some linkage ∧ tag.toList <+: linkage.toList := by
  unfold effectiveTag
  split_ifs with hfield
  · have hne : field.tag ≠ tag := fun h => h880 (h ▸ hfield)
    rw [or_iff_right hne, and_iff_right hfield]
    cases field.firstSubfield '6' with
    | none => simp [hne]
    | some linkage =>
      simp only [Option.some.injEq, exists_eq_left']
      split_ifs with hshort
      · rw [← byteLength_toList] at hshort
        have hless : ¬ tag.toList <+: linkage.toList := by
          rintro ⟨rest, hrest⟩
          rw [← hrest, byteLength_append] at hshort
          omega
        refine iff_of_false ?_ hless
        rintro ⟨rfl⟩
        omega
      · rw [Option.map_eq_some_iff]
        constructor
        · rintro ⟨ds, hds, rfl⟩
          rw [String.toList_ofList]
          exact (firstBytes_eq_some hds).1
        · rintro ⟨rest, hrest⟩
          refine ⟨tag.toList, ?_, String.ofList_toList⟩
          rw [← hrest, ← htag, firstBytes_append]
  · simp [hfield]

/-- What has no blank stands before the blanks at the end. -/
theorem isPrefix_rdropWhile {cs ds : List Char} (hcs : ∀ c ∈ cs, isSpace c = false) :
    cs <+: ds.rdropWhile isSpace ↔ cs <+: ds := by
  induction ds using List.reverseRecOn with
  | nil => rfl
  | append_singleton ds c ih =>
    by_cases hc : isSpace c = true
    · rw [List.rdropWhile_concat_pos _ _ _ hc, ih, List.prefix_concat_iff]
      refine (or_iff_right ?_).symm
      rintro rfl
      have hnot := hcs c (by simp)
      rw [hc] at hnot
      cases hnot
    · rw [List.rdropWhile_concat_neg _ _ _ hc]

theorem isPrefix_trim {cs : List Char} (hcs : ∀ c ∈ cs, isSpace c = false) {linkage : String}
    (hhead : ∀ c rest, linkage.toList = c :: rest → isSpace c = false) :
    cs <+: (trim linkage).toList ↔ cs <+: linkage.toList := by
  have hdrop : linkage.toList.dropWhile isSpace = linkage.toList := by
    cases hlinkage : linkage.toList with
    | nil => rfl
    | cons c rest => exact List.dropWhile_cons_of_neg (by simp [hhead c rest hlinkage])
  rw [trim, String.toList_ofList, hdrop, isPrefix_rdropWhile hcs]

/-- Both programs take a field for one of a tag, unless its $6 starts with a blank. -/
theorem effectiveTag_iff (htag : byteLength tag.toList = 3) (h880 : tag ≠ "880")
    (hblanks : ∀ c ∈ tag.toList, isSpace c = false) :
    effectiveTag field = some tag ↔ latinOrNonLatinTag field = tag ∧ ¬ BeginsBlank field := by
  rw [effectiveTag_eq_some htag h880, latinOrNonLatinTag_eq htag h880]
  by_cases hfield : field.tag = "880"
  · have hne : field.tag ≠ tag := fun h => h880 (h ▸ hfield)
    rw [or_iff_right hne, or_iff_right hne, and_iff_right hfield, LinkedToTag,
      and_iff_right hfield, BeginsBlank, and_iff_right hfield]
    cases field.firstSubfield '6' with
    | none => simp
    | some linkage =>
      simp only [Option.some.injEq, exists_eq_left']
      by_cases hblank : ∃ c cs, linkage.toList = c :: cs ∧ isSpace c = true
      · refine iff_of_false ?_ fun h => h.2 hblank
        obtain ⟨c, cs, hlinkage, hc⟩ := hblank
        rintro ⟨rest, hrest⟩
        rw [hlinkage] at hrest
        rcases hchars : tag.toList with _ | ⟨d, ds⟩
        · rw [hchars] at htag
          cases htag
        · rw [hchars, List.cons_append] at hrest
          have hd := hblanks d (hchars ▸ List.mem_cons_self)
          rw [(List.cons.inj hrest).1, hc] at hd
          cases hd
      · have hhead : ∀ c rest, linkage.toList = c :: rest → isSpace c = false := by
          intro c rest hlinkage
          exact Bool.eq_false_iff.2 fun hc => hblank ⟨c, rest, hlinkage, hc⟩
        rw [isPrefix_trim hblanks hhead, and_iff_left hblank]
  · have hnot : ¬ BeginsBlank field := fun h => hfield h.1
    simp [LinkedToTag, hfield, hnot]

end Selection

section Entries

variable (isWord : Char → Bool) {covers : NameTitleSpec → Field → Bool} {field : Field}
  {ind2 : String}

theorem filterByCode_perm {codes codes' : List Char} (h : codes.Perm codes')
    (subfields : List Subfield) : filterByCode codes subfields = filterByCode codes' subfields := by
  simp only [filterByCode, h.mem_iff]

/-- What a spec finds in a field of its tag. -/
theorem prepNameTitleOf_eq_ofField {codes allowed : List Char}
    (hallowed : entrySubfields (latinOrNonLatinTag field) = some allowed)
    (hcodes : codes.Perm allowed) :
    prepNameTitleOf codes field
      = (NameTitle.ofField field).map fun entry => entry.name :: entry.titleLevels := by
  rw [prepNameTitleOf_eq, ofField_eq hallowed, filterByCode_perm hcodes]

/-- What one field adds to the headings. -/
def headingsOf (ind2 : String) (field : Field) : List String :=
  if latinOrNonLatinTag field ∈ relatedTags ∧ field.ind2 = ind2 then
    ((NameTitle.ofField field).map fun entry => entry.headings isWord false).getD []
  else []

theorem latinOrNonLatinTagIncludedIn_iff {tags : List String} (h : "880" ∉ tags) :
    latinOrNonLatinTagIncludedIn tags field = true ↔ latinOrNonLatinTag field ∈ tags := by
  rw [latinOrNonLatinTagIncludedIn, latinOrNonLatinTag]
  by_cases hfield : field.tag = "880"
  · rcases nonLatinTag field with _ | linked
    · simp
    · simp [hfield, h]
  · simp [nonLatinTag_of_ne hfield]

theorem addedEntries_eq (r : Record) (ind2 : String) :
    addedEntries isWord r relatedTags (some ind2) false
      = r.fields.flatMap (headingsOf isWord ind2) := by
  unfold addedEntries addedEntryFields
  induction r.fields with
  | nil => rfl
  | cons field fields ih =>
    rw [List.flatMap_cons, ← ih, headingsOf]
    by_cases htag : latinOrNonLatinTag field ∈ relatedTags
    · have hincluded := (latinOrNonLatinTagIncludedIn_iff (by decide)).2 htag
      rw [List.filter_cons_of_pos hincluded]
      by_cases hind : field.ind2 = ind2
      · rw [List.filter_cons_of_pos (by simp [secondIndicatorMatches, hind]), if_pos ⟨htag, hind⟩,
          List.filterMap_cons]
        rcases NameTitle.ofField field with _ | entry <;> simp
      · rw [List.filter_cons_of_neg (by simp [secondIndicatorMatches, hind]),
          if_neg fun h => hind h.2, List.nil_append]
    · have hexcluded := mt (latinOrNonLatinTagIncludedIn_iff (by decide)).1 htag
      rw [List.filter_cons_of_neg hexcluded, if_neg fun h => htag h.1, List.nil_append]

/-- The specs have the tags and the codes of the Rust entries. -/
theorem of_mem_nameTitleSpecs {spec : NameTitleSpec} (h : spec ∈ nameTitleSpecs ind2) :
    byteLength spec.tag.toList = 3 ∧ spec.tag ≠ "880"
      ∧ (∀ c ∈ spec.tag.toList, isSpace c = false) ∧ spec.ind2 = ind2
      ∧ ∃ allowed, entrySubfields spec.tag = some allowed ∧ spec.subfields.Perm allowed := by
  have hspaces : ∀ tag ∈ relatedTags, tag.toList.any isSpace = false := by decide
  have htags : ∀ tag ∈ relatedTags, byteLength tag.toList = 3 ∧ tag ≠ "880"
      ∧ ∀ c ∈ tag.toList, isSpace c = false := by
    refine fun tag htag => ⟨?_, ?_, fun c hc => ?_⟩
    · revert tag
      decide
    · revert tag
      decide
    · exact Bool.eq_false_iff.2 (List.any_eq_false.1 (hspaces tag htag) c hc)
  have h700 : "aqbcdfghklmnoprstx".toList.Perm ((entrySubfields "700").getD []) := by decide
  have h710 : "abcdfghklnoprstx".toList.Perm ((entrySubfields "710").getD []) := by decide
  have h711 : "abcdefgklnpqt".toList.Perm ((entrySubfields "711").getD []) := by decide
  simp only [nameTitleSpecs, List.mem_cons, List.not_mem_nil, or_false] at h
  rcases h with rfl | rfl | rfl
  · obtain ⟨hlength, h880, hblanks⟩ := htags "700" (by decide)
    exact ⟨hlength, h880, hblanks, rfl, _, rfl, h700⟩
  · obtain ⟨hlength, h880, hblanks⟩ := htags "710" (by decide)
    exact ⟨hlength, h880, hblanks, rfl, _, rfl, h710⟩
  · obtain ⟨hlength, h880, hblanks⟩ := htags "711" (by decide)
    exact ⟨hlength, h880, hblanks, rfl, _, rfl, h711⟩

/-- A spec covers the fields of its own tag, unless their $6 starts with a blank. -/
theorem covers_iff (hselects : SelectsFields covers) {spec : NameTitleSpec}
    (hspec : spec ∈ nameTitleSpecs ind2) (field : Field) :
    covers spec field = true
      ↔ (latinOrNonLatinTag field = spec.tag ∧ ¬ BeginsBlank field) ∧ field.ind2 = ind2 := by
  obtain ⟨hlength, h880, hblanks, hind, -⟩ := of_mem_nameTitleSpecs hspec
  rw [hselects, effectiveTag_iff hlength h880 hblanks, hind]

theorem filter_nameTitleSpecs (hselects : SelectsFields covers) (field : Field) :
    (nameTitleSpecs ind2).filter (covers · field)
      = if field.ind2 = ind2 ∧ ¬ BeginsBlank field then
          (nameTitleSpecs ind2).filter fun spec => latinOrNonLatinTag field = spec.tag
        else [] := by
  split_ifs with hfield
  · refine List.filter_congr fun spec hspec => ?_
    rw [Bool.eq_iff_iff, covers_iff hselects hspec, decide_eq_true_eq, and_iff_left hfield.1,
      and_iff_left hfield.2]
  · refine List.filter_eq_nil_iff.2 fun spec hspec hcovers => hfield ?_
    obtain ⟨⟨-, hblank⟩, hind⟩ := (covers_iff hselects hspec field).1 hcovers
    exact ⟨hind, hblank⟩

theorem entriesOf_singleton {spec : NameTitleSpec} (hspec : spec ∈ nameTitleSpecs ind2)
    (htag : latinOrNonLatinTag field = spec.tag) :
    ([spec].filterMap fun spec => prepNameTitleOf spec.subfields field).flatMap
        (normalizedPrefixes isWord)
      = ((NameTitle.ofField field).map fun entry => entry.headings isWord false).getD [] := by
  obtain ⟨-, -, -, -, allowed, hallowed, hcodes⟩ := of_mem_nameTitleSpecs hspec
  rw [← htag] at hallowed
  rw [List.filterMap_cons, prepNameTitleOf_eq_ofField hallowed hcodes]
  rcases NameTitle.ofField field with _ | entry
  · rfl
  · simp [headings_eq]

/-- What Ruby shows of a field. -/
def shownOf (ind2 : String) (field : Field) : List String :=
  if BeginsBlank field then [] else headingsOf isWord ind2 field

theorem entriesOf_eq (hselects : SelectsFields covers) (field : Field) :
    (((nameTitleSpecs ind2).filter (covers · field)).filterMap fun spec =>
        prepNameTitleOf spec.subfields field).flatMap (normalizedPrefixes isWord)
      = shownOf isWord ind2 field := by
  rw [filter_nameTitleSpecs hselects, shownOf, headingsOf]
  by_cases hblank : BeginsBlank field
  · simp [hblank]
  by_cases hind : field.ind2 = ind2
  · rw [if_pos ⟨hind, hblank⟩, if_neg hblank]
    by_cases hmem : latinOrNonLatinTag field ∈ relatedTags
    · rw [if_pos ⟨hmem, hind⟩]
      have hone : ∃ spec ∈ nameTitleSpecs ind2, latinOrNonLatinTag field = spec.tag
          ∧ (nameTitleSpecs ind2).filter (latinOrNonLatinTag field = ·.tag) = [spec] := by
        simp only [relatedTags, List.mem_cons, List.not_mem_nil, or_false] at hmem
        rcases hmem with htag | htag | htag
        · exact ⟨_, List.mem_cons_self, htag, by simp [nameTitleSpecs, htag]⟩
        · exact ⟨_, List.mem_cons_of_mem _ List.mem_cons_self, htag,
            by simp [nameTitleSpecs, htag]⟩
        · exact ⟨_, List.mem_cons_of_mem _ (List.mem_cons_of_mem _ List.mem_cons_self), htag,
            by simp [nameTitleSpecs, htag]⟩
      obtain ⟨spec, hspec, htag, hfilter⟩ := hone
      rw [hfilter, entriesOf_singleton isWord hspec htag]
    · rw [if_neg fun h => hmem h.1]
      simp only [relatedTags, List.mem_cons, List.not_mem_nil, or_false, not_or] at hmem
      simp [nameTitleSpecs, hmem]
  · simp [hind]

theorem prepNameTitle_eq (hselects : SelectsFields covers) (r : Record) :
    (prepNameTitle covers (nameTitleSpecs ind2) r).flatMap (normalizedPrefixes isWord)
      = r.fields.flatMap (shownOf isWord ind2) := by
  unfold prepNameTitle collectMatchingLines
  induction r.fields with
  | nil => rfl
  | cons field fields ih =>
    rw [List.flatMap_cons, List.flatMap_cons, List.filterMap_append, List.flatMap_append, ih,
      List.filterMap_map, ← entriesOf_eq isWord hselects field]
    rfl

/-- The field gives headings to the browse list and none to the catalog. -/
def OnlyBrowsed (ind2 : String) (field : Field) : Prop :=
  BeginsBlank field ∧ latinOrNonLatinTag field ∈ relatedTags ∧ field.ind2 = ind2
    ∧ hasCode 'a' field.subfields = true ∧ hasCode 't' field.subfields = true

instance (ind2 : String) (field : Field) : Decidable (OnlyBrowsed ind2 field) :=
  inferInstanceAs (Decidable (_ ∧ _ ∧ _ ∧ _ ∧ _))

theorem exists_allowed {tag : String} (h : tag ∈ relatedTags) :
    ∃ allowed, entrySubfields tag = some allowed ∧ 'a' ∈ allowed ∧ 't' ∈ allowed := by
  simp only [relatedTags, List.mem_cons, List.not_mem_nil, or_false] at h
  rcases h with rfl | rfl | rfl <;> exact ⟨_, rfl, by decide, by decide⟩

theorem subfieldsAfter_ne_nil {kept : List Subfield} (h : hasCode 't' kept = true) :
    subfieldContents (subfieldsAfter 't' kept) ≠ [] := by
  obtain ⟨s, hs, ht⟩ := List.any_eq_true.1 h
  intro hnil
  have hall := List.dropWhile_eq_nil_iff.1 (List.map_eq_nil_iff.1 hnil) s hs
  simp only [decide_eq_true_eq] at hall ht
  exact hall ht

theorem titleHeadings_ne_nil {levels : List String} (h : levels ≠ []) (joined : String) :
    NameTitle.titleHeadings isWord joined levels ≠ [] := by
  cases levels with
  | nil => exact absurd rfl h
  | cons level levels => exact List.cons_ne_nil _ _

/-- A field of a related work has headings where it has a name and a title. -/
theorem headingsOf_ne_nil_iff (ind2 : String) (field : Field) :
    headingsOf isWord ind2 field ≠ [] ↔ latinOrNonLatinTag field ∈ relatedTags
      ∧ field.ind2 = ind2 ∧ hasCode 'a' field.subfields = true
      ∧ hasCode 't' field.subfields = true := by
  rw [headingsOf]
  split_ifs with hfield
  · obtain ⟨htag, hind⟩ := hfield
    obtain ⟨allowed, hallowed, ha, ht⟩ := exists_allowed htag
    rw [ofField_eq hallowed, cutAtTitle, hasCode_filterByCode ha, hasCode_filterByCode ht,
      and_iff_right htag, and_iff_right hind]
    split_ifs with hboth
    · have htitle := (Bool.and_eq_true_iff.1 hboth).2
      rw [← hasCode_filterByCode ht] at htitle
      exact iff_of_true (titleHeadings_ne_nil isWord (subfieldsAfter_ne_nil htitle) _)
        (Bool.and_eq_true_iff.1 hboth)
    · exact iff_of_false (not_not.2 rfl) fun h => hboth (Bool.and_eq_true_iff.2 h)
  · exact iff_of_false (not_not.2 rfl) fun h => hfield ⟨h.1, h.2.1⟩

theorem shownOf_sublist (ind2 : String) (field : Field) :
    (shownOf isWord ind2 field).Sublist (headingsOf isWord ind2 field) := by
  rw [shownOf]
  split_ifs
  · exact List.nil_sublist _
  · exact List.Sublist.refl _

theorem shownOf_eq_iff (ind2 : String) (field : Field) :
    headingsOf isWord ind2 field = shownOf isWord ind2 field ↔ ¬ OnlyBrowsed ind2 field := by
  rw [shownOf, OnlyBrowsed, ← headingsOf_ne_nil_iff isWord]
  by_cases hblank : BeginsBlank field
  · rw [if_pos hblank, and_iff_right hblank, not_not]
  · rw [if_neg hblank]
    exact iff_of_true rfl fun h => hblank h.1

/-- Sublists of every part make up the whole only where they are the parts. -/
theorem flatMap_eq_flatMap_iff {α β : Type} {f g : α → List β}
    (hsub : ∀ a, (g a).Sublist (f a)) (l : List α) :
    l.flatMap f = l.flatMap g ↔ ∀ a ∈ l, f a = g a := by
  refine ⟨fun h => ?_, fun h => List.flatMap_congr h⟩
  induction l with
  | nil => simp
  | cons a l ih =>
    rw [List.flatMap_cons, List.flatMap_cons] at h
    have hhead := (hsub a).length_le
    have htail := (List.Sublist.flatMap_right l fun b _ => hsub b).length_le
    have hlength := congrArg List.length h
    rw [List.length_append, List.length_append] at hlength
    have hparts := List.append_inj h (by omega)
    rintro b (_ | ⟨_, hb⟩)
    · exact hparts.1
    · exact ih hparts.2 b hb

theorem headings_sublist (hselects : SelectsFields covers) (r : Record) (ind2 : String) :
    ((prepNameTitle covers (nameTitleSpecs ind2) r).flatMap (normalizedPrefixes isWord)).Sublist
      (addedEntries isWord r relatedTags (some ind2) false) := by
  rw [prepNameTitle_eq isWord hselects, addedEntries_eq]
  exact List.Sublist.flatMap_right _ fun field _ => shownOf_sublist isWord ind2 field

theorem headings_eq_iff (hselects : SelectsFields covers) (r : Record) (ind2 : String) :
    addedEntries isWord r relatedTags (some ind2) false
        = (prepNameTitle covers (nameTitleSpecs ind2) r).flatMap (normalizedPrefixes isWord)
      ↔ ∀ field ∈ r.fields, ¬ OnlyBrowsed ind2 field := by
  rw [prepNameTitle_eq isWord hselects, addedEntries_eq,
    flatMap_eq_flatMap_iff (shownOf_sublist isWord ind2)]
  simp only [shownOf_eq_iff]

/-- Every prefix of an entry is a heading, and no other heading is there unless a field is only
browsed. -/
theorem relatedWorks_and_contains_iff (hselects : SelectsFields covers) (r : Record) :
    (((relatedWorks1display covers r).flatMap (normalizedPrefixes isWord)).Sublist
        (relatedWorks isWord r)
      ∧ ((contains1display covers r).flatMap (normalizedPrefixes isWord)).Sublist
        (containsEntries isWord r))
    ∧ (relatedWorks isWord r = (relatedWorks1display covers r).flatMap (normalizedPrefixes isWord)
      ↔ ∀ field ∈ r.fields, ¬ OnlyBrowsed " " field)
    ∧ (containsEntries isWord r = (contains1display covers r).flatMap (normalizedPrefixes isWord)
      ↔ ∀ field ∈ r.fields, ¬ OnlyBrowsed "2" field) :=
  ⟨⟨headings_sublist isWord hselects r " ", headings_sublist isWord hselects r "2"⟩,
    headings_eq_iff isWord hselects r " ", headings_eq_iff isWord hselects r "2"⟩

/-- Fields are selected as by the assumption. -/
def coversField (spec : NameTitleSpec) (field : Field) : Bool :=
  effectiveTag field = some spec.tag && field.ind2 = spec.ind2

theorem selectsFields_coversField : SelectsFields coversField := by
  intro spec field
  simp [coversField]

/-- One entry with its title first, and one in another script. -/
def wild : Record :=
  ⟨[], [⟨"700", [⟨'t', "Wild"⟩, ⟨'a', "Doe, Jane"⟩], " "⟩,
    ⟨"880", [⟨'6', "700-01"⟩, ⟨'a', "夏目"⟩, ⟨'t', "こころ"⟩], " "⟩], ""⟩

theorem relatedWorks_wild :
    relatedWorks Char.isAlpha wild = ["Wild", "Wild Doe, Jane", "夏目 こころ"]
      ∧ relatedWorks1display coversField wild = [["", "Wild", "Doe, Jane"], ["夏目", "こころ"]]
      ∧ relatedWorks Char.isAlpha wild
        = (relatedWorks1display coversField wild).flatMap (normalizedPrefixes Char.isAlpha) := by
  obtain ⟨hbrowse, hdisplay⟩ :
      relatedWorks Char.isAlpha wild = ["Wild", "Wild Doe, Jane", "夏目 こころ"]
        ∧ relatedWorks1display coversField wild = [["", "Wild", "Doe, Jane"], ["夏目", "こころ"]] := by
    decide +kernel
  exact ⟨hbrowse, hdisplay,
    (relatedWorks_and_contains_iff Char.isAlpha selectsFields_coversField wild).2.1.2 (by decide)⟩

/-- The second entry with a blank before its tag: Traject takes " 70" for the tag. -/
def wildBlank : Record :=
  ⟨[], [⟨"700", [⟨'t', "Wild"⟩, ⟨'a', "Doe, Jane"⟩], " "⟩,
    ⟨"880", [⟨'6', " 700-01"⟩, ⟨'a', "夏目"⟩, ⟨'t', "こころ"⟩], " "⟩], ""⟩

theorem not_relatedWorks_wildBlank :
    SelectsFields coversField
      ∧ relatedWorks Char.isAlpha wildBlank = ["Wild", "Wild Doe, Jane", "夏目 こころ"]
      ∧ relatedWorks1display coversField wildBlank = [["", "Wild", "Doe, Jane"]]
      ∧ relatedWorks Char.isAlpha wildBlank
        ≠ (relatedWorks1display coversField wildBlank).flatMap
            (normalizedPrefixes Char.isAlpha) := by
  obtain ⟨hbrowse, hdisplay⟩ :
      relatedWorks Char.isAlpha wildBlank = ["Wild", "Wild Doe, Jane", "夏目 こころ"]
        ∧ relatedWorks1display coversField wildBlank = [["", "Wild", "Doe, Jane"]] := by
    decide +kernel
  exact ⟨selectsFields_coversField, hbrowse, hdisplay,
    mt (headings_eq_iff Char.isAlpha selectsFields_coversField wildBlank " ").1 (by decide)⟩

end Entries

end Bibdata
