import Bibdata.Proofs.UnusedFields

/-!
# What is found in a copied record

A copy that leaves fields out is the copy of the whole record without them: to add a field and to
leave some out can change places (`addField_without`), and so for all the fields of a record. What
is found in the one is then what is found in the other (`solrFields_of_copied`), but for its XML and
the parallel fields: those that are linked to a field that was left out have lost their pair. A copy
cannot be made where the leader is cut after 24 characters and one of them has more than one byte.
-/

namespace Bibdata

section Unmatched

/-- The tag that the linkage of a field begins with is one of these. -/
def isLinkedTo (unused : List String) (field : Field) : Bool :=
  ((field.firstSubfield '6').bind fun linkage => byteRange 0 3 linkage.toList).any
    (String.ofList · ∈ unused)

variable {unused : List String} {r : Record}

theorem pairedWith_without (field : Field) :
    pairedWith (r.without unused) field =
      if isLinkedTo unused field then none else pairedWith r field := by
  unfold pairedWith isLinkedTo
  cases field.firstSubfield '6' with
  | none => rfl
  | some linkage =>
    simp only [Option.bind_some]
    cases byteRange 0 3 linkage.toList with
    | none => rfl
    | some tag =>
      simp only [Option.bind_some, Option.any_some, decide_eq_true_eq]
      split_ifs with htag
      · have hempty : (r.without unused).getFields (String.ofList tag) = [] := by
          rw [Record.getFields, Record.without, List.filter_filter, List.filter_eq_nil_iff]
          intro other _
          rw [Bool.and_eq_true, decide_eq_true_eq, decide_eq_true_eq]
          rintro ⟨hother, hunused⟩
          exact hunused (hother ▸ htag)
        rw [hempty, Option.bind_eq_none_iff]
        intro occurrence _
        rw [Option.bind_eq_none_iff]
        rintro (_ | index) _ <;> rfl
      · rw [getFields_without htag]

theorem isUnmatched_eq {field : Field} (hmem : field ∈ r.fields) :
    isUnmatched r field = (decide (field.tag = "880") && (pairedWith r field).isNone) := by
  by_cases htag : field.tag = "880"
  · rw [isUnmatched, any_parallelFieldPairs hmem htag, Option.not_isSome]
  · simp [isUnmatched, htag]

/-- What is listed where fields were left out: a field that is linked to one of them too. -/
theorem unmatchedParallelStrings_without (h880 : "880" ∉ unused) :
    unmatchedParallelStrings (r.without unused) =
      extractFieldValuesBy r
        (fun field => field.tag = "880" && (isLinkedTo unused field || (pairedWith r field).isNone))
        fun field => some (joinSubfieldsByCode field ['a', 'b', 'c']) := by
  have hcriteria : ∀ field ∈ (r.without unused).fields, isUnmatched (r.without unused) field =
      (decide (field.tag = "880")
        && (isLinkedTo unused field || (pairedWith r field).isNone)) := by
    intro field hfield
    rw [isUnmatched_eq hfield, pairedWith_without]
    split_ifs with hlinked
    · simp [hlinked]
    · simp [hlinked]
  have hunused : ∀ field : Field, field.tag ∈ unused → (decide (field.tag = "880")
      && (isLinkedTo unused field || (pairedWith r field).isNone)) = false := by
    intro field hfield
    have hne : field.tag ≠ "880" := fun htag => h880 (htag ▸ hfield)
    simp [hne]
  rw [unmatchedParallelStrings_eq, listedFields, List.filter_congr hcriteria,
    ← extractFieldValuesBy_without hunused, extractFieldValuesBy_some]

end Unmatched

namespace MarcGem

section Leader

theorem length_le_utf8Len : ∀ cs : List Char, cs.length ≤ String.utf8Len cs
  | [] => le_rfl
  | c :: cs => by
    have hpos : 0 < c.utf8Size := c.utf8Size_pos
    have ih := length_le_utf8Len cs
    rw [String.utf8Len_cons, List.length_cons]
    omega

theorem utf8Len_eq_length_iff {cs : List Char} :
    String.utf8Len cs = cs.length ↔ ∀ c ∈ cs, c.utf8Size ≤ 1 := by
  induction cs with
  | nil => simp
  | cons c cs ih =>
    have hpos : 0 < c.utf8Size := c.utf8Size_pos
    have hlength := length_le_utf8Len cs
    rw [List.forall_mem_cons, ← ih, String.utf8Len_cons, List.length_cons]
    omega

/-- More than 24 bytes, and some of them in one character of the first 24. -/
def isCutWide (leader : String) : Bool :=
  24 < leader.utf8ByteSize && (leader.toList.take 24).any (1 < ·.utf8Size)

theorem utf8ByteSize_normalizeLeader {original : String} :
    (normalizeLeader original).utf8ByteSize = 24 ↔ isCutWide original = false := by
  unfold normalizeLeader isCutWide
  split_ifs with hshort hlong
  · have hspaces : String.utf8Len (List.replicate (24 - original.utf8ByteSize) ' ')
        = 24 - original.utf8ByteSize := by
      rw [utf8Len_eq_length_iff.2, List.length_replicate]
      intro c hc
      rw [List.eq_of_mem_replicate hc]
      decide
    rw [String.utf8ByteSize_append, ← String.utf8Len_toList (String.ofList _),
      String.toList_ofList, hspaces]
    simp only [Nat.not_lt.2 hshort.le, decide_false, Bool.false_and, iff_true]
    omega
  · have hwhole : original.toList.take 24 = original.toList ∨
        (original.toList.take 24).length = 24 := by
      rw [List.length_take]
      rcases le_total original.toList.length 24 with hle | hge
      · exact Or.inl (List.take_of_length_le hle)
      · exact Or.inr (min_eq_left hge)
    rw [← String.utf8Len_toList (String.ofList _), String.toList_ofList]
    simp only [hlong, decide_true, Bool.true_and, List.any_eq_false, decide_eq_true_eq, not_lt]
    rw [← utf8Len_eq_length_iff]
    rcases hwhole with hwhole | hlength
    · have hbytes := String.utf8Len_toList original
      have hcount : (original.toList.take 24).length ≤ 24 := List.length_take_le ..
      rw [hwhole] at hcount ⊢
      omega
    · rw [hlength]
  · simp only [hlong, decide_false, Bool.false_and, iff_true]
    omega

end Leader

section Copy

variable {limits : Limits} {unused : List String}

theorem marctkDataField_unused (tag indicator1 indicator2 : Option String)
    (subfields : Option (List RubySubfield)) :
    marctkDataField limits unused tag indicator1 indicator2 subfields =
      (marctkDataField limits [] tag indicator1 indicator2 subfields).filter
        (·.tag ∉ unused) := by
  cases tag with
  | none => rfl
  | some tag =>
    simp only [marctkDataField, Option.bind_some, List.not_mem_nil, if_false]
    by_cases htag : tag ∈ unused
    · rw [if_pos htag]
      split_ifs
      · rw [Option.filter_some, if_neg (by simpa using htag)]
      · rfl
    · rw [if_neg htag]
      split_ifs
      · rw [Option.filter_some, if_pos (by simpa using htag)]
      · rfl

theorem addField_without (record : MarctkRecord) (field : RubyField) :
    addField limits unused (record.without unused) field
      = (addField limits [] record field).without unused := by
  cases field with
  | data tag indicator1 indicator2 subfields =>
    have hfield : marctkDataField limits unused tag indicator1 indicator2 subfields = _ :=
      marctkDataField_unused tag indicator1 indicator2 subfields
    simp only [addField, hfield]
    cases marctkDataField limits [] tag indicator1 indicator2 subfields with
    | none => rfl
    | some added =>
      by_cases htag : added.tag ∈ unused <;>
        simp [Option.filter_some, MarctkRecord.without, List.filter_append, htag]
  | control tag value =>
    simp only [addField]
    cases marctkControlField limits tag value <;> rfl
  | other => rfl

theorem foldl_addField_without (fields : List RubyField) (record : MarctkRecord) :
    fields.foldl (addField limits unused) (record.without unused)
      = (fields.foldl (addField limits []) record).without unused :=
  List.foldl_hom (MarctkRecord.without unused) addField_without

/-- The copy that leaves fields out is the whole copy without them. -/
theorem marctkFromRubyMarcRecord_without (ruby : RubyRecord) :
    marctkFromRubyMarcRecord limits unused ruby
      = (marctkFromRubyMarcRecord limits [] ruby).map (·.without unused) := by
  unfold marctkFromRubyMarcRecord
  cases ruby.leader with
  | none => rfl
  | some leader =>
    cases ruby.fields with
    | none => rfl
    | some fields =>
      simp only [Option.bind_some]
      split_ifs
      · exact congrArg some (foldl_addField_without fields { leader := normalizeLeader leader })
      · rfl

theorem marctkFromRubyMarcRecord_eq_none
    (hleader : ∀ leader, limits.leader leader = true ↔ leader.utf8ByteSize = 24)
    {ruby : RubyRecord} :
    marctkFromRubyMarcRecord limits unused ruby = none ↔
      ruby.leader = none ∨ ruby.fields = none ∨ ruby.leader.any isCutWide = true := by
  unfold marctkFromRubyMarcRecord
  cases ruby.leader with
  | none => simp
  | some leader =>
    cases ruby.fields with
    | none => simp
    | some fields =>
      simp only [Option.bind_some, Option.any_some, reduceCtorEq, false_or]
      split_ifs with haccepted
      · have hfits := utf8ByteSize_normalizeLeader.1 ((hleader _).1 haccepted)
        simp [hfits]
      · have hcut : isCutWide leader ≠ false := fun hfits =>
          haccepted ((hleader _).2 (utf8ByteSize_normalizeLeader.2 hfits))
        simpa using hcut

end Copy

section Found

open SolrFields

variable {N : Type} {tools : SolrTools N}

/-- Without the fields that every field of the record has a part in. -/
def ofFieldsInUse (hash : RubyHash) : RubyHash :=
  hash.filter (·.1 ∉ ["marcxml", "original_language_display"])

theorem ofFieldsInUse_append_wholeRecord (hash : RubyHash) (r : MarctkRecord) :
    ofFieldsInUse (hash ++ wholeRecord tools r) = ofFieldsInUse hash := by
  have hwhole : ofFieldsInUse (wholeRecord tools r) = [] := by
    simp [ofFieldsInUse, wholeRecord]
  rw [ofFieldsInUse, List.filter_append, ← ofFieldsInUse, ← ofFieldsInUse, hwhole,
    List.append_nil]

theorem solrFields_without {unused : List String} (h : NoneIsRead unused)
    (hnamed : tools.ReadsNamed) (r : MarctkRecord) :
    (solrFields tools (r.without unused)).map ofFieldsInUse
      = (solrFields tools r).map ofFieldsInUse := by
  unfold solrFields
  rw [MarctkRecord.without_toRecord, figgy1display_without h, Option.map_map, Option.map_map]
  congr 1
  funext figgy
  rw [Function.comp_apply, Function.comp_apply, ofFieldsInUse_append_wholeRecord,
    ofFieldsInUse_append_wholeRecord, fieldsInUse_without h hnamed]

theorem noneIsRead_unusedFields : NoneIsRead unusedFields := by decide +kernel

/-- The copy is made unless a part is missing or the leader is cut within its bytes. What is found
in it is what a copy of every field would give, and its unmatched fields are those of the whole
record and those that were linked to what was left out. -/
theorem solrFields_of_copied (hnamed : tools.ReadsNamed) {limits : Limits}
    (hleader : ∀ leader, limits.leader leader = true ↔ leader.utf8ByteSize = 24)
    (ruby : RubyRecord) :
    (marctkFromRubyMarcRecord limits unusedFields ruby = none ↔
      ruby.leader = none ∨ ruby.fields = none ∨ ruby.leader.any isCutWide = true) ∧
    ∀ copied, marctkFromRubyMarcRecord limits unusedFields ruby = some copied →
      ∃ whole, marctkFromRubyMarcRecord limits [] ruby = some whole ∧
        (solrFields tools copied).map ofFieldsInUse
          = (solrFields tools whole).map ofFieldsInUse ∧
        unmatchedParallelStrings copied.toRecord =
          extractFieldValuesBy whole.toRecord
            (fun field => field.tag = "880"
              && (isLinkedTo unusedFields field || (pairedWith whole.toRecord field).isNone))
            fun field => some (joinSubfieldsByCode field ['a', 'b', 'c']) := by
  refine ⟨marctkFromRubyMarcRecord_eq_none hleader, fun copied hcopied => ?_⟩
  rw [marctkFromRubyMarcRecord_without, Option.map_eq_some_iff] at hcopied
  obtain ⟨whole, hwhole, rfl⟩ := hcopied
  refine ⟨whole, hwhole, solrFields_without noneIsRead_unusedFields hnamed whole, ?_⟩
  rw [MarctkRecord.without_toRecord]
  exact unmatchedParallelStrings_without (noneIsRead_unusedFields.notMem (by simp [readTags]))

section Plain

/-- The subfields of the fields with this tag and this first indicator. -/
def plainByIndicator (query : String) (r : MarctkRecord) : List String :=
  r.fields.flatMap fun field =>
    if field.tag ∈ queryTags query then
      match query.toList.drop 3 with
      | '(' :: ind1 :: _ :: ')' :: codes =>
        if field.ind1 = String.singleton ind1 then
          subfieldContents (filterByCode codes field.subfields)
        else []
      | codes => subfieldContents (filterByCode codes field.subfields)
    else []

/-- What is asked of the crates is answered from the fields, and the tables are empty. -/
def plainTools : SolrTools ℕ where
  marctk := plainMarctk
  extractFields query r := r.fields.filter (·.tag ∈ queryTags query)
  extractFieldsInRange low _ r := r.fields.filter (startsWith ·.tag (toString (low / 100)))
  extractByIndicator := plainByIndicator
  stdnums := ⟨some, some, some⟩
  dates := ⟨fun _ _ => none, fun _ => ""⟩
  serde := SerdeJson.compact
  gzip := ⟨fun _ xml => xml, some, id⟩
  toXmlString _ := "<record/>"
  locations := noLabels
  languages := ⟨fun _ => none, fun _ => none, fun _ => none⟩
  isWord := Char.isAlphanum
  isAlphabetic := Char.isAlpha
  isAlphanumeric := Char.isAlphanum
  isNumeric := Char.isDigit
  isDecimal := Char.isDigit
  isCjk c := 0x4e00 ≤ c.toNat && c.toNat ≤ 0x9fff
  charCase := ⟨Char.isUpper, fun c => [c.toUpper]⟩
  toLowercase := String.map Char.toLower
  figgyCache := {}
  figgyToString _ := none

theorem isQueried_eq_false {query : String} {field : Field}
    (htag : field.tag ∉ queryTags query) : isQueried query field = false := by
  refine List.any_eq_false.2 fun q hq hcovers => ?_
  obtain ⟨part, hpart, rfl⟩ := List.mem_map.1 hq
  have hsame : field.tag = (FieldQuery.ofString part).tag := by
    simp [FieldQuery.covers] at hcovers
    exact hcovers.1
  have hnamed : (FieldQuery.ofString part).tag = String.ofList (part.toList.take 3) := by
    unfold FieldQuery.ofString
    split <;> rfl
  exact htag (List.mem_map.2 ⟨part, hpart, (hsame.trans hnamed).symm⟩)

theorem queriedSubfields_eq_nil {query : String} {field : Field}
    (htag : field.tag ∉ queryTags query) : queriedSubfields query field = [] := by
  refine List.filter_eq_nil_iff.2 fun s _ hs => ?_
  obtain ⟨q, hq, hcovers⟩ := List.any_eq_true.1 hs
  have hqueried : isQueried query field = true :=
    List.any_eq_true.2 ⟨q, hq, (Bool.and_eq_true_iff.1 hcovers).1⟩
  rw [isQueried_eq_false htag] at hqueried
  cases hqueried

theorem plainTools_readsNamed : plainTools.ReadsNamed where
  extractValues query unused r hunused := flatMap_without fun field hfield => by
    rw [queriedSubfields_eq_nil fun htag => hunused _ htag hfield]
    rfl
  extractPartialFields query unused r hunused := by
    show ((r.without unused).fields.filter _).map _ = (r.fields.filter _).map _
    rw [filter_without]
    exact fun field hfield => isQueried_eq_false fun htag => hunused _ htag hfield
  getParallelFields tag unused r h880 := filter_without fun field hfield => by
    have hne : field.tag ≠ "880" := fun htag => h880 (htag ▸ hfield)
    rw [decide_eq_false hne, Bool.false_and]
  extractFields query unused r hunused := filter_without fun field hfield =>
    decide_eq_false fun htag => hunused _ htag hfield
  extractNotes unused r hunused := filter_without fun field hfield => hunused _ hfield
  extractByIndicator query unused r hunused := by
    show (r.fields.filter _).flatMap _ = r.fields.flatMap _
    induction r.fields with
    | nil => rfl
    | cons field fields ih =>
      rw [List.filter_cons, List.flatMap_cons]
      by_cases hfield : field.tag ∈ unused
      · have hother : field.tag ∉ queryTags query := fun htag => hunused _ htag hfield
        simpa [hfield, hother] using ih
      · simpa [hfield] using ih

/-- The sizes that the parts of a record have. -/
def sizes : Limits where
  leader s := s.utf8ByteSize = 24
  tag s := s.utf8ByteSize = 3
  indicator c := c.utf8Size = 1
  subfield code _ := code.utf8Size = 1
  controlfield tag _ := tag.utf8ByteSize = 3
  insertControlField field fields := fields.takeWhile (·.tag ≤ field.tag)
    ++ field :: fields.dropWhile (·.tag ≤ field.tag)

/-- A title, and a local field with what it is in another script. -/
def withLocalField : RubyRecord where
  leader := some "00000nam a2200000 a 4500"
  fields := some [
    .control (some "001") (some "9912345063506421"),
    .data (some "245") (some "1") (some "0") (some [⟨some "a", some "Moby Dick /"⟩]),
    .data (some "902") (some " ") (some " ")
      (some [⟨some "6", some "880-01"⟩, ⟨some "a", some "Mest"⟩]),
    .data (some "880") (some " ") (some " ")
      (some [⟨some "6", some "902-01"⟩, ⟨some "a", some "место"⟩])]

def copiedWithoutLocalField : MarctkRecord where
  leader := "00000nam a2200000 a 4500"
  controlFields := [⟨"001", "9912345063506421"⟩]
  fields := [
    { tag := "245", subfields := [⟨'a', "Moby Dick /"⟩], ind1 := "1", ind2 := "0" },
    { tag := "880", subfields := [⟨'6', "902-01"⟩, ⟨'a', "место"⟩], ind1 := " ", ind2 := " " }]

/-- The parallel field is listed as one without a pair. -/
theorem solrFields_withLocalField : ∃ whole,
    marctkFromRubyMarcRecord sizes [] withLocalField = some whole ∧
      (solrFields plainTools copiedWithoutLocalField).map ofFieldsInUse
        = (solrFields plainTools whole).map ofFieldsInUse ∧
      unmatchedParallelStrings copiedWithoutLocalField.toRecord = ["место"] := by
  have hcopied : marctkFromRubyMarcRecord sizes unusedFields withLocalField
      = some copiedWithoutLocalField := by decide +kernel
  have hsizes : ∀ leader, sizes.leader leader = true ↔ leader.utf8ByteSize = 24 :=
    fun _ => decide_eq_true_iff
  obtain ⟨whole, hwhole, hfound, -⟩ :=
    (solrFields_of_copied plainTools_readsNamed hsizes withLocalField).2 _ hcopied
  exact ⟨whole, hwhole, hfound, by decide +kernel⟩

end Plain

end Found

end MarcGem

end Bibdata
