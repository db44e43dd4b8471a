import Bibdata.BarcodeController
import Bibdata.Library.Raising

/-!
# ReCAP can read what it is sent

Every record that is sent has what the source has, without its holdings; then the one field of the
item; then the fields of the holding, each with the holding's id first, which the item has too. An
`852` has a call number in one subfield and a location that tells its library (`Sent852`). The
response has their XML without the characters that XML cannot have (`records_of_scsb`).
-/

namespace Bibdata

namespace BarcodeController

open Raising

variable {upcase : String → String} {item : Item} {holding : AlmaHolding}

section CallNumber

/-- Each line of some text without the blanks that it starts with. -/
def linesWithoutBlanks (cs : List Char) : List Char :=
  ['\n'].intercalate ((cs.splitOn '\n').map (List.dropWhile isBlank))

/-- The first $h and the first $i, joined. -/
def callNumberOf (field : DataField) : Option String :=
  (field.get 'h').map fun h =>
    String.ofList (linesWithoutBlanks (((field.get 'i').map (h ++ " " ++ ·)).getD h).toList)

/-- A line that has begun keeps its blanks. -/
def lineWithoutBlanks (atStart : Bool) (line : List Char) : List Char :=
  if atStart then line.dropWhile isBlank else line

theorem withoutLeadingBlanks_lines : ∀ (cs : List Char) (atStart : Bool) {line : List Char}
    {lines : List (List Char)}, cs.splitOn '\n' = line :: lines →
      withoutLeadingBlanks atStart cs = ['\n'].intercalate
        (lineWithoutBlanks atStart line :: lines.map (List.dropWhile isBlank))
  | [], atStart, line, lines, h => by
    obtain ⟨rfl, rfl⟩ : line = [] ∧ lines = [] := by simpa [eq_comm] using h
    cases atStart <;> rfl
  | c :: cs, atStart, line, lines, h => by
    obtain ⟨line', lines', h'⟩ := List.exists_cons_of_ne_nil (List.splitOn_ne_nil '\n' cs)
    rw [List.splitOn_cons_eq_if_modifyHead, h'] at h
    by_cases hc : c = '\n'
    · subst hc
      rw [if_pos (by simp)] at h
      obtain ⟨rfl, rfl⟩ := List.cons.inj h
      have hblank : isBlank '\n' = false := by decide
      rw [withoutLeadingBlanks, hblank, Bool.and_false, if_neg (by simp), decide_eq_true rfl,
        withoutLeadingBlanks_lines cs true h']
      cases atStart <;> simp [lineWithoutBlanks]
    · rw [if_neg (by simpa using hc), List.modifyHead_cons] at h
      obtain ⟨rfl, rfl⟩ := List.cons.inj h
      rw [withoutLeadingBlanks, decide_eq_false hc, withoutLeadingBlanks_lines cs true h',
        withoutLeadingBlanks_lines cs false h']
      cases atStart with
      | false => simp [lineWithoutBlanks]
      | true =>
        by_cases hblank : isBlank c = true
        · simp [lineWithoutBlanks, hblank]
        · simp [lineWithoutBlanks, hblank]

theorem withoutLeadingBlanks_eq (cs : List Char) :
    withoutLeadingBlanks true cs = linesWithoutBlanks cs := by
  obtain ⟨line, lines, h⟩ := List.exists_cons_of_ne_nil (List.splitOn_ne_nil '\n' cs)
  rw [withoutLeadingBlanks_lines cs true h, linesWithoutBlanks, h]
  rfl

theorem callnoFrom852_eq (field : DataField) : callnoFrom852 field = callNumberOf field := by
  unfold callnoFrom852 callNumberOf
  refine congrFun (congrArg Option.map (funext fun h => ?_)) _
  dsimp only
  rw [withoutLeadingBlanks_eq]
  cases field.get 'i' <;> rfl

theorem get_eq {field : DataField} {code : Char} :
    field.get code = (field.subfields.filter (·.1 = code)).head?.bind Prod.snd := by
  unfold DataField.get
  rw [List.head?_filter]

end CallNumber

section Field852

/-- ReCAP can read this `852`. -/
structure Readable (field : DataField) : Prop where
  holdingId : ∃ id, field.subfields.head? = some ('0', some id)
  callNumber : ∃ callNumber, field.subfields.filter (·.1 = 'h') = [('h', callNumber)]
  noItemPart : ∀ s ∈ field.subfields, s.1 ≠ 'i'
  location : '$' ∈ ((field.get 'b').getD "").toList

variable {field : DataField} {p : Char × Option String → Bool}

/-- The field with its one call number, before its location is looked at. -/
def withCallNumber (field : DataField) : DataField :=
  { field with
    subfields := field.subfields.filter (·.1 ∉ ['h', 'i']) ++ [('h', callNumberOf field)] }

theorem combine852_eq (field : DataField) :
    combine852 field = combineLocation (withCallNumber field) := by
  rw [withCallNumber, ← callnoFrom852_eq]
  rfl

theorem tag_combine852 : (combine852 field).tag = field.tag := by
  rw [combine852_eq]
  unfold combineLocation
  split_ifs <;> rfl

/-- The location has no part in the other subfields. -/
theorem filter_combineLocation (hp : ∀ s, s.1 = 'b' → p s = false) :
    (combineLocation field).subfields.filter p = field.subfields.filter p := by
  unfold combineLocation
  split_ifs
  · rfl
  · simp only [List.filter_append, List.filter_filter, List.filter_cons, hp, List.filter_nil]
    rw [if_neg (by simp), List.append_nil]
    refine List.filter_congr fun s _ => ?_
    by_cases hs : s.1 = 'b' <;> simp [hs, hp]

theorem filter_withCallNumber (hp : ∀ s, s.1 ∈ ['h', 'i'] → p s = false) :
    (withCallNumber field).subfields.filter p = field.subfields.filter p := by
  unfold withCallNumber
  simp only [List.filter_append, List.filter_filter, List.filter_cons, List.filter_nil]
  rw [hp _ (by simp), if_neg (by simp), List.append_nil]
  refine List.filter_congr fun s _ => ?_
  by_cases hs : s.1 ∈ ['h', 'i']
  · simp [hp s hs]
  · simp [hs]

theorem get_withCallNumber {code : Char} (hcode : code ∉ ['h', 'i']) :
    (withCallNumber field).get code = field.get code := by
  rw [get_eq, get_eq, filter_withCallNumber fun s hs => ?_]
  rw [decide_eq_false_iff_not]
  rintro rfl
  exact hcode hs

theorem filter_call (code : Char) (hcode : code ∈ ['h', 'i']) :
    (field.subfields.filter (·.1 ∉ ['h', 'i'])).filter (·.1 = code) = [] := by
  rw [List.filter_filter, List.filter_eq_nil_iff]
  rintro s - hs
  rw [Bool.and_eq_true, decide_eq_true_eq, decide_eq_true_eq] at hs
  exact hs.2 (hs.1 ▸ hcode)

theorem filter_callNumber :
    (combine852 field).subfields.filter (·.1 = 'h') = [('h', callNumberOf field)] := by
  rw [combine852_eq, filter_combineLocation (by simp)]
  unfold withCallNumber
  rw [List.filter_append, filter_call 'h' (by simp)]
  rfl

theorem filter_itemPart : (combine852 field).subfields.filter (·.1 = 'i') = [] := by
  rw [combine852_eq, filter_combineLocation (by simp)]
  unfold withCallNumber
  rw [List.filter_append, filter_call 'i' (by simp)]
  rfl

/-- The library and the location: those that there are where the first $b has both, or else the
first $b and the first $c together. -/
def locations (field : DataField) : List (Char × Option String) :=
  if '$' ∈ ((field.get 'b').getD "").toList then field.subfields.filter (·.1 = 'b')
  else [('b', some ((field.get 'b').getD "" ++ "$" ++ (field.get 'c').getD ""))]

theorem filter_location :
    (combine852 field).subfields.filter (·.1 = 'b') = locations field := by
  have hb : (withCallNumber field).get 'b' = field.get 'b' := get_withCallNumber (by simp)
  have hc : (withCallNumber field).get 'c' = field.get 'c' := get_withCallNumber (by simp)
  rw [combine852_eq, combineLocation, hb, hc, locations]
  split_ifs
  · exact filter_withCallNumber (by simp)
  · have hgone : ((withCallNumber field).subfields.filter (·.1 ≠ 'b')).filter (·.1 = 'b') = [] := by
      rw [List.filter_filter, List.filter_eq_nil_iff]
      simp
    rw [List.filter_append, hgone]
    rfl

theorem head?_combine852 {id : Option String} {rest : List (Char × Option String)}
    (h : field.subfields = ('0', id) :: rest) :
    (combine852 field).subfields.head? = some ('0', id) := by
  have hcall : (withCallNumber field).subfields.head? = some ('0', id) := by
    rw [withCallNumber, h]
    rfl
  rw [combine852_eq]
  unfold combineLocation
  split_ifs
  · exact hcall
  · obtain ⟨rest', hrest⟩ := List.head?_eq_some_iff.1 hcall
    rw [hrest]
    rfl

end Field852

section Holding

/-- All but the call number and the library. -/
def isOther (s : Char × Option String) : Bool := s.1 ∉ ['h', 'i', 'b']

/-- An `852` as it is sent: the holding's id, the subfields that are not touched, the call number
and the location. -/
structure Sent852 (id : String) (field sent : DataField) : Prop where
  holdingId : sent.subfields.head? = some ('0', some id)
  callNumber : sent.subfields.filter (·.1 = 'h') = [('h', callNumberOf field)]
  noItemPart : ∀ s ∈ sent.subfields, s.1 ≠ 'i'
  location : sent.subfields.filter (·.1 = 'b') = locations field
  others : sent.subfields.filter isOther = ('0', some id) :: field.subfields.filter isOther

/-- A field of the holding as it is sent, with the holding's id. -/
structure SentOf (id : String) (field sent : DataField) : Prop where
  tag : sent.tag = field.tag
  indicators : sent.indicator1 = field.indicator1 ∧ sent.indicator2 = field.indicator2
  same : field.tag ≠ "852" → sent.subfields = ('0', some id) :: field.subfields
  combined : field.tag = "852" → Sent852 id field sent

theorem Sent852.readable {id : String} {field sent : DataField} (h : Sent852 id field sent) :
    Readable sent where
  holdingId := ⟨id, h.holdingId⟩
  callNumber := ⟨_, h.callNumber⟩
  noItemPart := h.noItemPart
  location := by
    rw [get_eq, h.location, locations]
    split_ifs with hlibrary
    · rwa [← get_eq]
    · simp

theorem SentOf.holdingId {id : String} {field sent : DataField} (h : SentOf id field sent) :
    sent.get '0' = some id := by
  have hhead : sent.subfields.head? = some ('0', some id) := by
    by_cases htag : field.tag = "852"
    · exact (h.combined htag).holdingId
    · rw [h.same htag, List.head?_cons]
  obtain ⟨rest, hrest⟩ := List.head?_eq_some_iff.1 hhead
  rw [DataField.get, hrest]
  rfl

def withHoldingId (id : String) (field : DataField) : DataField :=
  { field with subfields := ('0', some id) :: field.subfields }

variable {id : String} {field : DataField} {fields : List MarcField} {sent : List DataField}

theorem sentOf_withHoldingId (h : field.tag ≠ "852") :
    SentOf id field (withHoldingId id field) where
  tag := rfl
  indicators := ⟨rfl, rfl⟩
  same _ := rfl
  combined h' := absurd h' h

theorem get_withHoldingId {code : Char} (hcode : code ≠ '0') :
    (withHoldingId id field).get code = field.get code := by
  rw [get_eq, get_eq, withHoldingId, List.filter_cons_of_neg (by simpa using hcode.symm)]

theorem sent852_combine852 : Sent852 id field (combine852 (withHoldingId id field)) where
  holdingId := head?_combine852 rfl
  callNumber := by
    rw [filter_callNumber, callNumberOf, get_withHoldingId (by decide),
      get_withHoldingId (by decide)]
    rfl
  noItemPart s hs hi := by
    have hmem : s ∈ (combine852 (withHoldingId id field)).subfields.filter (·.1 = 'i') :=
      List.mem_filter.2 ⟨hs, by simpa using hi⟩
    rw [filter_itemPart] at hmem
    cases hmem
  location := by
    rw [filter_location, locations, get_withHoldingId (by decide), get_withHoldingId (by decide)]
    rfl
  others := by
    rw [combine852_eq, filter_combineLocation (by simp [isOther]),
      filter_withCallNumber (by simp [isOther])]
    rfl

theorem sentOf_combine852 (h : field.tag = "852") :
    SentOf id field (combine852 (withHoldingId id field)) where
  tag := tag_combine852
  indicators := by
    rw [combine852_eq]
    unfold combineLocation
    split_ifs <;> exact ⟨rfl, rfl⟩
  same h' := absurd h h'
  combined _ := sent852_combine852

theorem forall₂_prependHoldingId (h : prependHoldingId holding fields = .ok sent) :
    List.Forall₂ (fun original sent =>
      ∃ f, original = .data f ∧ sent = withHoldingId holding.holdingId f) fields sent := by
  obtain ⟨fs, hfs, h⟩ := bind_eq_ok h
  cases h
  refine List.forall₂_map_right_iff.2 ((forall₂_of_mapM hfs).imp ?_)
  rintro (⟨tag, value⟩ | f) f' hf
  · cases hf
  · cases hf
    exact ⟨_, rfl, rfl⟩

/-- The fields of the holding that are sent, in order. -/
def holdingFields (holding : AlmaHolding) : List MarcField :=
  ["852", "856", "866", "867"].flatMap holding.holdingRecord.fieldsWithTag

theorem tag_of_mem_fields {record : MarcRecord} {tag : String} {f : MarcField}
    (h : f ∈ record.fieldsWithTag tag) : f.tag = tag := by
  simpa using (List.mem_filter.1 h).2

/-- A field that is sent comes from a field of the holding. -/
def Sent (holding : AlmaHolding) (original : MarcField) (sent : DataField) : Prop :=
  ∃ f, original = .data f ∧ SentOf holding.holdingId f sent

theorem forall₂_of_tag {tag : String} (htag : tag ≠ "852")
    (h : prependHoldingId holding (holding.holdingRecord.fieldsWithTag tag) = .ok sent) :
    List.Forall₂ (Sent holding) (holding.holdingRecord.fieldsWithTag tag) sent := by
  refine ((List.forall₂_and_left _ _).2
    ⟨fun _ => tag_of_mem_fields, forall₂_prependHoldingId h⟩).imp ?_
  rintro original sent ⟨rfl, f, rfl, rfl⟩
  exact ⟨f, rfl, sentOf_withHoldingId htag⟩

theorem forall₂_enriched852 (h : enriched852 holding = .ok sent) :
    List.Forall₂ (Sent holding) (holding.holdingRecord.fieldsWithTag "852") sent
      ∧ ∃ f ∈ sent, f.tag = "852" := by
  unfold enriched852 at h
  split at h
  · cases h
  · rename_i hne
    obtain ⟨fs, hfs, rfl⟩ := map_eq_ok h
    have hall : List.Forall₂ (Sent holding) (holding.holdingRecord.fieldsWithTag "852")
        (fs.map combine852) := by
      refine List.forall₂_map_right_iff.2 ?_
      refine ((List.forall₂_and_left _ _).2
        ⟨fun _ => tag_of_mem_fields, forall₂_prependHoldingId hfs⟩).imp ?_
      rintro original sent ⟨htag, f, rfl, rfl⟩
      exact ⟨f, rfl, sentOf_combine852 htag⟩
    refine ⟨hall, ?_⟩
    cases hfields : holding.holdingRecord.fieldsWithTag "852" with
    | nil => exact absurd hfields hne
    | cons original rest =>
      have htag := tag_of_mem_fields (hfields ▸ List.mem_cons_self : original ∈ _)
      rw [hfields] at hall
      cases hfs' : fs.map combine852 with
      | nil =>
        rw [hfs'] at hall
        cases hall
      | cons f rest' =>
        rw [hfs'] at hall
        obtain ⟨⟨f', rfl, hf⟩, -⟩ := List.forall₂_cons.1 hall
        exact ⟨f, List.mem_cons_self, hf.tag.trans htag⟩

theorem forall₂_marcRecordEnrichment (h : marcRecordEnrichment holding = .ok sent) :
    List.Forall₂ (Sent holding) (holdingFields holding) sent ∧ ∃ f ∈ sent, f.tag = "852" := by
  obtain ⟨fields852, h852, h⟩ := bind_eq_ok h
  obtain ⟨fields856, h856, h⟩ := bind_eq_ok h
  obtain ⟨fields866, h866, h⟩ := bind_eq_ok h
  obtain ⟨fields867, h867, h⟩ := bind_eq_ok h
  cases h
  obtain ⟨hall, f, hf, htag⟩ := forall₂_enriched852 h852
  refine ⟨?_, f, by simp [hf], htag⟩
  have hrest := List.rel_append (forall₂_of_tag (by decide) h856)
    (List.rel_append (forall₂_of_tag (by decide) h866) (forall₂_of_tag (by decide) h867))
  have heq : holdingFields holding = holding.holdingRecord.fieldsWithTag "852"
      ++ (holding.holdingRecord.fieldsWithTag "856"
        ++ (holding.holdingRecord.fieldsWithTag "866"
          ++ holding.holdingRecord.fieldsWithTag "867")) := by
    simp [holdingFields]
  rw [heq, List.append_assoc, List.append_assoc]
  exact List.rel_append hall hrest

end Holding

section Rendering

def DataField.clean (field : DataField) : DataField :=
  { field with subfields := field.subfields.map fun s => (s.1, s.2.map validXml) }

/-- The field without the characters that XML cannot have in its values. -/
def MarcField.clean : MarcField → MarcField
  | .control tag value => .control tag (validXml value)
  | .data field => .data field.clean

/-- The tag, the indicators and the codes have no such characters. -/
def MarcField.Labelled : MarcField → Prop
  | .control tag _ => ∀ c ∈ tag.toList, isValidXml c = true
  | .data field => (∀ c ∈ field.tag.toList, isValidXml c = true)
    ∧ (isValidXml field.indicator1 = true ∧ isValidXml field.indicator2 = true)
    ∧ ∀ s ∈ field.subfields, isValidXml s.1 = true

instance : ∀ field : MarcField, Decidable field.Labelled
  | .control tag _ => decidable_of_iff (tag.toList.all isValidXml) List.all_eq_true
  | .data field =>
    have : Decidable (∀ c ∈ field.tag.toList, isValidXml c = true) :=
      decidable_of_iff (field.tag.toList.all isValidXml) List.all_eq_true
    inferInstanceAs (Decidable (_ ∧ (_ ∧ _) ∧ ∀ s ∈ _, _))

variable {η : Type} {marcXml : MarcXml η} {field sent : DataField} {xml : String}

/-- The leader, and what tells the fields apart, have no such characters. -/
structure MarcRecord.Labelled (record : MarcRecord) : Prop where
  leader : ∀ c ∈ record.leader.toList, isValidXml c = true
  fields : ∀ field ∈ record.fields, field.Labelled

instance (record : MarcRecord) : Decidable record.Labelled :=
  decidable_of_iff (record.leader.toList.all isValidXml = true
      ∧ ∀ field ∈ record.fields, field.Labelled)
    ⟨fun h => ⟨List.all_eq_true.1 h.1, h.2⟩, fun h => ⟨List.all_eq_true.2 h.leader, h.fields⟩⟩

def MarcRecord.clean (record : MarcRecord) : MarcRecord :=
  { record with fields := record.fields.map MarcField.clean }

/-- The values of the fields stand in the XML one by one, character by character. -/
def WritesValues (marcXml : MarcXml η) : Prop :=
  ∀ (records : List MarcRecord) (xml : String), (∀ record ∈ records, record.Labelled) →
    marcXml.xmlWriter records = .ok xml →
      marcXml.xmlWriter (records.map MarcRecord.clean) = .ok (validXml xml)

/-- The response has this XML, or what is read from it. -/
def Response.Shows (marcXml : MarcXml η) (xml : String) : Response η → Prop
  | .xml body => body = xml
  | .json hashes => ∃ hs, marcXml.xmlReader xml = .ok hs ∧ hashes = .ofList hs
  | _ => False

def Response.HasRecords : Response η → Prop
  | .json _ | .xml _ => True
  | _ => False

theorem shows_of_respondTo {records : List MarcRecord} {wants : Format} {response : Response η}
    (h : respondTo marcXml records wants = .ok response) :
    ∃ xml, marcXml.xmlWriter records = .ok xml ∧ response.Shows marcXml (validXml xml) := by
  cases wants with
  | json =>
    obtain ⟨hashes, hhashes, rfl⟩ := map_eq_ok h
    unfold passRecordsThroughXmlParser at hhashes
    obtain ⟨valid, hvalid, hhashes⟩ := bind_eq_ok hhashes
    obtain ⟨xml, hxml, rfl⟩ := map_eq_ok hvalid
    obtain ⟨hs, hread, hhashes⟩ := bind_eq_ok hhashes
    cases hhashes
    exact ⟨xml, hxml, hs, hread, rfl⟩
  | xml =>
    obtain ⟨valid, hvalid, rfl⟩ := map_eq_ok h
    obtain ⟨xml, hxml, rfl⟩ := map_eq_ok hvalid
    exact ⟨xml, hxml, rfl⟩

theorem mem_validXml {c : Char} :
    c ∈ (validXml xml).toList ↔ c ∈ xml.toList ∧ isValidXml c = true := by
  rw [validXml, String.toList_ofList, List.mem_filter]

theorem filter_clean (code : Char) : field.clean.subfields.filter (·.1 = code)
    = (field.subfields.filter (·.1 = code)).map fun s => (s.1, s.2.map validXml) := by
  rw [DataField.clean, List.filter_map]
  rfl

theorem get_clean (code : Char) : field.clean.get code = (field.get code).map validXml := by
  rw [get_eq, get_eq, filter_clean, List.head?_map]
  cases (field.subfields.filter (·.1 = code)).head? <;> rfl

/-- ReCAP can still read it. -/
theorem Readable.clean (h : Readable field) : Readable field.clean where
  holdingId := by
    obtain ⟨id, hid⟩ := h.holdingId
    refine ⟨validXml id, ?_⟩
    rw [DataField.clean, List.head?_map, hid]
    rfl
  callNumber := by
    obtain ⟨callNumber, hcall⟩ := h.callNumber
    refine ⟨callNumber.map validXml, ?_⟩
    rw [filter_clean, hcall]
    rfl
  noItemPart s hs := by
    obtain ⟨s', hs', rfl⟩ := List.mem_map.1 hs
    exact h.noItemPart s' hs'
  location := by
    have hb := h.location
    rw [get_clean]
    cases hget : field.get 'b' with
    | none => simp [hget] at hb
    | some b =>
      rw [hget] at hb
      exact mem_validXml.2 ⟨hb, by decide⟩

theorem labelled_of_sentOf {id : String} (h : SentOf id field sent)
    (hfield : (MarcField.data field).Labelled) : (MarcField.data sent).Labelled := by
  obtain ⟨htag, hindicators, hcodes⟩ := hfield
  have hprepended : ∀ s ∈ ('0', some id) :: field.subfields, isValidXml s.1 = true :=
    List.forall_mem_cons.2 ⟨rfl, hcodes⟩
  refine ⟨h.tag ▸ htag, h.indicators.1 ▸ h.indicators.2 ▸ hindicators, fun s hs => ?_⟩
  by_cases h852 : field.tag = "852"
  · by_cases hother : isOther s = true
    · have hmem : s ∈ sent.subfields.filter isOther := List.mem_filter.2 ⟨hs, hother⟩
      rw [(h.combined h852).others] at hmem
      refine hprepended s ?_
      exact (List.cons_subset_cons _ (List.filter_subset_self _)) hmem
    · have hcode : s.1 ∈ ['h', 'i', 'b'] := by
        rwa [isOther, decide_eq_true_eq, not_not] at hother
      have hcodes : ∀ code ∈ ['h', 'i', 'b'], isValidXml code = true :=
        List.all_eq_true.1 (by decide)
      exact hcodes s.1 hcode
  · rw [h.same h852] at hs
    exact hprepended s hs

theorem labelled_of_enrichment876 {item876 : DataField}
    (h : enrichment876 upcase item = .ok item876) : (MarcField.data item876).Labelled := by
  obtain ⟨subfields, hsubfields, rfl⟩ := map_eq_ok h
  have htag : ∀ c ∈ "876".toList, isValidXml c = true := List.all_eq_true.1 (by decide)
  refine ⟨htag, ⟨rfl, rfl⟩, ?_⟩
  unfold subfieldsFor876 at hsubfields
  split at hsubfields
  · cases hsubfields
  · rename_i recapFields hrecap
    cases hsubfields
    refine List.forall_mem_append.2 ⟨?_, ?_⟩
    · simp only [List.forall_mem_cons]
      exact ⟨rfl, rfl, rfl, rfl, rfl, by simp⟩
    · unfold RecapItem.recap876Fields at hrecap
      split_ifs at hrecap
      · cases hrecap
        simp
      · obtain ⟨customerCode, -, rfl⟩ := map_eq_ok hrecap
        simp only [List.forall_mem_cons]
        exact ⟨rfl, rfl, rfl, rfl, rfl, rfl, by simp⟩

end Rendering

section Scsb

/-- What is sent of a source record. -/
def kept (field : MarcField) : Bool :=
  field.tag ∉ ["852", "866", "867", "868"] && !nonNumeric true field.tag.toList

/-- The source with what is kept of it, the field of the item and those of the holding. -/
def accessioned (item876 : DataField) (fields : List DataField) (source : MarcRecord) :
    MarcRecord :=
  { source with fields := source.fields.filter kept ++ .data item876 :: fields.map .data }

variable {record sent : MarcRecord} {item876 : DataField} {fields : List DataField}

theorem tag_of_enrichment876 (h : enrichment876 upcase item = .ok item876) :
    item876.tag = "876" ∧ item876.get '0' = some item.holdingId
      ∧ item876.get 'p' = item.barcode := by
  obtain ⟨subfields, hsubfields, rfl⟩ := map_eq_ok h
  unfold subfieldsFor876 at hsubfields
  split at hsubfields
  · cases hsubfields
  · cases hsubfields
    exact ⟨rfl, rfl, rfl⟩

theorem exists_original {originals : List MarcField}
    (h : List.Forall₂ (Sent holding) originals fields) {f : DataField} (hf : f ∈ fields) :
    ∃ original ∈ originals, Sent holding original f := by
  induction h with
  | nil => cases hf
  | cons hsent _ ih =>
    rcases List.mem_cons.1 hf with rfl | hf
    · exact ⟨_, List.mem_cons_self, hsent⟩
    · obtain ⟨original, ho, hsent⟩ := ih hf
      exact ⟨original, List.mem_cons_of_mem _ ho, hsent⟩

theorem tag_of_sent (h : List.Forall₂ (Sent holding) (holdingFields holding) fields) {f : DataField}
    (hf : f ∈ fields) :
    f.tag ∈ ["852", "856", "866", "867"] ∧ f.get '0' = some holding.holdingId
      ∧ (f.tag = "852" → Readable f) := by
  obtain ⟨original, ho, f', rfl, hsent⟩ := exists_original h hf
  obtain ⟨tag, htag, ho⟩ := List.mem_flatMap.1 ho
  refine ⟨?_, hsent.holdingId, fun h => (hsent.combined (hsent.tag ▸ h)).readable⟩
  have htag' : f'.tag = tag := tag_of_mem_fields ho
  rw [hsent.tag, htag']
  exact htag

theorem numeric_of_mem {f : DataField} (h : f.tag ∈ ["852", "856", "866", "867"]) :
    nonNumeric true (MarcField.data f).tag.toList = false := by
  change nonNumeric true f.tag.toList = false
  generalize f.tag = tag at h
  revert tag
  decide

theorem enrich_eq (h : enrich upcase item holding record = .ok sent) :
    ∃ item876 fields, enrichment876 upcase item = .ok item876
      ∧ marcRecordEnrichment holding = .ok fields
      ∧ sent = accessioned item876 fields record := by
  obtain ⟨withItem, hitem, h⟩ := bind_eq_ok h
  obtain ⟨withHolding, hholding, h⟩ := bind_eq_ok h
  obtain ⟨item876, h876, rfl⟩ := map_eq_ok hitem
  obtain ⟨fields, hfields, rfl⟩ := map_eq_ok hholding
  cases h
  refine ⟨item876, fields, h876, hfields, ?_⟩
  have hnumeric : ∀ f ∈ fields.map MarcField.data, !nonNumeric true f.tag.toList := by
    intro f hf
    obtain ⟨f', hf', rfl⟩ := List.mem_map.1 hf
    rw [numeric_of_mem (tag_of_sent (forall₂_marcRecordEnrichment hfields).1 hf').1]
    rfl
  have hitem : [MarcField.data item876].filter kept = [.data item876] := by
    rw [List.filter_cons, if_pos, List.filter_nil]
    unfold kept
    rw [show (MarcField.data item876).tag = "876" from (tag_of_enrichment876 h876).1]
    decide
  have hsource : ∀ fs : List MarcField,
      (fs.filter (·.tag ∉ ["852", "866", "867", "868"])).filter
        (fun f => !nonNumeric true f.tag.toList) = fs.filter kept := by
    intro fs
    rw [List.filter_filter]
    exact List.filter_congr fun field _ => Bool.and_comm _ _
  simp only [stripNonNumeric, deleteConflictingHoldingData, accessioned, MarcRecord.mk.injEq,
    true_and]
  rw [List.filter_append, List.filter_eq_self.2 hnumeric, hsource, List.filter_append, hitem]
  simp

/-- What is sent for the records `sources`: all of them have the one `876` of the item and the same
fields of its holding. -/
structure Accession (upcase : String → String) (item : Item) (holding : AlmaHolding)
    (sources sent : List MarcRecord) (item876 : DataField) (fields : List DataField) : Prop where
  nonempty : sources ≠ []
  records : sent = sources.map (accessioned item876 fields)
  enrichment : enrichment876 upcase item = .ok item876
  barcode : item876.tag = "876" ∧ item876.get 'p' = item.barcode
  holding : List.Forall₂ (Sent holding) (holdingFields holding) fields
  located : ∃ f ∈ fields, f.tag = "852"
  linked : ∀ f ∈ fields, f.get '0' = item876.get '0'
  numeric : ∀ r ∈ sent, ∀ field ∈ r.fields, nonNumeric true field.tag.toList = false
  readable : ∀ r ∈ sent, ∀ field ∈ r.fields, field.tag ∈ ["852", "866", "867", "868"] →
    ∃ f ∈ fields, field = .data f ∧ (f.tag = "852" → Readable f ∧ Readable f.clean)

theorem accession_of_sent {sources sent : List MarcRecord} (hnonempty : sources ≠ [])
    (h876 : enrichment876 upcase item = .ok item876)
    (hfields : marcRecordEnrichment holding = .ok fields)
    (hid : holding.holdingId = item.holdingId)
    (hsent : sent = sources.map (accessioned item876 fields)) :
    Accession upcase item holding sources sent item876 fields := by
  obtain ⟨htag, h0, hp⟩ := tag_of_enrichment876 h876
  obtain ⟨hall, hlocated⟩ := forall₂_marcRecordEnrichment hfields
  have hcases : ∀ r ∈ sent, ∀ field ∈ r.fields, kept field = true ∨ field = .data item876
      ∨ ∃ f ∈ fields, .data f = field := by
    rw [hsent]
    intro r hr field hfield
    obtain ⟨source, -, rfl⟩ := List.mem_map.1 hr
    rcases List.mem_append.1 hfield with hfield | hfield
    · exact .inl (List.mem_filter.1 hfield).2
    · rcases List.mem_cons.1 hfield with hfield | hfield
      · exact .inr (.inl hfield)
      · exact .inr (.inr (List.mem_map.1 hfield))
  have hkept : ∀ field, kept field = true → field.tag ∉ ["852", "866", "867", "868"]
      ∧ nonNumeric true field.tag.toList = false := by
    intro field h
    unfold kept at h
    simpa only [Bool.and_eq_true, decide_eq_true_eq, Bool.not_eq_true'] using h
  refine ⟨hnonempty, hsent, h876, ⟨htag, hp⟩, hall, hlocated, fun f hf => ?_,
    fun r hr field hfield => ?_, fun r hr field hfield htags => ?_⟩
  · rw [h0, ← hid]
    exact (tag_of_sent hall hf).2.1
  · rcases hcases r hr field hfield with h | rfl | ⟨f, hf, rfl⟩
    · exact (hkept field h).2
    · rw [show (MarcField.data item876).tag = "876" from htag]
      decide
    · exact numeric_of_mem (tag_of_sent hall hf).1
  · rcases hcases r hr field hfield with h | rfl | ⟨f, hf, rfl⟩
    · exact absurd htags (hkept field h).1
    · rw [show (MarcField.data item876).tag = "876" from htag] at htags
      simp at htags
    · refine ⟨f, hf, rfl, fun h852 => ?_⟩
      have hreadable := (tag_of_sent hall hf).2.2 h852
      exact ⟨hreadable, hreadable.clean⟩

theorem eq_map_of_mapM_enrich {sources sent : List MarcRecord}
    (h : sources.mapM (enrich upcase item holding) = .ok sent) (hnonempty : sources ≠ []) :
    ∃ item876 fields, enrichment876 upcase item = .ok item876
      ∧ marcRecordEnrichment holding = .ok fields
      ∧ sent = sources.map (accessioned item876 fields) := by
  obtain ⟨source, rest, rfl⟩ := List.exists_cons_of_ne_nil hnonempty
  have hfirst := forall₂_of_mapM h
  cases hfirst with
  | cons hsource hrest =>
    obtain ⟨item876, fields, h876, hfields, -⟩ := enrich_eq hsource
    refine ⟨item876, fields, h876, hfields, eq_map_of_mapM (fun record sent hsent => ?_) h⟩
    obtain ⟨item876', fields', h876', hfields', rfl⟩ := enrich_eq hsent
    rw [h876] at h876'
    rw [hfields] at hfields'
    rw [Except.ok.inj h876', Except.ok.inj hfields']

theorem labelled_of_accession {sources sent : List MarcRecord}
    (h : Accession upcase item holding sources sent item876 fields)
    (hsources : ∀ record ∈ sources, record.Labelled)
    (hfields : ∀ field ∈ holdingFields holding, field.Labelled) :
    ∀ record ∈ sent, record.Labelled := by
  rw [h.records]
  intro r hr
  obtain ⟨source, hsource, rfl⟩ := List.mem_map.1 hr
  refine ⟨(hsources source hsource).leader, fun field hfield => ?_⟩
  rcases List.mem_append.1 hfield with hfield | hfield
  · exact (hsources source hsource).fields field (List.mem_filter.1 hfield).1
  · rcases List.mem_cons.1 hfield with rfl | hfield
    · exact labelled_of_enrichment876 h.enrichment
    · obtain ⟨f, hf, rfl⟩ := List.mem_map.1 hfield
      obtain ⟨_, ho, original, rfl, hsent⟩ := exists_original h.holding hf
      exact labelled_of_sentOf hsent (hfields _ ho)

/-- Where Alma gives the holding that it was asked for, each record sent is one that ReCAP can
read: the item and the fields of its holding are linked, and are the same in all of them. The
response has their XML without the characters that XML cannot have, which is the XML of the records
without them. -/
theorem records_of_scsb {η : Type} {marcXml : MarcXml η} {alma : Alma} {wants : Format}
    {barcode : String} {response : Response η}
    (hid : ∀ mmsId id holding, alma.holdingById mmsId id = .ok holding → holding.holdingId = id)
    (h : scsb upcase alma marcXml wants barcode = .ok response) (hrecords : response.HasRecords) :
    validBarcode barcode = true ∧ ∃ item record holding sources sent item876 fields xml,
      alma.itemByBarcode barcode = .ok item
        ∧ getBibRecord alma item.mmsId true = .ok (some record)
        ∧ alma.holdingById item.mmsId item.holdingId = .ok holding
        ∧ recordsToSend alma record = .ok sources
        ∧ Accession upcase item holding sources sent item876 fields
        ∧ marcXml.xmlWriter sent = .ok xml ∧ response.Shows marcXml (validXml xml)
        ∧ (WritesValues marcXml → (∀ record ∈ sources, record.Labelled) →
          (∀ field ∈ holdingFields holding, field.Labelled) →
            marcXml.xmlWriter (sent.map MarcRecord.clean) = .ok (validXml xml)) := by
  unfold scsb at h
  split_ifs at h with hvalid
  · obtain ⟨item, hitem, h⟩ := bind_eq_ok h
    obtain ⟨found, hfound, h⟩ := bind_eq_ok h
    cases found with
    | none =>
      cases h
      exact hrecords.elim
    | some record =>
      obtain ⟨holding, hholding, h⟩ := bind_eq_ok h
      obtain ⟨sources, hsources, h⟩ := bind_eq_ok h
      obtain ⟨sent, hsent, h⟩ := bind_eq_ok h
      split_ifs at h with hempty
      · cases h
        exact hrecords.elim
      have hnonempty : sources ≠ [] := by
        rintro rfl
        cases hsent
        exact hempty rfl
      obtain ⟨item876, fields, h876, hfields, heq⟩ := eq_map_of_mapM_enrich hsent hnonempty
      have haccession := accession_of_sent hnonempty h876 hfields (hid _ _ _ hholding) heq
      obtain ⟨xml, hxml, hshows⟩ := shows_of_respondTo h
      exact ⟨hvalid, item, record, holding, sources, sent, item876, fields, xml, hitem, hfound,
        hholding, hsources, haccession, hxml, hshows, fun hwrites hlabelled hholdingLabelled =>
          hwrites sent xml (labelled_of_accession haccession hlabelled hholdingLabelled) hxml⟩
  · cases h
    exact hrecords.elim

end Scsb

section Plain

def escape (c : Char) : List Char :=
  if c = '<' then "&lt;".toList
  else if c = '>' then "&gt;".toList
  else if c = '&' then "&amp;".toList
  else if c = '"' then "&quot;".toList
  else [c]

def escaped (s : String) : String := String.ofList (s.toList.flatMap escape)

def attributeXml (a : String × String) : String := " " ++ a.1 ++ "=\"" ++ escaped a.2 ++ "\""

def elementXml (name : String) (attributes : List (String × String)) (content : String) : String :=
  "<" ++ name ++ String.join (attributes.map attributeXml) ++ ">" ++ content ++ "</" ++ name ++ ">"

def subfieldXml (s : Char × Option String) : String :=
  elementXml "subfield" [("code", String.singleton s.1)] (escaped (s.2.getD ""))

def fieldXml : MarcField → String
  | .control tag value => elementXml "controlfield" [("tag", tag)] (escaped value)
  | .data field => elementXml "datafield" [("tag", field.tag),
      ("ind1", String.singleton field.indicator1), ("ind2", String.singleton field.indicator2)]
    (String.join (field.subfields.map subfieldXml))

def recordXml (record : MarcRecord) : String :=
  elementXml "record" [] (elementXml "leader" [] (escaped record.leader)
    ++ String.join (record.fields.map fieldXml))

/-- The XML of the records, on one line. -/
def plainMarcXml : MarcXml String where
  xmlWriter records := .ok (elementXml "collection" [] (String.join (records.map recordXml)))
  xmlReader xml := .ok [xml]

theorem validXml_append (s t : String) : validXml (s ++ t) = validXml s ++ validXml t := by
  simp only [validXml, String.toList_append, List.filter_append, String.ofList_append]

theorem validXml_join (l : List String) :
    validXml (String.join l) = String.join (l.map validXml) := by
  induction l with
  | nil => rfl
  | cons s l ih => rw [String.join_cons, validXml_append, ih, List.map_cons, String.join_cons]

theorem validXml_of_valid {s : String} (h : ∀ c ∈ s.toList, isValidXml c = true) :
    validXml s = s := by
  rw [validXml, List.filter_eq_self.2 h, String.ofList_toList]

theorem valid_escape {c d : Char} (hc : isValidXml c = true) (hd : d ∈ escape c) :
    isValidXml d = true := by
  have hlt : ∀ e ∈ "&lt;".toList, isValidXml e = true := List.all_eq_true.1 (by decide)
  have hgt : ∀ e ∈ "&gt;".toList, isValidXml e = true := List.all_eq_true.1 (by decide)
  have hamp : ∀ e ∈ "&amp;".toList, isValidXml e = true := List.all_eq_true.1 (by decide)
  have hquot : ∀ e ∈ "&quot;".toList, isValidXml e = true := List.all_eq_true.1 (by decide)
  unfold escape at hd
  split_ifs at hd
  · exact hlt d hd
  · exact hgt d hd
  · exact hamp d hd
  · exact hquot d hd
  · rwa [List.mem_singleton.1 hd]

theorem escape_of_invalid {c : Char} (hc : isValidXml c = false) : escape c = [c] := by
  have hmarks : ∀ d ∈ "<>&\"".toList, isValidXml d = true := List.all_eq_true.1 (by decide)
  have hne : ∀ d ∈ "<>&\"".toList, c ≠ d := by
    rintro d hd rfl
    rw [hmarks c hd] at hc
    cases hc
  unfold escape
  rw [if_neg (hne _ (by decide)), if_neg (hne _ (by decide)), if_neg (hne _ (by decide)),
    if_neg (hne _ (by decide))]

theorem filter_escape (c : Char) :
    (escape c).filter isValidXml = if isValidXml c then escape c else [] := by
  split_ifs with hc
  · exact List.filter_eq_self.2 fun d hd => valid_escape hc hd
  · have hc : isValidXml c = false := Bool.eq_false_iff.2 hc
    rw [escape_of_invalid hc, List.filter_cons_of_neg (by simp [hc]), List.filter_nil]

theorem validXml_escaped (s : String) : validXml (escaped s) = escaped (validXml s) := by
  simp only [validXml, escaped, String.toList_ofList]
  refine congrArg String.ofList ?_
  induction s.toList with
  | nil => rfl
  | cons c cs ih =>
    rw [List.flatMap_cons, List.filter_append, ih, filter_escape, List.filter_cons]
    split_ifs
    · rw [List.flatMap_cons]
    · rfl

theorem validXml_label {s : String} (h : ∀ c ∈ s.toList, isValidXml c = true) :
    validXml (escaped s) = escaped s := by
  rw [validXml_escaped, validXml_of_valid h]

theorem validXml_singleton {c : Char} (h : isValidXml c = true) :
    validXml (escaped (String.singleton c)) = escaped (String.singleton c) :=
  validXml_label (by simpa using h)

theorem validXml_markup : ((validXml "<" = "<" ∧ validXml ">" = ">" ∧ validXml "</" = "</")
    ∧ validXml " " = " " ∧ validXml "=\"" = "=\"" ∧ validXml "\"" = "\"")
    ∧ (validXml "collection" = "collection"
      ∧ (validXml "record" = "record" ∧ validXml "leader" = "leader")
      ∧ validXml "controlfield" = "controlfield" ∧ validXml "datafield" = "datafield"
      ∧ validXml "subfield" = "subfield")
    ∧ validXml "tag" = "tag" ∧ validXml "ind1" = "ind1" ∧ validXml "ind2" = "ind2"
    ∧ validXml "code" = "code" := by
  decide +kernel

/-- The name is that of an attribute, and the value has only characters that XML can have. -/
structure IsLabel (a : String × String) : Prop where
  name : validXml a.1 = a.1
  value : validXml (escaped a.2) = escaped a.2

theorem validXml_attributeXml {a : String × String} (h : IsLabel a) :
    validXml (attributeXml a) = attributeXml a := by
  obtain ⟨-, hspace, hequals, hquot⟩ := validXml_markup.1
  unfold attributeXml
  generalize " " = space at hspace
  generalize "=\"" = equals at hequals
  generalize "\"" = quot at hquot
  simp only [validXml_append, hspace, hequals, hquot, h.name, h.value]

theorem validXml_elementXml {name content : String} {attributes : List (String × String)}
    (hname : validXml name = name) (h : ∀ a ∈ attributes, IsLabel a) :
    validXml (elementXml name attributes content)
      = elementXml name attributes (validXml content) := by
  obtain ⟨⟨hlt, hgt, hend⟩, -⟩ := validXml_markup.1
  have hattributes : (attributes.map attributeXml).map validXml = attributes.map attributeXml := by
    rw [List.map_map]
    exact List.map_congr_left fun a ha => validXml_attributeXml (h a ha)
  unfold elementXml
  generalize "<" = lt at hlt
  generalize ">" = gt at hgt
  generalize "</" = start at hend
  simp only [validXml_append, validXml_join, hlt, hgt, hend, hname, hattributes]

theorem validXml_subfieldXml {s : Char × Option String} (h : isValidXml s.1 = true) :
    validXml (subfieldXml s) = subfieldXml (s.1, s.2.map validXml) := by
  obtain ⟨⟨-, -, -, -, hname⟩, -, -, -, hcode⟩ := validXml_markup.2
  have hlabels : ∀ a ∈ [("code", String.singleton s.1)], IsLabel a :=
    List.forall_mem_singleton.2 ⟨hcode, validXml_singleton h⟩
  rw [subfieldXml, validXml_elementXml hname hlabels, validXml_escaped]
  cases s.2 <;> rfl

theorem validXml_fieldXml {field : MarcField} (h : field.Labelled) :
    validXml (fieldXml field) = fieldXml field.clean := by
  obtain ⟨⟨-, -, hcontrol, hdata, -⟩, htag, hind1, hind2, -⟩ := validXml_markup.2
  cases field with
  | control tag value =>
    have hlabels : ∀ a ∈ [("tag", tag)], IsLabel a :=
      List.forall_mem_singleton.2 ⟨htag, validXml_label h⟩
    rw [fieldXml, validXml_elementXml hcontrol hlabels, validXml_escaped]
    rfl
  | data field =>
    obtain ⟨hfieldTag, ⟨hfirst, hsecond⟩, hcodes⟩ := h
    have hsubfields : (field.subfields.map subfieldXml).map validXml
        = field.clean.subfields.map subfieldXml := by
      rw [DataField.clean, List.map_map, List.map_map]
      exact List.map_congr_left fun s hs => validXml_subfieldXml (hcodes s hs)
    rw [fieldXml, validXml_elementXml hdata, validXml_join, hsubfields]
    · rfl
    · simp only [List.forall_mem_cons]
      exact ⟨⟨htag, validXml_label hfieldTag⟩, ⟨hind1, validXml_singleton hfirst⟩,
        ⟨hind2, validXml_singleton hsecond⟩, by simp⟩

theorem validXml_recordXml {record : MarcRecord} (h : record.Labelled) :
    validXml (recordXml record) = recordXml record.clean := by
  obtain ⟨hrecord, hleader⟩ := validXml_markup.2.1.2.1
  have hfields : (record.fields.map fieldXml).map validXml
      = (record.fields.map MarcField.clean).map fieldXml := by
    rw [List.map_map, List.map_map]
    exact List.map_congr_left fun field hf => validXml_fieldXml (h.fields field hf)
  rw [recordXml, validXml_elementXml hrecord (by simp), validXml_append,
    validXml_elementXml hleader (by simp), validXml_label h.leader, validXml_join, hfields]
  rfl

theorem writesValues_plainMarcXml : WritesValues plainMarcXml := by
  rintro records xml hlabelled ⟨⟩
  have hrecords : (records.map recordXml).map validXml
      = (records.map MarcRecord.clean).map recordXml := by
    rw [List.map_map, List.map_map]
    exact List.map_congr_left fun record hr => validXml_recordXml (hlabelled record hr)
  rw [validXml_elementXml validXml_markup.2.1.1 (by simp), validXml_join, hrecords]
  rfl

/-- The record of two items that are bound together on microfiche. -/
def boundItem : Item :=
  { holdingLibrary := "recap", holdingLocation := "pf", mmsId := "99126768656906421",
    holdingId := "22639719450006421", pid := some "23959387670006421",
    barcode := some "32101111979348", copyId := some "0" }

def boundHolding (id : String) : AlmaHolding where
  holdingId := id
  holdingRecord :=
    { leader := "00242cx  a22001213  4500"
      fields := [.control "001" id,
        .data ⟨"852", '8', ' ', [('b', some "recap"), ('c', some "pf"), ('h', some " MICROFICHE"),
          ('i', some "1138")]⟩] }

def boundRecord (id : String) : MarcRecord where
  leader := "01104cam a2200289 i 4500"
  fields := [.control "001" id, .data ⟨"245", '0', '0', [('a', some "Moby 🐋 Dick")]⟩,
      .data ⟨"852", ' ', ' ', [('b', some "old")]⟩, .data ⟨"AVA", ' ', ' ', [('0', some id)]⟩]
    ++ if id = "99126768656906421" then
      [.data ⟨"774", ' ', ' ', [('t', some "A"), ('w', some "996310183506421")]⟩,
       .data ⟨"774", ' ', ' ', [('t', some "B"), ('w', some "996310063506421")]⟩]
    else []

def boundWith : Alma where
  itemByBarcode _ := .ok boundItem
  holdingById _ id := .ok (boundHolding id)
  getBibRecords ids _ := .ok (ids.map boundRecord)

def upcasePf (s : String) : String := if s = "pf" then "PF" else s

/-- Both records of the volume are sent, and the whale in their title is not. -/
theorem accession_boundWith : ∃ xml sent item876 fields,
    scsb upcasePf boundWith plainMarcXml .xml "32101111979348" = .ok (.xml xml)
      ∧ Accession upcasePf boundItem (boundHolding "22639719450006421")
        [boundRecord "996310183506421", boundRecord "996310063506421"] sent item876 fields
      ∧ plainMarcXml.xmlWriter (sent.map MarcRecord.clean) = .ok xml := by
  have hxml : (match scsb upcasePf boundWith plainMarcXml .xml "32101111979348" with
      | .ok (.xml _) => true
      | _ => false) = true := by
    decide +kernel
  have hid : ∀ mmsId id holding, boundWith.holdingById mmsId id = .ok holding →
      holding.holdingId = id := by
    rintro mmsId id holding ⟨⟩
    rfl
  have hfirst : getBibRecord boundWith boundItem.mmsId true
      = .ok (some (boundRecord "99126768656906421")) := by
    rw [getBibRecord, if_pos (by decide)]
    rfl
  have hboth : recordsToSend boundWith (boundRecord "99126768656906421")
      = .ok [boundRecord "996310183506421", boundRecord "996310063506421"] := by
    rfl
  have hlabelled : (∀ record ∈ [boundRecord "996310183506421", boundRecord "996310063506421"],
      record.Labelled)
        ∧ ∀ field ∈ holdingFields (boundHolding "22639719450006421"), field.Labelled := by
    decide +kernel
  split at hxml
  · rename_i xml hscsb
    obtain ⟨-, item, record, holding, sources, sent, item876, fields, written, hitem, hrecord,
      hholding, hsources, haccession, -, hshows, hclean⟩ := records_of_scsb hid hscsb trivial
    cases hitem
    cases hholding
    rw [hfirst] at hrecord
    cases hrecord
    rw [hboth] at hsources
    cases hsources
    refine ⟨xml, sent, item876, fields, hscsb, haccession, ?_⟩
    rw [show xml = validXml written from hshows]
    exact hclean writesValues_plainMarcXml hlabelled.1 hlabelled.2
  · cases hxml

end Plain

end BarcodeController

end Bibdata
