import Bibdata.Library.OrderedHash
import Bibdata.Library.Raising
import Bibdata.Proofs.MarcGem

/-!
# What the configuration takes from Rust

Each name of the hash that Rust gives is there once, and the rule that the configuration has for it
takes the kind of value that it has (`IsTaken`). So no rule raises, and each one accumulates what
was found under its name and nothing else (`rustFields_of_solrFields`). The document may have less
and more: repeated values are dropped, and later steps append to `format` and delete
`uniform_130_vern`.
-/

namespace Bibdata

namespace RubyValue

/-- A text or nothing. -/
def isOne : RubyValue → Bool
  | nil | text _ => true
  | _ => false

/-- A list of texts or nothing. -/
def areMany : RubyValue → Bool
  | nil | texts _ => true
  | _ => false

@[simp] theorem isOne_ofText (s : Option String) : (ofText s).isOne := by cases s <;> rfl

@[simp] theorem areMany_ofTexts (ts : Option (List String)) : (ofTexts ts).areMany := by
  cases ts <;> rfl

/-- What a rule accumulates where this was found under its name. -/
def accumulated : RubyValue → Accumulator
  | nil => []
  | text s => [.text s]
  | texts ts => ts.map .text
  | bool b => [.bool b]

end RubyValue

/-- The value is of the kind that the rule for its name takes. -/
inductive IsTaken : String × RubyValue → Prop
  | single {name : String} {value : RubyValue} :
    name ∈ rustSingleValueFields → value.isOne → IsTaken (name, value)
  | multi {name : String} {value : RubyValue} :
    name ∈ rustMultiValueFields → value.areMany → IsTaken (name, value)
  | fast (ts : List String) : IsTaken ("fast_subject_display", .texts ts)
  | numeric (b : Bool) : IsTaken ("numeric_id_b", .bool b)
  | marcxml (s : String) : IsTaken ("marcxml", .text s)

section Kinds

open SolrFields

variable {N : Type} {tools : SolrTools N}

theorem tables_multi :
    ∀ entry ∈ extractedFields ++ trimmedFields, entry.1 ∈ rustMultiValueFields := by
  decide +kernel

theorem isTaken_extracted {r : Record} : ∀ entry ∈ SolrFields.extracted r, IsTaken entry := by
  intro entry hentry
  obtain ⟨field, hfield, rfl⟩ := List.mem_map.1 hentry
  exact .multi (tables_multi field (List.mem_append_left _ hfield)) rfl

theorem isTaken_trimmed {r : Record} : ∀ entry ∈ trimmed tools r, IsTaken entry := by
  intro entry hentry
  obtain ⟨field, hfield, rfl⟩ := List.mem_map.1 hentry
  exact .multi (tables_multi field (List.mem_append_right _ hfield)) rfl

theorem isTaken_titleDisplay {r : Record} : ∀ entry ∈ titleDisplay r, IsTaken entry := by
  intro entry hentry
  obtain ⟨title, -, rfl⟩ := Option.map_eq_some_iff.1 (Option.mem_toList.1 hentry)
  exact .single (by simp [rustSingleValueFields]) rfl

theorem isTaken_text {name s : String} (hname : name ∈ rustSingleValueFields) :
    IsTaken (name, .text s) ↔ True := iff_true_intro (.single hname rfl)

theorem isTaken_ofText {name : String} {s : Option String} (hname : name ∈ rustSingleValueFields) :
    IsTaken (name, .ofText s) ↔ True := iff_true_intro (.single hname (by simp))

theorem isTaken_texts {name : String} {ts : List String} (hname : name ∈ rustMultiValueFields) :
    IsTaken (name, .texts ts) ↔ True := iff_true_intro (.multi hname rfl)

theorem isTaken_ofTexts {name : String} {ts : Option (List String)}
    (hname : name ∈ rustMultiValueFields) : IsTaken (name, .ofTexts ts) ↔ True :=
  iff_true_intro (.multi hname (by simp))

theorem isTaken_fast (ts : List String) : IsTaken ("fast_subject_display", .texts ts) ↔ True :=
  iff_true_intro (.fast ts)

theorem isTaken_numeric (b : Bool) : IsTaken ("numeric_id_b", .bool b) ↔ True :=
  iff_true_intro (.numeric b)

theorem isTaken_fieldsInUse {r : MarctkRecord} {figgy : Option String} :
    ∀ entry ∈ fieldsInUse tools r figgy, IsTaken entry := by
  unfold fieldsInUse
  simp only [List.forall_mem_append, List.forall_mem_cons, List.cons_append, List.append_assoc]
  refine ⟨.single (by simp [rustSingleValueFields]) (by simp), isTaken_extracted, isTaken_trimmed,
    ?_, ?_, isTaken_titleDisplay, ?_, ?_, ?_, ?_, ?_, ?_⟩
  all_goals
    simp (disch := first
      | (unfold rustMultiValueFields; simp; done)
      | (unfold rustSingleValueFields; simp; done)) only
      [contributors, titles, scripts, subjects, identifiers, publication, holdings,
        SolrFields.contents, List.forall_mem_cons, List.not_mem_nil, false_imp_iff, implies_true,
        and_true, isTaken_fast, isTaken_numeric, isTaken_text, isTaken_ofText, isTaken_texts,
        isTaken_ofTexts]

/-- The title is there or is not, and all the other names always are. -/
theorem nodup_names {r : MarctkRecord} {figgy : Option String} :
    ((fieldsInUse tools r figgy ++ wholeRecord tools r).map Prod.fst).Nodup := by
  have htitle : ((titleDisplay r.toRecord).map Prod.fst).Sublist ["title_display"] := by
    unfold titleDisplay
    cases (extractMarcOf .latinOnly ["245abcfghknps"] r.toRecord).head? with
    | none => exact List.nil_sublist _
    | some title => exact List.Sublist.refl _
  have hextracted : (SolrFields.extracted r.toRecord).map Prod.fst
      = extractedFields.map Prod.fst := by
    rw [SolrFields.extracted, List.map_map]
    rfl
  have htrimmed : (trimmed tools r.toRecord).map Prod.fst = trimmedFields.map Prod.fst := by
    rw [trimmed, List.map_map]
    rfl
  simp only [fieldsInUse, contributors, titles, scripts, subjects, identifiers, publication,
    holdings, SolrFields.contents, wholeRecord, List.map_append, List.map_cons, List.map_nil,
    hextracted, htrimmed]
  -- The groups that come after the title stand to its right.
  have hright := fun scripts subjects identifiers publication holdings contents whole names =>
    (((((((htitle.append_left names).append_right scripts).append_right subjects).append_right
      identifiers).append_right publication).append_right holdings).append_right
      contents).append_right whole
  exact (hright _ _ _ _ _ _ _ _).nodup (by decide +kernel)

end Kinds

section Rules

/-- The names that there are rules for. -/
def ruleNames : List String :=
  rustSingleValueFields ++ rustMultiValueFields ++ ["marcxml", "numeric_id_b",
    "fast_subject_facet", "fast_subject_display"]

theorem nodup_ruleNames : ruleNames.Nodup := by decide +kernel

theorem disjoint_rules : List.Disjoint rustSingleValueFields rustMultiValueFields :=
  List.disjoint_of_nodup_append (List.nodup_append.1 nodup_ruleNames).1

variable {name : String} {value : RubyValue}

theorem IsTaken.isOne (h : IsTaken (name, value)) (hname : name ∈ rustSingleValueFields) :
    value.isOne := by
  cases h with
  | single _ hvalue => exact hvalue
  | multi hmulti _ => exact absurd hmulti (disjoint_rules hname)
  | fast _ => simp [rustSingleValueFields] at hname
  | numeric _ => simp [rustSingleValueFields] at hname
  | marcxml _ => simp [rustSingleValueFields] at hname

theorem IsTaken.areMany (h : IsTaken (name, value)) (hname : name ∈ rustMultiValueFields) :
    value.areMany := by
  cases h with
  | single hsingle _ => exact absurd hname (disjoint_rules hsingle)
  | multi _ hvalue => exact hvalue
  | fast _ => rfl
  | numeric _ => simp [rustMultiValueFields] at hname
  | marcxml _ => simp [rustMultiValueFields] at hname

end Rules

section Accumulators

theorem RubyHash.get_cases (hash : RubyHash) (name : String) :
    hash.get name = .nil ∨ (name, hash.get name) ∈ hash := by
  unfold RubyHash.get
  cases hfind : hash.find? (·.1 = name) with
  | none => exact Or.inl rfl
  | some entry =>
    have hname : entry.1 = name := by simpa using List.find?_some hfind
    exact Or.inr (hname ▸ List.mem_of_find?_eq_some hfind)

variable {hash : RubyHash}

theorem RubyHash.get_of_mem (hnodup : (hash.map Prod.fst).Nodup) {name : String}
    {value : RubyValue} (hmem : (name, value) ∈ hash) : hash.get name = value := by
  unfold RubyHash.get
  rw [OrderedHash.find_of_nodup hnodup hmem]
  rfl

/-- What the rules take where each finds the kind of value that it expects. -/
def accumulatorsOf (isScsb : Bool) (hash : RubyHash) : List (String × Accumulator) :=
  (rustSingleValueFields ++ rustMultiValueFields).map
      (fun name => (name, (hash.get name).accumulated))
    ++ [("marcxml", if isScsb then [hash.get "marcxml"] else []),
      ("numeric_id_b", [hash.get "numeric_id_b"]),
      ("fast_subject_facet", (hash.get "fast_subject_display").accumulated),
      ("fast_subject_display", (hash.get "fast_subject_display").accumulated)]

theorem map_fst_accumulatorsOf (isScsb : Bool) :
    (accumulatorsOf isScsb hash).map Prod.fst = ruleNames := by
  rw [accumulatorsOf, List.map_append, List.map_map, ruleNames]
  exact congrArg (· ++ _) (List.map_id _)

variable (htaken : ∀ entry ∈ hash, IsTaken entry)

include htaken

theorem rustSingleValueField_eq {name : String} (hname : name ∈ rustSingleValueFields) :
    rustSingleValueField hash name = (hash.get name).accumulated := by
  have hone : (hash.get name).isOne := by
    rcases hash.get_cases name with hnil | hmem
    · rw [hnil]
      rfl
    · exact (htaken _ hmem).isOne hname
  unfold rustSingleValueField
  cases hget : hash.get name with
  | nil => rfl
  | text s => rfl
  | texts ts => rw [hget] at hone; cases hone
  | bool b => rw [hget] at hone; cases hone

theorem rustMultiValueField_eq {name : String} (hname : name ∈ rustMultiValueFields) :
    rustMultiValueField hash name = some (hash.get name).accumulated := by
  have hmany : (hash.get name).areMany := by
    rcases hash.get_cases name with hnil | hmem
    · rw [hnil]
      rfl
    · exact (htaken _ hmem).areMany hname
  unfold rustMultiValueField
  cases hget : hash.get name with
  | nil => rfl
  | text s => rw [hget] at hmany; cases hmany
  | texts ts => rfl
  | bool b => rw [hget] at hmany; cases hmany

/-- No rule raises. -/
theorem rustFields_eq (isScsb : Bool) {ts : List String}
    (hfast : hash.get "fast_subject_display" = .texts ts) :
    rustFields isScsb hash = some (accumulatorsOf isScsb hash) := by
  have hmulti : rustMultiValueFields.mapM
      (fun name => (rustMultiValueField hash name).map (name, ·))
      = some (rustMultiValueFields.map fun name => (name, (hash.get name).accumulated)) :=
    Raising.mapM_eq_map fun name hname => by
      rw [rustMultiValueField_eq htaken hname, Option.map_some]
  have hsingle : rustSingleValueFields.map (fun name => (name, rustSingleValueField hash name))
      = rustSingleValueFields.map fun name => (name, (hash.get name).accumulated) :=
    List.map_congr_left fun name hname => by rw [rustSingleValueField_eq htaken hname]
  unfold rustFields
  rw [hmulti, hsingle, hfast, accumulatorsOf, List.map_append, hfast]
  rfl

theorem accumulated_mem_accumulatorsOf (isScsb : Bool) (hnodup : (hash.map Prod.fst).Nodup)
    {name : String} {value : RubyValue} (hmem : (name, value) ∈ hash)
    (hmarcxml : name ≠ "marcxml" ∨ isScsb) :
    (name, value.accumulated) ∈ accumulatorsOf isScsb hash := by
  have hget : hash.get name = value := hash.get_of_mem hnodup hmem
  have htables : name ∈ rustSingleValueFields ++ rustMultiValueFields →
      (name, value.accumulated) ∈ accumulatorsOf isScsb hash := fun hname =>
    List.mem_append_left _ (List.mem_map.2 ⟨name, hname, by rw [hget]⟩)
  cases htaken _ hmem with
  | single hname _ => exact htables (List.mem_append_left _ hname)
  | multi hname _ => exact htables (List.mem_append_right _ hname)
  | fast ts => exact List.mem_append_right _ (by simp [hget])
  | numeric b => exact List.mem_append_right _ (by simp [hget, RubyValue.accumulated])
  | marcxml s =>
    have hscsb : isScsb = true := hmarcxml.resolve_left (· rfl)
    exact List.mem_append_right _ (by simp [hget, hscsb, RubyValue.accumulated])

end Accumulators

section Found

variable {hash : RubyHash}

theorem mem_of_accumulated {name : String} (h : (hash.get name).accumulated ≠ []) :
    (name, hash.get name) ∈ hash := by
  refine (hash.get_cases name).resolve_left fun hnil => h ?_
  rw [hnil]
  rfl

/-- Whatever a rule accumulates was found under its name. -/
theorem mem_of_mem_accumulatorsOf {isScsb numeric : Bool} {marcxml : String}
    (hnodup : (hash.map Prod.fst).Nodup) (hnumeric : ("numeric_id_b", .bool numeric) ∈ hash)
    (hmarcxml : ("marcxml", .text marcxml) ∈ hash) {name : String} {found : Accumulator}
    (hmem : (name, found) ∈ accumulatorsOf isScsb hash) (hfound : found ≠ []) :
    name = "fast_subject_facet" ∧ ("fast_subject_display", found) ∈ accumulatorsOf isScsb hash ∨
      ∃ value, (name, value) ∈ hash ∧ found = value.accumulated := by
  rcases List.mem_append.1 hmem with hmem | hmem
  · obtain ⟨name', -, heq⟩ := List.mem_map.1 hmem
    cases heq
    exact Or.inr ⟨_, mem_of_accumulated hfound, rfl⟩
  · simp only [List.mem_cons, Prod.mk.injEq, List.not_mem_nil, or_false] at hmem
    rcases hmem with ⟨rfl, rfl⟩ | ⟨rfl, rfl⟩ | ⟨rfl, rfl⟩ | ⟨rfl, rfl⟩
    · refine Or.inr ⟨_, hmarcxml, ?_⟩
      split_ifs at hfound ⊢
      · rw [hash.get_of_mem hnodup hmarcxml]
        rfl
      · exact absurd rfl hfound
    · refine Or.inr ⟨_, hnumeric, ?_⟩
      rw [hash.get_of_mem hnodup hnumeric]
      rfl
    · exact Or.inl ⟨rfl, List.mem_append_right _ (by simp)⟩
    · exact Or.inr ⟨_, mem_of_accumulated hfound, rfl⟩

open SolrFields

/-- Each name is there once, no rule raises, and the rules accumulate what was found under their
names, and nothing else. -/
theorem rustFields_of_solrFields {N : Type} {tools : SolrTools N} {r : MarctkRecord}
    {hash : RubyHash} (h : solrFields tools r = some hash) (isScsb : Bool) :
    (hash.map Prod.fst).Nodup ∧ ∃ accumulators, rustFields isScsb hash = some accumulators ∧
      (accumulators.map Prod.fst).Nodup ∧
      (∀ name value, (name, value) ∈ hash → name ≠ "marcxml" ∨ isScsb →
        (name, value.accumulated) ∈ accumulators) ∧
      ∀ name found, (name, found) ∈ accumulators → found ≠ [] →
        name = "fast_subject_facet" ∧ ("fast_subject_display", found) ∈ accumulators ∨
          ∃ value, (name, value) ∈ hash ∧ found = value.accumulated := by
  obtain ⟨figgy, -, rfl⟩ := Option.map_eq_some_iff.1 h
  have hnodup : ((fieldsInUse tools r figgy ++ wholeRecord tools r).map Prod.fst).Nodup :=
    nodup_names
  have htaken : ∀ entry ∈ fieldsInUse tools r figgy ++ wholeRecord tools r, IsTaken entry := by
    refine List.forall_mem_append.2 ⟨isTaken_fieldsInUse, ?_⟩
    exact List.forall_mem_cons.2 ⟨.marcxml _,
      List.forall_mem_singleton.2 (.multi (by simp [rustMultiValueFields]) rfl)⟩
  have hfast : ("fast_subject_display", .texts (fastSubjects r.toRecord)) ∈
      fieldsInUse tools r figgy ++ wholeRecord tools r := by
    simp [fieldsInUse, subjects]
  obtain ⟨numeric, hidentifiers⟩ :
      ∃ numeric, ("numeric_id_b", RubyValue.bool numeric) ∈ identifiers tools r.toRecord := by
    simp [identifiers]
  have hnumeric : ("numeric_id_b", RubyValue.bool numeric) ∈
      fieldsInUse tools r figgy ++ wholeRecord tools r := by
    simp [fieldsInUse, hidentifiers]
  have hmarcxml : ("marcxml",
      .text (MarcxmlCompressor.marcxmlCompressed tools.gzip tools.toXmlString r)) ∈
      fieldsInUse tools r figgy ++ wholeRecord tools r := by
    simp [wholeRecord]
  refine ⟨hnodup, accumulatorsOf isScsb _,
    rustFields_eq htaken isScsb (RubyHash.get_of_mem hnodup hfast), ?_, ?_, ?_⟩
  · rw [map_fst_accumulatorsOf]
    exact nodup_ruleNames
  · intro name value hmem hrule
    exact accumulated_mem_accumulatorsOf htaken isScsb hnodup hmem hrule
  · intro name found hmem hfound
    exact mem_of_mem_accumulatorsOf hnodup hnumeric hmarcxml hmem hfound

/-- A record with a title has it under `title_display`. -/
theorem rustFields_withTitle : ∃ accumulators,
    (solrFields MarcGem.plainTools MarcGem.copiedWithoutLocalField).bind (rustFields true)
        = some accumulators
      ∧ ("title_display", [.text "Moby Dick /"]) ∈ accumulators := by
  have hfiggy : SolrFields.figgy1display MarcGem.plainTools
      MarcGem.copiedWithoutLocalField.toRecord = some none := by decide +kernel
  have hhash : solrFields MarcGem.plainTools MarcGem.copiedWithoutLocalField
      = some (fieldsInUse MarcGem.plainTools MarcGem.copiedWithoutLocalField none
        ++ wholeRecord MarcGem.plainTools MarcGem.copiedWithoutLocalField) := by
    rw [solrFields, hfiggy, Option.map_some]
  obtain ⟨-, accumulators, haccumulators, -, hfound, -⟩ := rustFields_of_solrFields hhash true
  refine ⟨accumulators, by rw [hhash, Option.bind_some, haccumulators], ?_⟩
  exact hfound "title_display" (.text "Moby Dick /") (by decide +kernel) (Or.inr rfl)

end Found

end Bibdata
