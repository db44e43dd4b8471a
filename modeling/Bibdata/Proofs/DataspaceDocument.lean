import Bibdata.Proofs.Theses

/-!
# A key without values

Of a key that is present without a value the one document keeps an empty list, and the other
nothing (`newDocument_values`, `legacyDocument_values`); the documents have the same id and agree
on every other key. So their Solr documents are equal unless a rule asks for the list rather than
for what is in it (`ofDataspace_eq_iff`).
-/

namespace Bibdata

section Reading

def MetadataField.key : MetadataField → String
  | contributor => "dc.contributor"
  | contributorAdvisor => "dc.contributor.advisor"
  | contributorAuthor => "dc.contributor.author"
  | descriptionAbstract => "dc.description.display"
  | formatExtent => "dc.format.extent"
  | identifierOther => "dc.identifier.other"
  | identifierUri => "dc.identifier.uri"
  | languageIso => "dc.language.iso"
  | rightsAccessRights => "dc.rights.accessRights"
  | title => "dc.title"
  | certificate => "pu.certificate"
  | dateClassyear => "pu.date.classyear"
  | department => "pu.department"
  | embargoLift => "pu.embargo.lift"
  | embargoTerms => "pu.embargo.terms"
  | location => "pu.location"
  | muddWalkin => "pu.mudd.walkin"

theorem MetadataField.ofKey_eq_some {key : String} {field : MetadataField} :
    ofKey key = some field ↔ key = field.key := by
  refine ⟨fun h => ?_, fun h => ?_⟩
  · unfold ofKey at h
    split at h <;> cases h <;> rfl
  · rw [h]
    cases field <;> rfl

theorem modify_id (doc : DataspaceDocument) (key : String)
    (f : Option (List String) → Option (List String)) : (doc.modify key f).id = doc.id := by
  unfold DataspaceDocument.modify
  split <;> rfl

theorem modify_values (doc : DataspaceDocument) (key : String)
    (f : Option (List String) → Option (List String)) (field : MetadataField) :
    (doc.modify key f).values field =
      if key = field.key then f (doc.values field) else doc.values field := by
  unfold DataspaceDocument.modify
  split_ifs with hkey
  · rw [MetadataField.ofKey_eq_some.2 hkey]
    simp only [Function.update_self]
  · split
    · rename_i other hother
      have hne : field ≠ other := by
        rintro rfl
        exact hkey (MetadataField.ofKey_eq_some.1 hother)
      simp only [Function.update_of_ne hne]
    · rfl

def Metadata.values (m : Metadata) (field : MetadataField) : List String :=
  ((m.entries.lookup field.key).getD []).filterMap id

def Metadata.Present (m : Metadata) (field : MetadataField) : Prop :=
  (m.entries.lookup field.key).isSome

/-- There, with no value or only null ones. -/
def Metadata.Valueless (m : Metadata) (field : MetadataField) : Prop :=
  m.Present field ∧ m.values field = []

theorem foldl_withValues_id (entries : List (String × List (Option String)))
    (doc : DataspaceDocument) :
    (entries.foldl (fun doc (key, values) => doc.modify key (withValues values)) doc).id =
      doc.id := by
  induction entries generalizing doc with
  | nil => rfl
  | cons entry entries ih => rw [List.foldl_cons, ih, modify_id]

theorem foldl_withValues (field : MetadataField) (entries : List (String × List (Option String)))
    (doc : DataspaceDocument) (h : (entries.map Prod.fst).Nodup) :
    (entries.foldl (fun doc (key, values) => doc.modify key (withValues values)) doc).values field =
      match entries.lookup field.key with
      | some values => withValues values (doc.values field)
      | none => doc.values field := by
  induction entries generalizing doc with
  | nil => rfl
  | cons entry entries ih =>
    obtain ⟨key, values⟩ := entry
    rw [List.map_cons, List.nodup_cons] at h
    rw [List.foldl_cons, ih _ h.2, modify_values, List.lookup_cons]
    by_cases hkey : key = field.key
    · subst hkey
      have hnone : entries.lookup field.key = none := List.lookup_eq_none_iff.2 fun entry hentry =>
        bne_iff_ne.2 fun heq => h.1 (List.mem_map.2 ⟨entry, hentry, heq.symm⟩)
      rw [hnone, if_pos rfl]
      simp
    · rw [if_neg hkey, beq_false_of_ne (Ne.symm hkey)]

theorem newDocument_values (handle : String) (m : Metadata) (field : MetadataField) :
    (newDocument handle m).values field =
      if (m.entries.lookup field.key).isSome then some (m.values field) else none := by
  rw [newDocument, foldl_withValues field m.entries _ m.nodup, Metadata.values]
  cases m.entries.lookup field.key with
  | none => rfl
  | some values => rfl

/-- The pairs with the key are its values, in their order; the pairs of other keys may stand
between them. -/
def SameValues (m : Metadata) (pairs : List (String × Option String)) : Prop :=
  ∀ key, (pairs.filter (·.1 = key)).map Prod.snd = (m.entries.lookup key).getD []

theorem foldl_withValue_id (pairs : List (String × Option String)) (doc : DataspaceDocument) :
    (pairs.foldl DataspaceDocument.withEntry doc).id = doc.id := by
  induction pairs generalizing doc with
  | nil => rfl
  | cons pair pairs ih =>
    obtain ⟨key, value⟩ := pair
    cases value with
    | none => exact ih doc
    | some value => rw [List.foldl_cons, ih, DataspaceDocument.withEntry, modify_id]

/-- What is added to a list that may not be there yet. -/
def addValues (added : List String) (values : Option (List String)) : Option (List String) :=
  if added = [] then values else some (values.getD [] ++ added)

theorem withValue_addValues (value : String) (added : List String)
    (values : Option (List String)) :
    addValues added (withValue value values) = addValues (value :: added) values := by
  unfold addValues withValue
  by_cases hadded : added = []
  · subst hadded
    cases values <;> rfl
  · cases values <;> simp [hadded]

theorem foldl_withValue (field : MetadataField) (pairs : List (String × Option String))
    (doc : DataspaceDocument) :
    (pairs.foldl DataspaceDocument.withEntry doc).values field =
      addValues (((pairs.filter (·.1 = field.key)).map Prod.snd).filterMap id)
        (doc.values field) := by
  induction pairs generalizing doc with
  | nil => rfl
  | cons pair pairs ih =>
    obtain ⟨key, value⟩ := pair
    rw [List.foldl_cons, ih, List.filter_cons]
    cases value with
    | none => split_ifs <;> rfl
    | some value =>
      rw [DataspaceDocument.withEntry]
      by_cases hkey : key = field.key
      · rw [modify_values, if_pos hkey, withValue_addValues]
        simp [hkey]
      · rw [modify_values, if_neg hkey]
        simp [hkey]

theorem legacyDocument_values (handle : String) {m : Metadata}
    {pairs : List (String × Option String)} (h : SameValues m pairs) (field : MetadataField) :
    (legacyDocument handle pairs).values field =
      if m.values field = [] then none else some (m.values field) := by
  rw [legacyDocument, foldl_withValue, h, ← Metadata.values, addValues]
  rfl

/-- The two documents differ only where the one has an empty list. -/
theorem values_eq_or (handle : String) {m : Metadata} {pairs : List (String × Option String)}
    (h : SameValues m pairs) (field : MetadataField) :
    (newDocument handle m).values field = (legacyDocument handle pairs).values field
      ∧ ¬m.Valueless field
    ∨ (newDocument handle m).values field = some []
      ∧ (legacyDocument handle pairs).values field = none ∧ m.Valueless field := by
  rw [newDocument_values, legacyDocument_values handle h]
  unfold Metadata.Valueless Metadata.Present
  cases hlookup : m.entries.lookup field.key with
  | none =>
    have hempty : m.values field = [] := by
      rw [Metadata.values, hlookup]
      rfl
    simp [hempty]
  | some values =>
    by_cases hempty : m.values field = []
    · simp [hempty]
    · simp [hempty]

theorem newDocument_id (handle : String) (m : Metadata) (pairs : List (String × Option String)) :
    (newDocument handle m).id = (legacyDocument handle pairs).id := by
  rw [newDocument, legacyDocument, foldl_withValues_id, foldl_withValue_id]

end Reading

section Rules

variable (env : ThesisPackages)

/-- The same values, where one may have an empty list and the other none. -/
structure SameUpToEmpty (d d' : DataspaceDocument) : Prop where
  id : d.id = d'.id
  values : ∀ field, d.values field = d'.values field
    ∨ d.values field = some [] ∧ d'.values field = none

variable {env} {d d' : DataspaceDocument}

namespace SameUpToEmpty

variable (h : SameUpToEmpty d d')

include h

theorem getD (field : MetadataField) : (d.values field).getD [] = (d'.values field).getD [] := by
  rcases h.values field with heq | ⟨hd, hd'⟩
  · rw [heq]
  · rw [hd, hd']
    rfl

theorem head (field : MetadataField) :
    (d.values field).bind List.head? = (d'.values field).bind List.head? := by
  rcases h.values field with heq | ⟨hd, hd'⟩
  · rw [heq]
  · rw [hd, hd']
    rfl

theorem embargo : d.embargo env = d'.embargo env := by
  have hraw : rawEmbargoDate (d.values .embargoLift) (d.values .embargoTerms) =
      rawEmbargoDate (d'.values .embargoLift) (d'.values .embargoTerms) := by
    rw [rawEmbargoDate, rawEmbargoDate, h.getD, h.getD]
  simp only [DataspaceDocument.embargo, Embargo.fromDates, embargoText, embargoDate,
    parsedEmbargoDate, hraw, h.id]

theorem walkinIsYes : d.walkinIsYes = d'.walkinIsYes := by
  rw [DataspaceDocument.walkinIsYes, DataspaceDocument.walkinIsYes, h.head]

theorem underEmbargo : UnderEmbargo env d ↔ UnderEmbargo env d' := by
  rw [← embargo_current, ← embargo_current, h.embargo]

theorem hasPhysicalCopy : HasPhysicalCopy d ↔ HasPhysicalCopy d' := by
  rw [HasPhysicalCopy, HasPhysicalCopy, h.getD]

theorem undatedEmbargoNote : d.undatedEmbargoNote = d'.undatedEmbargoNote := by
  rw [DataspaceDocument.undatedEmbargoNote, DataspaceDocument.undatedEmbargoNote, h.id]

theorem callNumber : callNumber (d.values .identifierOther) =
    Bibdata.callNumber (d'.values .identifierOther) := by
  rw [Bibdata.callNumber, Bibdata.callNumber, h.head]

end SameUpToEmpty

/-- The fields that are displayed as they are, or mapped. -/
def shownFields : List MetadataField :=
  [.contributor, .contributorAdvisor, .contributorAuthor, .descriptionAbstract, .formatExtent,
    .certificate, .department]

theorem SameUpToEmpty.values_eq_of_map (h : SameUpToEmpty d d') (field : MetadataField)
    {f : List String → List String} (hfield : (d.values field).map f = (d'.values field).map f) :
    d.values field = d'.values field := by
  rcases h.values field with hsame | ⟨hd, hd'⟩
  · exact hsame
  · rw [hd, hd'] at hfield
    cases hfield

theorem shown_of_ofDataspace_eq (h : SameUpToEmpty d d')
    (heq : SolrDocument.ofDataspace env d = SolrDocument.ofDataspace env d') :
    ∀ field ∈ shownFields, d.values field = d'.values field := by
  intro field hfield
  simp only [shownFields, List.mem_cons, List.not_mem_nil, or_false] at hfield
  rcases hfield with rfl | rfl | rfl | rfl | rfl | rfl | rfl
  · exact congrArg SolrDocument.contributorDisplay heq
  · exact congrArg SolrDocument.advisorDisplay heq
  · exact congrArg SolrDocument.authorDisplay heq
  · exact congrArg SolrDocument.summaryNoteDisplay heq
  · exact congrArg SolrDocument.descriptionDisplay heq
  · exact h.values_eq_of_map _ (congrArg SolrDocument.certificateDisplay heq)
  · exact h.values_eq_of_map _ (congrArg SolrDocument.departmentDisplay heq)

/-- Each place where a thesis can be read is displayed in its own way. -/
theorem availability_of_location (h : d.location env = d'.location env) :
    d.availability env = d'.availability env := by
  unfold DataspaceDocument.location at h
  rcases hd : d.availability env with _ | _ <;> rcases hd' : d'.availability env with _ | _ <;>
    rw [hd, hd'] at h <;> first | rfl | cases h

theorem ofDataspace_eq_of_rules (h : SameUpToEmpty d d')
    (hshown : ∀ field ∈ shownFields, d.values field = d'.values field)
    (havailability : d.availability env = d'.availability env)
    (hnote : d.restrictionsNoteDisplay env = d'.restrictionsNoteDisplay env) :
    SolrDocument.ofDataspace env d = SolrDocument.ofDataspace env d' := by
  have hclassYear : d.classYear = d'.classYear := by
    rw [DataspaceDocument.classYear, DataspaceDocument.classYear, h.getD]
  have htitle : d.firstTitle = d'.firstTitle := h.head _
  have hlanguages : codesToEnglishNames env (d.values .languageIso) =
      codesToEnglishNames env (d'.values .languageIso) := by
    rw [codesToEnglishNames, codesToEnglishNames, h.getD]
  have hsortKey : Bibdata.titleSortKey env (d.values .title) =
      Bibdata.titleSortKey env (d'.values .title) := by
    rw [Bibdata.titleSortKey, Bibdata.titleSortKey, h.head]
  have hauthors : d.allAuthors = d'.allAuthors := by
    simp only [DataspaceDocument.allAuthors, h.getD]
  have hark : d.arkHash env = d'.arkHash env := by
    unfold DataspaceDocument.availability at havailability
    rw [DataspaceDocument.arkHash, DataspaceDocument.arkHash, dataspaceUrlWithMetadata,
      dataspaceUrlWithMetadata, havailability, h.head]
  have hholdings : d.physicalHoldings env = d'.physicalHoldings env := by
    simp only [DataspaceDocument.physicalHoldings, havailability, physicalHoldingString,
      h.callNumber]
  have hcertificate := hshown .certificate (by decide)
  have hdepartment := hshown .department (by decide)
  simp only [SolrDocument.ofDataspace, DataspaceDocument.accessFacet,
    DataspaceDocument.advancedLocation, DataspaceDocument.location,
    DataspaceDocument.locationCode, DataspaceDocument.locationDisplay,
    DataspaceDocument.titleSearchVersions, DataspaceDocument.authorizedCertificates,
    DataspaceDocument.authorizedDepartments, h.id, h.embargo, havailability, hnote, hclassYear,
    htitle, hlanguages, hsortKey, hauthors, hark, hholdings, h.callNumber, hcertificate,
    hdepartment, hshown .contributor (by decide), hshown .contributorAdvisor (by decide),
    hshown .contributorAuthor (by decide), hshown .descriptionAbstract (by decide),
    hshown .formatExtent (by decide)]

/-- Where the Solr documents are told apart: the displayed fields, where the thesis can be read,
and the note. -/
theorem ofDataspace_eq_iff_rules (h : SameUpToEmpty d d') :
    SolrDocument.ofDataspace env d = SolrDocument.ofDataspace env d' ↔
      (∀ field ∈ shownFields, d.values field = d'.values field)
        ∧ d.availability env = d'.availability env
        ∧ d.restrictionsNoteDisplay env = d'.restrictionsNoteDisplay env := by
  constructor
  · intro heq
    exact ⟨shown_of_ofDataspace_eq h heq,
      availability_of_location (congrArg SolrDocument.location heq),
      congrArg SolrDocument.restrictionsNoteDisplay heq⟩
  · rintro ⟨hshown, havailability, hnote⟩
    exact ofDataspace_eq_of_rules h hshown havailability hnote

end Rules

section Metadata

namespace Metadata

variable (env : ThesisPackages) (m : Metadata)

def embargoDate : Option String := (m.values .embargoLift ++ m.values .embargoTerms).head?

def UnderEmbargo : Prop :=
  ∃ date zoned, m.embargoDate = some date ∧ env.parseDatetime date = some (some zoned)
    ∧ env.now < env.timestamp zoned

def Unparsable : Prop := ∃ date, m.embargoDate = some date ∧ env.parseDatetime date = none

def WalkIn : Prop := (m.values .muddWalkin).head? = some "yes"

/-- When both ways build the same. -/
structure BuildsAlike : Prop where
  shown : ∀ field ∈ shownFields, ¬m.Valueless field
  note : m.Valueless .rightsAccessRights → ¬m.WalkIn ∧ ¬m.UnderEmbargo env ∧ ¬m.Unparsable env
  onSite : m.Valueless .location ∨ m.Valueless .rightsAccessRights →
    physicalClassYear (m.values .dateClassyear) = true → ¬m.WalkIn → ¬m.UnderEmbargo env →
    m.values .location ≠ [] ∨ m.values .rightsAccessRights ≠ []

end Metadata

variable {env : ThesisPackages} {m : Metadata} {pairs : List (String × Option String)}

theorem sameUpToEmpty (handle : String) (h : SameValues m pairs) :
    SameUpToEmpty (newDocument handle m) (legacyDocument handle pairs) where
  id := newDocument_id handle m pairs
  values field := by
    rcases values_eq_or handle h field with ⟨heq, -⟩ | ⟨hnew, hlegacy, -⟩
    · exact .inl heq
    · exact .inr ⟨hnew, hlegacy⟩

theorem newDocument_getD (handle : String) (field : MetadataField) :
    ((newDocument handle m).values field).getD [] = m.values field := by
  rw [newDocument_values]
  cases hlookup : m.entries.lookup field.key with
  | none =>
    rw [Metadata.values, hlookup]
    rfl
  | some values => rfl

theorem newDocument_isSome (handle : String) (field : MetadataField) :
    ((newDocument handle m).values field).isSome = (m.entries.lookup field.key).isSome := by
  rw [newDocument_values]
  cases (m.entries.lookup field.key).isSome <;> rfl

theorem legacyDocument_isSome (handle : String) (h : SameValues m pairs) (field : MetadataField) :
    ((legacyDocument handle pairs).values field).isSome = true ↔ m.values field ≠ [] := by
  rw [legacyDocument_values handle h]
  split_ifs with hempty <;> simp [hempty]

theorem embargoDateOf_newDocument (handle : String) :
    embargoDateOf (newDocument handle m) = m.embargoDate := by
  rw [embargoDateOf, rawEmbargoDate, newDocument_getD, newDocument_getD]
  rfl

theorem underEmbargo_newDocument (handle : String) :
    UnderEmbargo env (newDocument handle m) ↔ m.UnderEmbargo env := by
  rw [UnderEmbargo, embargoDateOf_newDocument]
  rfl

theorem unparsable_newDocument (handle : String) :
    Unparsable env (newDocument handle m) ↔ m.Unparsable env := by
  rw [Unparsable, embargoDateOf_newDocument]
  rfl

theorem walkinIsYes_newDocument (handle : String) :
    (newDocument handle m).walkinIsYes = true ↔ m.WalkIn := by
  have hhead (values : Option (List String)) : values.bind List.head? = (values.getD []).head? := by
    cases values <;> rfl
  rw [DataspaceDocument.walkinIsYes, decide_eq_true_eq, hhead, newDocument_getD]
  rfl

theorem hasPhysicalCopy_newDocument (handle : String) :
    HasPhysicalCopy (newDocument handle m) ↔
      physicalClassYear (m.values .dateClassyear) = true := by
  rw [HasPhysicalCopy, newDocument_getD]

/-- What is on site because it is there, and what is because it has a value. -/
theorem onSite_iff_onSite {U P W L L' R R' : Prop} (hL : L' → L) (hR : R' → R) :
    ((U ∨ P ∧ (L ∨ R ∨ W)) ↔ (U ∨ P ∧ (L' ∨ R' ∨ W))) ↔
      (L ∧ ¬L' ∨ R ∧ ¬R' → P → ¬W → ¬U → L' ∨ R') := by
  by_cases hU : U
  · simp [hU]
  · by_cases hP : P
    · by_cases hW : W
      · simp [hU, hP, hW]
      · simp only [hU, hP, hW, false_or, or_false, true_and, not_false_eq_true, true_imp_iff]
        tauto
    · simp [hU, hP]

theorem availability_eq_iff (handle : String) (h : SameValues m pairs) :
    (newDocument handle m).availability env = (legacyDocument handle pairs).availability env ↔
      (m.Valueless .location ∨ m.Valueless .rightsAccessRights →
        physicalClassYear (m.values .dateClassyear) = true → ¬m.WalkIn → ¬m.UnderEmbargo env →
        m.values .location ≠ [] ∨ m.values .rightsAccessRights ≠ []) := by
  have hsame := sameUpToEmpty handle h
  have hnew : (newDocument handle m).availability env = .onSiteOnly ↔
      m.UnderEmbargo env ∨ physicalClassYear (m.values .dateClassyear) = true
        ∧ (m.Present .location ∨ m.Present .rightsAccessRights ∨ m.WalkIn) := by
    rw [availability_onSiteOnly, underEmbargo_newDocument, hasPhysicalCopy_newDocument,
      newDocument_isSome, newDocument_isSome, walkinIsYes_newDocument]
    rfl
  have hlegacy : (legacyDocument handle pairs).availability env = .onSiteOnly ↔
      m.UnderEmbargo env ∨ physicalClassYear (m.values .dateClassyear) = true
        ∧ (m.values .location ≠ [] ∨ m.values .rightsAccessRights ≠ [] ∨ m.WalkIn) := by
    rw [availability_onSiteOnly, ← hsame.underEmbargo, ← hsame.hasPhysicalCopy,
      underEmbargo_newDocument, hasPhysicalCopy_newDocument, legacyDocument_isSome handle h,
      legacyDocument_isSome handle h, ← hsame.walkinIsYes, walkinIsYes_newDocument]
  have hiff : (newDocument handle m).availability env =
        (legacyDocument handle pairs).availability env ↔
      ((newDocument handle m).availability env = .onSiteOnly ↔
        (legacyDocument handle pairs).availability env = .onSiteOnly) := by
    rcases (newDocument handle m).availability env with _ | _ <;>
      rcases (legacyDocument handle pairs).availability env with _ | _ <;> simp
  rw [hiff, hnew, hlegacy]
  simp only [Metadata.Valueless]
  have hpresent (field : MetadataField) (hvalues : m.values field ≠ []) : m.Present field := by
    unfold Metadata.values at hvalues
    unfold Metadata.Present
    cases hlookup : m.entries.lookup field.key with
    | none => simp [hlookup] at hvalues
    | some values => rfl
  have hsplit := onSite_iff_onSite (U := m.UnderEmbargo env)
    (P := physicalClassYear (m.values .dateClassyear) = true) (W := m.WalkIn)
    (hpresent .location) (hpresent .rightsAccessRights)
  simpa only [not_not] using hsplit

theorem note_eq_iff (handle : String) (h : SameValues m pairs) :
    (newDocument handle m).restrictionsNoteDisplay env =
        (legacyDocument handle pairs).restrictionsNoteDisplay env ↔
      (m.Valueless .rightsAccessRights →
        ¬m.WalkIn ∧ ¬m.UnderEmbargo env ∧ ¬m.Unparsable env) := by
  have hsame := sameUpToEmpty handle h
  have hembargo : (newDocument handle m).embargo env = (legacyDocument handle pairs).embargo env :=
    hsame.embargo
  rw [← underEmbargo_newDocument handle, ← unparsable_newDocument handle,
    ← walkinIsYes_newDocument handle, ← embargo_current, ← embargo_invalid]
  rcases values_eq_or handle h .rightsAccessRights with ⟨heq, hnot⟩ | ⟨hnew, hlegacy, hvalueless⟩
  · have hnotes : (newDocument handle m).restrictionsNoteDisplay env =
        (legacyDocument handle pairs).restrictionsNoteDisplay env := by
      rw [DataspaceDocument.restrictionsNoteDisplay, DataspaceDocument.restrictionsNoteDisplay,
        heq, hsame.walkinIsYes, hembargo, hsame.undatedEmbargoNote]
    exact iff_of_true hnotes fun hvalueless => absurd hvalueless hnot
  · rw [DataspaceDocument.restrictionsNoteDisplay, DataspaceDocument.restrictionsNoteDisplay, hnew,
      hlegacy, ← hsame.walkinIsYes, ← hembargo]
    simp only [hvalueless, true_imp_iff, List.head?_nil, Option.map_none]
    -- What the notes say does not matter.
    generalize DataspaceDocument.walkinNote = walkin
    generalize (legacyDocument handle pairs).undatedEmbargoNote = undated
    rcases (newDocument handle m).walkinIsYes with _ | _
    · rcases (newDocument handle m).embargo env with _ | text | _ | _ <;> simp
    · simp

theorem ofDataspace_eq_iff (handle : String) (h : SameValues m pairs) :
    SolrDocument.ofDataspace env (newDocument handle m) =
        SolrDocument.ofDataspace env (legacyDocument handle pairs) ↔
      m.BuildsAlike env := by
  have hfield (field : MetadataField) : (newDocument handle m).values field =
      (legacyDocument handle pairs).values field ↔ ¬m.Valueless field := by
    rcases values_eq_or handle h field with ⟨heq, hnot⟩ | ⟨hnew, hlegacy, hvalueless⟩
    · exact iff_of_true heq hnot
    · rw [hnew, hlegacy]
      simp [hvalueless]
  rw [ofDataspace_eq_iff_rules (sameUpToEmpty handle h), availability_eq_iff handle h,
    note_eq_iff handle h]
  constructor
  · rintro ⟨hshown, honSite, hnote⟩
    exact ⟨fun field hmem => (hfield field).1 (hshown field hmem), hnote, honSite⟩
  · intro halike
    exact ⟨fun field hmem => (hfield field).2 (halike.shown field hmem), halike.onSite,
      halike.note⟩

/-- The access rights and another identifier are null, but there is no embargo, and no one has to
walk in. -/
def nullAside : Metadata where
  entries := [("dc.title", [some "Dysfunction: A Play in One Act"]),
    ("dc.rights.accessRights", [none]), ("dc.identifier.other", [none])]
  nodup := by decide

def nullAsidePairs : List (String × Option String) :=
  [("dc.title", some "Dysfunction: A Play in One Act"), ("dc.rights.accessRights", none),
    ("dc.identifier.other", none)]

theorem sameValues_nullAside : SameValues nullAside nullAsidePairs := by
  intro key
  by_cases htitle : key = "dc.title"
  · rw [htitle]
    rfl
  · by_cases hrights : key = "dc.rights.accessRights"
    · rw [hrights]
      rfl
    · by_cases hother : key = "dc.identifier.other"
      · rw [hother]
        rfl
      · rw [nullAside, List.lookup_cons, beq_false_of_ne htitle, List.lookup_cons,
          beq_false_of_ne hrights, List.lookup_cons, beq_false_of_ne hother]
        simp [nullAsidePairs, Ne.symm htitle, Ne.symm hrights, Ne.symm hother]

theorem ofDataspace_eq_nullAside :
    SolrDocument.ofDataspace plainPackages (newDocument "88435/dsp01b2773v788" nullAside) =
      SolrDocument.ofDataspace plainPackages
        (legacyDocument "88435/dsp01b2773v788" nullAsidePairs) := by
  have hshown : ∀ field ∈ shownFields, (nullAside.entries.lookup field.key).isSome = true →
      field = .title := by
    decide
  have hvalued : ¬nullAside.Valueless .title := fun h => absurd h.2 (by decide)
  have hdate : nullAside.embargoDate = none := by decide
  refine (ofDataspace_eq_iff "88435/dsp01b2773v788" sameValues_nullAside).2
    ⟨fun field hfield hvalueless => ?_, fun _ => ⟨by unfold Metadata.WalkIn; decide, ?_, ?_⟩,
      fun _ hphysical => absurd hphysical (by decide)⟩
  · rw [hshown field hfield hvalueless.1] at hvalueless
    exact hvalued hvalueless
  · rintro ⟨date, zoned, h, -⟩
    rw [hdate] at h
    cases h
  · rintro ⟨date, h, -⟩
    rw [hdate] at h
    cases h

/-- The access rights are null, and the date of the embargo cannot be parsed. -/
def nullRights : Metadata where
  entries := [("dc.rights.accessRights", [none]), ("pu.embargo.lift", [some "unparseable date"])]
  nodup := by decide

/-- The same in the older notation. -/
def nullRightsPairs : List (String × Option String) :=
  [("dc.rights.accessRights", none), ("pu.embargo.lift", some "unparseable date")]

theorem not_ofDataspace_eq_nullRights : SameValues nullRights nullRightsPairs
    ∧ SolrDocument.ofDataspace plainPackages (newDocument "88435/dsp01b2773v788" nullRights)
      ≠ SolrDocument.ofDataspace plainPackages
        (legacyDocument "88435/dsp01b2773v788" nullRightsPairs) := by
  have hsame : SameValues nullRights nullRightsPairs := by
    intro key
    by_cases hrights : key = "dc.rights.accessRights"
    · rw [hrights]
      rfl
    · by_cases hlift : key = "pu.embargo.lift"
      · rw [hlift]
        rfl
      · rw [nullRights, List.lookup_cons, beq_false_of_ne hrights, List.lookup_cons,
          beq_false_of_ne hlift]
        simp [nullRightsPairs, Ne.symm hrights, Ne.symm hlift]
  refine ⟨hsame, fun h => ?_⟩
  have hnote := congrArg SolrDocument.restrictionsNoteDisplay h
  cases hnote

end Metadata

end Bibdata
