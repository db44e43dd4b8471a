import Bibdata.Theses

/-!
# A thesis that is said to be under embargo

A thesis is not advertised as open exactly when it can be read on site only (`notAdvertised_iff`).
A current embargo sees to that; a date that cannot be parsed gives the note of an embargo and
nothing else, so there the note and the links agree only if the location and the class year keep
the thesis on site (`consistent_iff`).
-/

namespace Bibdata

variable {env : ThesisPackages}

section Embargo

theorem fromDates_current {lift terms : Option (List String)} {docId : String} :
    (∃ text, Embargo.fromDates env lift terms docId = .current text) ↔
      ∃ date zoned, rawEmbargoDate lift terms = some date
        ∧ env.parseDatetime date = some (some zoned) ∧ env.now < env.timestamp zoned := by
  unfold Embargo.fromDates
  rcases rawEmbargoDate lift terms with _ | date
  · simp
  · rcases hparsed : env.parseDatetime date with _ | _ | zoned
    · simp [hparsed]
    · simp [hparsed]
    · by_cases hlater : env.now < env.timestamp zoned <;> simp [hparsed, hlater]

theorem fromDates_invalid {lift terms : Option (List String)} {docId : String} :
    Embargo.fromDates env lift terms docId = .invalid ↔
      ∃ date, rawEmbargoDate lift terms = some date ∧ env.parseDatetime date = none := by
  unfold Embargo.fromDates
  rcases rawEmbargoDate lift terms with _ | date
  · simp
  · rcases hparsed : env.parseDatetime date with _ | parsed
    · simp [hparsed]
    · by_cases hlater : parsed.any fun zoned => env.now < env.timestamp zoned
      · simp [hparsed, hlater]
      · simp [hparsed, hlater]

variable (env) (doc : DataspaceDocument)

def embargoDateOf : Option String :=
  rawEmbargoDate (doc.values .embargoLift) (doc.values .embargoTerms)

def UnderEmbargo : Prop :=
  ∃ date zoned, embargoDateOf doc = some date ∧ env.parseDatetime date = some (some zoned)
    ∧ env.now < env.timestamp zoned

def Unparsable : Prop :=
  ∃ date, embargoDateOf doc = some date ∧ env.parseDatetime date = none

variable {env doc}

theorem embargo_current : (∃ text, doc.embargo env = .current text) ↔ UnderEmbargo env doc :=
  fromDates_current

theorem embargo_invalid : doc.embargo env = .invalid ↔ Unparsable env doc := fromDates_invalid

end Embargo

section Availability

theorem onSiteOnly_iff {location accessRights muddWalkin : Bool} {classYear : List String}
    {embargo : Embargo} :
    onSiteOnly location accessRights muddWalkin classYear embargo = .onSiteOnly ↔
      (∃ text, embargo = .current text)
        ∨ physicalClassYear classYear = true
          ∧ (location = true ∨ accessRights = true ∨ muddWalkin = true) := by
  unfold onSiteOnly
  rcases embargo with _ | text | _ | _ <;> cases physicalClassYear classYear <;> cases location <;>
    cases accessRights <;> cases muddWalkin <;> simp

variable (env) (doc : DataspaceDocument)

/-- The class year is before that of the first theses without a physical copy. -/
def HasPhysicalCopy : Prop := physicalClassYear ((doc.values .dateClassyear).getD []) = true

variable {env doc}

theorem availability_onSiteOnly :
    doc.availability env = .onSiteOnly ↔
      UnderEmbargo env doc ∨ HasPhysicalCopy doc
        ∧ ((doc.values .location).isSome ∨ (doc.values .rightsAccessRights).isSome
          ∨ doc.walkinIsYes) := by
  rw [DataspaceDocument.availability, onSiteOnly_iff, embargo_current]
  rfl

theorem ne_availableOffSite {availability : ThesisAvailability}
    (h : availability ≠ .onSiteOnly) : availability = .availableOffSite := by
  cases availability with
  | availableOffSite => rfl
  | onSiteOnly => exact absurd rfl h

end Availability

section Advertised

variable (env) (doc : DataspaceDocument)

structure NotAdvertised : Prop where
  access : doc.accessFacet env ≠ some .online
  link : ∀ link, doc.arkHash env = some link → link.linkDescription ≠ some "Full text"
  portfolio : doc.onlinePortfolioStatements env = none

/-- The dated statement of a current embargo, or the undated one. -/
def IsEmbargoStatement (note : String) : Prop :=
  doc.embargo env = .current note ∨ note = doc.undatedEmbargoNote

def Consistent : Prop :=
  (∃ note ∈ (doc.restrictionsNoteDisplay env).getD [], IsEmbargoStatement env doc note) →
    NotAdvertised env doc

/-- What keeps a thesis on site whose note is the undated statement: because its date cannot be
parsed, or because its access rights are that text. -/
structure Guarded : Prop where
  unparsable : Unparsable env doc → doc.values .rightsAccessRights = none →
    doc.walkinIsYes = false → HasPhysicalCopy doc ∧ (doc.values .location).isSome
  rights : ∀ others, doc.values .rightsAccessRights = some (doc.undatedEmbargoNote :: others) →
    UnderEmbargo env doc ∨ HasPhysicalCopy doc

variable {env doc}

theorem notAdvertised_iff : NotAdvertised env doc ↔ doc.availability env = .onSiteOnly := by
  constructor
  · intro h
    by_contra hnot
    have hoff := ne_availableOffSite hnot
    rw [availability_onSiteOnly, not_or] at hnot
    refine h.access ?_
    unfold DataspaceDocument.accessFacet
    rw [hoff]
    rcases hembargo : doc.embargo env with _ | text | _ | _
    · rfl
    · exact absurd (embargo_current.1 ⟨text, hembargo⟩) hnot.1
    · rfl
    · rfl
  · intro h
    refine ⟨?_, fun link hlink => ?_, ?_⟩
    · unfold DataspaceDocument.accessFacet
      rw [h]
      rcases doc.embargo env with _ | text | _ | _ <;> simp
    · unfold DataspaceDocument.arkHash dataspaceUrlWithMetadata at hlink
      unfold DataspaceDocument.availability at h
      rw [h] at hlink
      obtain ⟨ark, -, rfl⟩ := Option.map_eq_some_iff.1 hlink
      simp
    · unfold DataspaceDocument.onlinePortfolioStatements
      rw [h]

theorem head?_append {s t : String} {c : Char} (h : s.toList.head? = some c) :
    (s ++ t).toList.head? = some c := by
  rw [String.toList_append, List.head?_append, h, Option.some_or]

theorem walkinNote_ne : DataspaceDocument.walkinNote ≠ doc.undatedEmbargoNote := by
  have hwalkin : DataspaceDocument.walkinNote.toList.head? = some 'W' :=
    head?_append (by decide +kernel)
  have hundated : doc.undatedEmbargoNote.toList.head? = some 'T' :=
    head?_append (head?_append (head?_append (by decide +kernel)))
  intro h
  rw [h, hundated] at hwalkin
  cases hwalkin

theorem consistent_iff : Consistent env doc ↔ Guarded env doc := by
  unfold Consistent
  rw [notAdvertised_iff, availability_onSiteOnly]
  constructor
  · intro h
    refine ⟨fun hinvalid hrights hwalkin => ?_, fun others hrights => ?_⟩
    · have hnote : doc.restrictionsNoteDisplay env = some [doc.undatedEmbargoNote] := by
        simp [DataspaceDocument.restrictionsNoteDisplay, hrights, hwalkin,
          embargo_invalid.2 hinvalid]
      rcases h ⟨_, by simp [hnote], .inr rfl⟩ with hcurrent | ⟨hphysical, honSite⟩
      · obtain ⟨text, htext⟩ := embargo_current.2 hcurrent
        rw [embargo_invalid.2 hinvalid] at htext
        cases htext
      · refine ⟨hphysical, ?_⟩
        simpa [hrights, hwalkin] using honSite
    · have hnote : doc.restrictionsNoteDisplay env = some [doc.undatedEmbargoNote] := by
        simp [DataspaceDocument.restrictionsNoteDisplay, hrights]
      rcases h ⟨_, by simp [hnote], .inr rfl⟩ with hcurrent | ⟨hphysical, -⟩
      · exact .inl hcurrent
      · exact .inr hphysical
  · rintro h ⟨note, hnote, hstatement⟩
    rcases hstatement with hcurrent | rfl
    · exact .inl (embargo_current.1 ⟨note, hcurrent⟩)
    · rcases hrights : doc.values .rightsAccessRights with _ | _ | ⟨first, others⟩
      · rcases hwalkin : doc.walkinIsYes with _ | _
        · simp only [DataspaceDocument.restrictionsNoteDisplay, hrights, hwalkin] at hnote
          rcases hembargo : doc.embargo env with _ | text | _ | _
          · simp [hembargo] at hnote
          · exact .inl (embargo_current.1 ⟨text, hembargo⟩)
          · simp [hembargo] at hnote
          · obtain ⟨hphysical, hlocation⟩ :=
              h.unparsable (embargo_invalid.1 hembargo) hrights hwalkin
            exact .inr ⟨hphysical, .inl hlocation⟩
        · simp only [DataspaceDocument.restrictionsNoteDisplay, hrights, hwalkin, if_true,
            Option.getD_some, List.mem_singleton] at hnote
          exact absurd hnote.symm walkinNote_ne
      · simp [DataspaceDocument.restrictionsNoteDisplay, hrights] at hnote
      · simp only [DataspaceDocument.restrictionsNoteDisplay, hrights, List.head?_cons,
          Option.map_some, Option.getD_some, List.mem_singleton] at hnote
        rw [← hnote] at hrights
        rcases h.rights others hrights with hcurrent | hphysical
        · exact .inl hcurrent
        · exact .inr ⟨hphysical, .inr (.inl rfl)⟩

def plainPackages : ThesisPackages where
  Zoned := ℤ
  parseDatetime _ := none
  timestamp := id
  now := 0
  strftime := toString
  languageName _ := none
  toLowercase s := String.ofList (s.toList.map Char.toLower)
  isAlphanumeric := Char.isAlphanum
  serde := .compact

/-- A thesis of 2014 whose embargo has no date. -/
def undatedThesis : DataspaceDocument where
  id := some "dsp01b2773v788"
  values
    | .embargoTerms => some ["unparseable date"]
    | .dateClassyear => some ["2014"]
    | .identifierUri => some ["http://arks.princeton.edu/ark:/88435/dsp01b2773v788"]
    | _ => none

theorem not_consistent_undatedThesis : ¬Consistent plainPackages undatedThesis := by
  intro h
  have hno := (h ⟨undatedThesis.undatedEmbargoNote, List.mem_singleton_self _, .inr rfl⟩).access
  exact hno rfl

end Advertised

end Bibdata
