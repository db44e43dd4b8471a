import Bibdata.Proofs.PartnerHoldings

/-!
# When the rule that skips private records agrees with the holdings

The rule reads every `$x` of every `876`, as it is written; the holdings read the first `$x` of the
`876`s that name an `852`, trimmed and in lower case.
-/

namespace Bibdata

variable (toLowercase : String → String) (labels : HoldingLocations)

/-- Every `876` that names an `852` is private. -/
def OnlyPrivate (r : Record) : Prop :=
  ∀ f ∈ r.getFields "876", ∀ id, f.firstSubfield '0' = some id → Linked r id →
    isPrivate toLowercase f = true

/-- Some `$x` of some `876` is written just so. -/
def Written (r : Record) (value : String) : Prop := value ∈ r.getFieldValues "876" 'x'

def publicValues : List String := ["Shared", "Committed", "Uncommittable", "Open"]

/-- Where only private items are linked, some `$x` of the record is written `Private` and none is
written as a public group; elsewhere one is written as a public group or none `Private`. -/
structure ReadAlike (r : Record) : Prop where
  private_written : OnlyPrivate toLowercase r → Written r "Private"
  public_unwritten : OnlyPrivate toLowercase r → ∀ value ∈ publicValues, ¬ Written r value
  public_written : ¬ OnlyPrivate toLowercase r → Written r "Private" →
    ∃ value ∈ publicValues, Written r value

section Rule

variable {r : Record}

theorem fromStr_eq_private {s : String} :
    CollectionGroup.fromStr s = some .private ↔ s = "Private" := by
  unfold CollectionGroup.fromStr
  split_ifs with h1 h2 h3 h4 h5 <;> simp_all

theorem fromStr_ne_private {s : String} :
    (∃ g, CollectionGroup.fromStr s = some g ∧ g ≠ .private) ↔ s ∈ publicValues := by
  unfold CollectionGroup.fromStr publicValues
  split_ifs with h1 h2 h3 h4 h5 <;> simp_all

theorem private_mem_collectionGroups : .private ∈ collectionGroups r ↔ Written r "Private" := by
  simp [collectionGroups, Written, fromStr_eq_private]

theorem public_mem_collectionGroups :
    (∃ g ∈ collectionGroups r, g ≠ .private) ↔ ∃ value ∈ publicValues, Written r value := by
  simp only [collectionGroups, Written, List.mem_filterMap, ← fromStr_ne_private]
  constructor
  · rintro ⟨g, ⟨value, hvalue, hg⟩, hne⟩
    exact ⟨value, ⟨g, hg, hne⟩, hvalue⟩
  · rintro ⟨value, ⟨g, hg, hne⟩, hvalue⟩
    exact ⟨g, ⟨value, hvalue, hg⟩, hne⟩

/-- No partner is displayed as `P`. -/
theorem mem_note_iff (partner : RecapPartner) (group : CollectionGroup) :
    'P' ∈ (String.ofList ([partner.displayCode] ++ " - ".toList ++ [group.code])).toList
      ↔ group = .private := by
  cases partner <;> cases group <;> decide

theorem skipsPrivate_iff_groups {partner : RecapPartner} (hscsb : isScsb r = true)
    (hpartner : RecapPartner.tryFrom r = some partner) :
    skipsPrivate r = true
      ↔ collectionGroups r ≠ [] ∧ ∀ g ∈ collectionGroups r, g = .private := by
  have hnotes : recapPartnerNotes r = (collectionGroups r).map fun group =>
      String.ofList ([partner.displayCode] ++ " - ".toList ++ [group.code]) := by
    simp [recapPartnerNotes, hscsb, hpartner]
  unfold skipsPrivate
  rw [hnotes]
  by_cases hnil : collectionGroups r = []
  · simp [hnil]
  · simp only [List.isEmpty_map, List.isEmpty_iff, hnil, if_false, List.map_map,
      Bool.not_eq_true', ne_eq, not_false_eq_true, true_and]
    rw [List.contains_eq_mem, decide_eq_false_iff_not, List.mem_map]
    simp only [Function.comp_apply, decide_eq_false_iff_not, mem_note_iff]
    push Not
    exact Iff.rfl

theorem skipsPrivate_iff_written {partner : RecapPartner} (hscsb : isScsb r = true)
    (hpartner : RecapPartner.tryFrom r = some partner) :
    skipsPrivate r = true
      ↔ Written r "Private" ∧ ∀ value ∈ publicValues, ¬ Written r value := by
  rw [skipsPrivate_iff_groups hscsb hpartner, ← private_mem_collectionGroups]
  have hpublic := not_congr (public_mem_collectionGroups (r := r))
  push Not at hpublic
  rw [← hpublic]
  constructor
  · rintro ⟨hne, hall⟩
    obtain ⟨g, hg⟩ := List.exists_mem_of_ne_nil _ hne
    exact ⟨hall g hg ▸ hg, hall⟩
  · rintro ⟨hmem, hall⟩
    exact ⟨List.ne_nil_of_mem hmem, hall⟩

end Rule

section Holdings

variable {r : Record}

theorem partnerHoldings_eq_nil_iff (hscsb : isScsb r = true) :
    partnerHoldings toLowercase labels r = some [] ↔ OnlyPrivate toLowercase r := by
  obtain ⟨sourceId, hsource⟩ := controlNumber_of_isScsb hscsb
  have hout : partnerHoldings toLowercase labels r
      = some ((r.getFields "852").filterMap (partnerHolding toLowercase labels r sourceId)) := by
    simp [partnerHoldings, hsource]
  rw [hout, Option.some_inj, List.filterMap_eq_nil_iff]
  constructor
  · rintro h f hf id h0 ⟨f852, hf852, hid⟩
    by_contra hvisible
    obtain ⟨hmem, htag⟩ := List.mem_filter.1 hf
    have hshown : f ∈ visibleItems toLowercase r.fields id :=
      (mem_visibleItems toLowercase).2
        ⟨hmem, of_decide_eq_true htag, h0, Bool.eq_false_iff.2 hvisible⟩
    obtain ⟨holding, hholding, -⟩ : ∃ holding,
        partnerHolding toLowercase labels r sourceId f852 = some holding
          ∧ holding.holdingId = id :=
      exists_partnerHolding toLowercase labels hid (List.ne_nil_of_mem hshown)
    rw [h f852 hf852] at hholding
    cases hholding
  · intro h f852 hf852
    cases hid : f852.firstSubfield '0' with
    | none => simp [partnerHolding, hid]
    | some id =>
      refine partnerHolding_eq_none toLowercase labels hid ?_
      rw [List.eq_nil_iff_forall_not_mem]
      intro f hf
      obtain ⟨hmem, htag, h0, hvisible⟩ := (mem_visibleItems toLowercase).1 hf
      have hprivate := h f (List.mem_filter.2 ⟨hmem, by simpa using htag⟩) id h0 ⟨f852, hf852, hid⟩
      rw [hvisible] at hprivate
      cases hprivate

theorem exists_tryFrom (hscsb : isScsb r = true) {code : String} {partner : RecapPartner}
    (hb : (r.getFieldValues "852" 'b').head? = some code)
    (hcode : RecapPartner.fromStr code = some partner)
    (hlinked : ∃ id, Linked r id) : RecapPartner.tryFrom r = some partner := by
  obtain ⟨id, f852, hf852, h0⟩ := hlinked
  obtain ⟨s, hs, rfl⟩ := Option.map_eq_some_iff.1 h0
  have hcode0 : s ∈ f852.subfields.filter (·.code = '0') := by
    rw [List.mem_filter]
    exact ⟨List.mem_of_find?_eq_some hs, by simpa using List.find?_some hs⟩
  have hne : r.getFieldValues "852" '0' ≠ [] :=
    List.ne_nil_of_mem (List.mem_flatMap.2 ⟨f852, hf852, List.mem_map.2 ⟨s, hcode0, rfl⟩⟩)
  simp [RecapPartner.tryFrom, hscsb, hne, hb, hcode]

theorem skipsPrivate_iff_noHoldings (hscsb : isScsb r = true) {code : String}
    {partner : RecapPartner} (hb : (r.getFieldValues "852" 'b').head? = some code)
    (hcode : RecapPartner.fromStr code = some partner)
    (hlinked : ∃ f ∈ r.getFields "876", ∃ id, f.firstSubfield '0' = some id ∧ Linked r id) :
    (skipsPrivate r = true ↔ partnerHoldings toLowercase labels r = some [])
      ↔ ReadAlike toLowercase r := by
  obtain ⟨f, -, id, -, hid⟩ := hlinked
  rw [skipsPrivate_iff_written hscsb (exists_tryFrom hscsb hb hcode ⟨id, hid⟩),
    partnerHoldings_eq_nil_iff toLowercase labels hscsb]
  constructor
  · intro h
    refine ⟨fun honly => (h.2 honly).1, fun honly => (h.2 honly).2, fun hsome hwritten => ?_⟩
    by_contra hnone
    push Not at hnone
    exact hsome (h.1 ⟨hwritten, hnone⟩)
  · intro h
    refine ⟨fun ⟨hwritten, hnone⟩ => ?_, fun honly => ⟨h.private_written honly,
      h.public_unwritten honly⟩⟩
    by_contra hsome
    obtain ⟨value, hvalue, hv⟩ := h.public_written hsome hwritten
    exact hnone value hvalue hv

theorem skipsPrivate_iff_noHoldings_private :
    skipsPrivate (partnerRecord [partnerItem "09887434" "Private"]) = true
      ↔ partnerHoldings lowercaseLetters noLabels
        (partnerRecord [partnerItem "09887434" "Private"]) = some [] := by
  have honly : OnlyPrivate lowercaseLetters (partnerRecord [partnerItem "09887434" "Private"]) := by
    intro f hf _ _ _
    rw [show f = partnerItem "09887434" "Private" from List.mem_singleton.1 hf]
    decide +kernel
  have hb : ((partnerRecord [partnerItem "09887434" "Private"]).getFieldValues "852" 'b').head?
      = some "scsbnypl" := by decide +kernel
  have hcode : RecapPartner.fromStr "scsbnypl" = some .newYorkPublicLibrary := by decide +kernel
  refine (skipsPrivate_iff_noHoldings lowercaseLetters noLabels (by decide +kernel) hb hcode
    ⟨partnerItem "09887434" "Private", by decide +kernel, "09887434", by decide +kernel,
      { tag := "852", subfields := _ }, List.mem_cons_self, rfl⟩).2 ?_
  refine ⟨fun _ => by unfold Written; decide +kernel, fun _ => by unfold Written; decide +kernel,
    fun h => absurd honly h⟩

theorem not_skipsPrivate_iff_noHoldings :
    (skipsPrivate (partnerRecord [partnerItem "09887434" "private"]) = false
      ∧ partnerHoldings lowercaseLetters noLabels
        (partnerRecord [partnerItem "09887434" "private"]) = some [])
    ∧ skipsPrivate (partnerRecord
        [partnerItem "09887434" "Private", partnerItem "09887434" "shared"]) = true
      ∧ partnerHoldings lowercaseLetters noLabels (partnerRecord
        [partnerItem "09887434" "Private", partnerItem "09887434" "shared"]) ≠ some [] := by
  decide +kernel

end Holdings

end Bibdata
