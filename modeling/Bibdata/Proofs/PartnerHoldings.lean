import Bibdata.PartnerHoldings
import Bibdata.Strings

/-!
# What the holdings of a SCSB record show

The items of a holding are the visible ones among the `876`s that name it, in the order of the
fields (`partnerItems_eq`). Everything else in a holding is read from the `852` or from fields that
are not `876`s, so an `876` that is not visible can change without a trace
(`partnerHoldings_replace`).
-/

namespace Bibdata

variable (toLowercase : String → String) (labels : HoldingLocations)

/-- The first `$x`, trimmed and in lower case, is `private`. -/
def isPrivate (f : Field) : Bool :=
  (f.firstSubfield 'x').any fun x => toLowercase (trim x) = "private"

/-- The `876`s that a holding shows, in their order. -/
def visibleItems (fields : List Field) (id : String) : List Field :=
  fields.filter fun f =>
    f.tag = "876" && fieldHasScsbHoldingId f id && !isPrivate toLowercase f

def Linked (r : Record) (id : String) : Prop :=
  ∃ f852 ∈ r.getFields "852", f852.firstSubfield '0' = some id

def Shown (r : Record) (f : Field) (id : String) : Prop :=
  f.firstSubfield '0' = some id ∧ Linked r id ∧ isPrivate toLowercase f = false

section Items

theorem tryFrom_eq_private {s : String} :
    CollectionGroup.tryFrom toLowercase s = some .private ↔ toLowercase (trim s) = "private" := by
  unfold CollectionGroup.tryFrom
  dsimp only
  generalize toLowercase (trim s) = value
  split_ifs with h1 h2 h3 h4 h5
  all_goals simp_all

theorem cgd_eq_private {f : Field} :
    (PartnerItem.from toLowercase f).cgd = some .private ↔ isPrivate toLowercase f = true := by
  show (f.firstSubfield 'x').bind _ = _ ↔ _
  unfold isPrivate
  cases f.firstSubfield 'x' with
  | none => simp
  | some x => simp [tryFrom_eq_private]

theorem partnerItems_eq (r : Record) (id : String) :
    partnerItems toLowercase r id
      = (visibleItems toLowercase r.fields id).map (PartnerItem.from toLowercase) := by
  unfold partnerItems visibleItems
  induction r.fields with
  | nil => rfl
  | cons f fields ih =>
    rw [List.filter_cons, List.filter_cons]
    cases hlink : f.tag = "876" && fieldHasScsbHoldingId f id
    · simpa using ih
    · cases hprivate : isPrivate toLowercase f
      · have hcgd := mt (cgd_eq_private toLowercase).1 (Bool.eq_false_iff.1 hprivate)
        simp only [if_true, List.filterMap_cons, if_neg hcgd, Bool.not_false, Bool.and_self,
          List.map_cons, ih]
      · have hcgd := (cgd_eq_private toLowercase).2 hprivate
        simpa [hcgd] using ih

theorem mem_visibleItems {fields : List Field} {id : String} {f : Field} :
    f ∈ visibleItems toLowercase fields id
      ↔ f ∈ fields ∧ f.tag = "876" ∧ f.firstSubfield '0' = some id
        ∧ isPrivate toLowercase f = false := by
  simp [visibleItems, fieldHasScsbHoldingId, and_assoc]

theorem visibleItems_split {pre post : List Field} {f : Field} {id : String} :
    visibleItems toLowercase (pre ++ f :: post) id
      = visibleItems toLowercase pre id
        ++ (if f.tag = "876" && fieldHasScsbHoldingId f id && !isPrivate toLowercase f then [f]
          else [])
        ++ visibleItems toLowercase post id := by
  unfold visibleItems
  rw [List.filter_append, List.filter_cons]
  split_ifs <;> simp

end Items

section Holdings

variable {r : Record}

theorem partnerHolding_eq_none {sourceId : String} {f852 : Field} {id : String}
    (h0 : f852.firstSubfield '0' = some id) (h : visibleItems toLowercase r.fields id = []) :
    partnerHolding toLowercase labels r sourceId f852 = none := by
  simp [partnerHolding, h0, partnerItems_eq, h]

theorem partnerHolding_eq_some {sourceId : String} {f852 : Field} {h : PartnerHolding}
    (hh : partnerHolding toLowercase labels r sourceId f852 = some h) :
    f852.firstSubfield '0' = some h.holdingId
      ∧ visibleItems toLowercase r.fields h.holdingId ≠ []
      ∧ h.items = (visibleItems toLowercase r.fields h.holdingId).map
          (PartnerItem.from toLowercase) := by
  obtain ⟨id, h0, hid⟩ := Option.bind_eq_some_iff.1 hh
  dsimp only at hid
  split_ifs at hid with hempty
  rw [← Option.some.inj hid]
  rw [partnerItems_eq, List.isEmpty_iff, List.map_eq_nil_iff] at hempty
  exact ⟨h0, hempty, partnerItems_eq toLowercase r id⟩

theorem exists_partnerHolding {sourceId : String} {f852 : Field} {id : String}
    (h0 : f852.firstSubfield '0' = some id) (h : visibleItems toLowercase r.fields id ≠ []) :
    ∃ holding, partnerHolding toLowercase labels r sourceId f852 = some holding
      ∧ holding.holdingId = id := by
  unfold partnerHolding
  rw [h0, Option.bind_some]
  dsimp only
  rw [if_neg (by simp [partnerItems_eq, h])]
  exact ⟨_, rfl, rfl⟩

end Holdings

section Keyed

variable {α β κ : Type*} [DecidableEq κ] {g : α → Option β} {key : β → κ} {keyOf : α → Option κ}

theorem filter_key_eq_nil (hkey : ∀ x y, g x = some y → keyOf x = some (key y)) {k : κ}
    {xs : List α} (h : k ∉ xs.filterMap keyOf) : (xs.filterMap g).filter (key · = k) = [] := by
  rw [List.filter_eq_nil_iff]
  intro y hy
  obtain ⟨x, hx, hxy⟩ := List.mem_filterMap.1 hy
  have hmem : key y ∈ xs.filterMap keyOf := List.mem_filterMap.2 ⟨x, hx, hkey x y hxy⟩
  rw [decide_eq_true_eq]
  rintro rfl
  exact h hmem

/-- Where keys are not repeated, each is that of one result at most. -/
theorem filter_key_eq_singleton (hkey : ∀ x y, g x = some y → keyOf x = some (key y))
    {xs : List α} (hnodup : (xs.filterMap keyOf).Nodup) {x : α} {y : β} (hx : x ∈ xs)
    (hy : g x = some y) : (xs.filterMap g).filter (key · = key y) = [y] := by
  obtain ⟨as, bs, rfl⟩ := List.append_of_mem hx
  have hx : keyOf x = some (key y) := hkey x y hy
  rw [List.filterMap_append, List.filterMap_cons_some hx] at hnodup
  have has : key y ∉ as.filterMap keyOf := fun hmem =>
    List.disjoint_of_nodup_append hnodup hmem List.mem_cons_self
  have hbs : key y ∉ bs.filterMap keyOf :=
    (List.nodup_cons.1 (List.nodup_append.1 hnodup).2.1).1
  rw [List.filterMap_append, List.filterMap_cons_some hy, List.filter_append,
    filter_key_eq_nil hkey has, List.nil_append, List.filter_cons_of_pos (by simp),
    filter_key_eq_nil hkey hbs]

end Keyed

section Replace

variable {r r' : Record}

theorem textualHoldingsOf_congr {tag id : String} (h : r.getFields tag = r'.getFields tag) :
    textualHoldingsOf r tag id = textualHoldingsOf r' tag id := by
  have hfilter : ∀ r : Record,
      (r.fields.filter fun f => f.tag = tag && fieldHasScsbHoldingId f id)
        = (r.getFields tag).filter (fieldHasScsbHoldingId · id) := by
    intro r
    rw [Record.getFields, List.filter_filter]
    refine List.filter_congr fun f _ => Bool.and_comm _ _
  unfold textualHoldingsOf
  rw [hfilter, hfilter, h]

theorem partnerHoldings_congr (hleader : r.leader = r'.leader)
    (hcontrol : r.controlFields = r'.controlFields)
    (hfields : ∀ tag, tag ≠ "876" → r.getFields tag = r'.getFields tag)
    (hitems : ∀ id, Linked r id →
      visibleItems toLowercase r.fields id = visibleItems toLowercase r'.fields id) :
    partnerHoldings toLowercase labels r = partnerHoldings toLowercase labels r' := by
  have hformats : formats r = formats r' := by
    refine formats_congr hleader hcontrol fun tag htag => hfields tag ?_
    rcases List.mem_pair.1 htag with rfl | rfl <;> decide
  have hholding : ∀ sourceId, ∀ f852 ∈ r.getFields "852",
      partnerHolding toLowercase labels r sourceId f852
        = partnerHolding toLowercase labels r' sourceId f852 := by
    intro sourceId f852 hf
    unfold partnerHolding
    cases h0 : f852.firstSubfield '0' with
    | none => rfl
    | some id =>
      have hid := hitems id ⟨f852, hf, h0⟩
      simp only [Option.bind_some, partnerItems_eq, hid, hformats,
        textualHoldingsOf_congr (hfields "866" (by decide)),
        textualHoldingsOf_congr (hfields "867" (by decide)),
        textualHoldingsOf_congr (hfields "868" (by decide))]
  have h852 := hfields "852" (by decide)
  unfold partnerHoldings Record.controlNumber
  rw [hcontrol, ← h852]
  split
  · rename_i sourceId _
    rw [List.filterMap_congr (hholding sourceId)]
  · rfl

theorem getFields_replace {pre post : List Field} {f f' : Field} {tag : String}
    (hr : r.fields = pre ++ f :: post) (hf : f.tag ≠ tag) (hf' : f'.tag ≠ tag) :
    ({ r with fields := pre ++ f' :: post } : Record).getFields tag = r.getFields tag := by
  unfold Record.getFields
  rw [hr, List.filter_append, List.filter_append, List.filter_cons_of_neg (by simpa using hf'),
    List.filter_cons_of_neg (by simpa using hf)]

theorem visibleItems_replace {pre post : List Field} {f f' : Field} {id : String}
    (hr : r.fields = pre ++ f :: post)
    (hf : f.firstSubfield '0' = some id → isPrivate toLowercase f = true)
    (hf' : f'.firstSubfield '0' = some id → isPrivate toLowercase f' = true) :
    visibleItems toLowercase (pre ++ f' :: post) id = visibleItems toLowercase r.fields id := by
  have hgone : ∀ g : Field, (g.firstSubfield '0' = some id → isPrivate toLowercase g = true) →
      (g.tag = "876" && fieldHasScsbHoldingId g id && !isPrivate toLowercase g) = false := by
    intro g hg
    by_cases h0 : g.firstSubfield '0' = some id
    · simp [hg h0]
    · simp [fieldHasScsbHoldingId, h0]
  rw [hr, visibleItems_split, visibleItems_split, hgone f hf, hgone f' hf']
  rfl

/-- An `876` that is not shown, replaced by one with the same `$0` and, where it is linked, the
same `$x`. -/
theorem partnerHoldings_replace {pre post : List Field} {f f' : Field}
    (hr : r.fields = pre ++ f :: post) (hf : f.tag = "876") (hf' : f'.tag = "876")
    (hhidden : ∀ id, ¬ Shown toLowercase r f id)
    (h0 : f'.firstSubfield '0' = f.firstSubfield '0')
    (hx : f'.firstSubfield 'x' = f.firstSubfield 'x'
      ∨ ∀ id, f.firstSubfield '0' = some id → ¬ Linked r id) :
    partnerHoldings toLowercase labels { r with fields := pre ++ f' :: post }
      = partnerHoldings toLowercase labels r := by
  symm
  refine partnerHoldings_congr toLowercase labels rfl rfl (fun tag htag => ?_) fun id hid => ?_
  · exact (getFields_replace hr (by rw [hf]; exact htag.symm) (by rw [hf']; exact htag.symm)).symm
  · have hprivate : f.firstSubfield '0' = some id → isPrivate toLowercase f = true := by
      intro hlink
      by_contra hvisible
      exact hhidden id ⟨hlink, hid, Bool.eq_false_iff.2 hvisible⟩
    refine (visibleItems_replace toLowercase hr hprivate fun hlink => ?_).symm
    rw [h0] at hlink
    rcases hx with hx | hx
    · have := hprivate hlink
      rwa [isPrivate, ← hx] at this
    · exact absurd hid (hx id hlink)

end Replace

section Shows

variable {r : Record}

/-- What a record shows of its items: each item that is to be shown is at its place in the one
holding of its id, each other can change, and an `852` without visible items has no holding. -/
structure ShowsItems (r : Record) (holdings : List PartnerHolding) : Prop where
  shown : ∀ pre f post, r.fields = pre ++ f :: post → f.tag = "876" →
    ∀ id, Shown toLowercase r f id →
      ∃ holding, holdings.filter (·.holdingId = id) = [holding]
        ∧ holding.items = (visibleItems toLowercase pre id).map (PartnerItem.from toLowercase)
          ++ PartnerItem.from toLowercase f
            :: (visibleItems toLowercase post id).map (PartnerItem.from toLowercase)
  hidden : ∀ pre f post, r.fields = pre ++ f :: post → f.tag = "876" →
    (∀ id, ¬ Shown toLowercase r f id) →
    ∀ f', f'.tag = "876" → f'.firstSubfield '0' = f.firstSubfield '0' →
      (f'.firstSubfield 'x' = f.firstSubfield 'x'
        ∨ ∀ id, f.firstSubfield '0' = some id → ¬ Linked r id) →
      partnerHoldings toLowercase labels { r with fields := pre ++ f' :: post } = some holdings
  empty : ∀ f852 ∈ r.getFields "852", ∀ id, f852.firstSubfield '0' = some id →
    visibleItems toLowercase r.fields id = [] → ∀ holding ∈ holdings, holding.holdingId ≠ id

theorem controlNumber_of_isScsb (h : isScsb r = true) : ∃ n, r.controlNumber = some n := by
  cases hn : r.controlNumber with
  | some n => exact ⟨n, rfl⟩
  | none => simp [isScsb, ControlNumber.ofRecord, hn] at h

theorem partnerHoldings_showsItems (hscsb : isScsb r = true)
    (hdistinct : ((r.getFields "852").filterMap (·.firstSubfield '0')).Nodup) :
    ∃ holdings, partnerHoldings toLowercase labels r = some holdings
      ∧ ShowsItems toLowercase labels r holdings := by
  obtain ⟨sourceId, hsource⟩ := controlNumber_of_isScsb hscsb
  have hout : partnerHoldings toLowercase labels r
      = some ((r.getFields "852").filterMap (partnerHolding toLowercase labels r sourceId)) := by
    simp [partnerHoldings, hsource]
  have hkey : ∀ f852 h, partnerHolding toLowercase labels r sourceId f852 = some h →
      f852.firstSubfield '0' = some h.holdingId :=
    fun f852 h hh => (partnerHolding_eq_some toLowercase labels hh).1
  refine ⟨_, hout, ⟨?_, ?_, ?_⟩⟩
  · rintro pre f post hr htag id ⟨hf0, ⟨f852, hf852, h0⟩, hprivate⟩
    have hmem : f ∈ visibleItems toLowercase r.fields id :=
      (mem_visibleItems toLowercase).2 ⟨by simp [hr], htag, hf0, hprivate⟩
    obtain ⟨holding, hholding, rfl⟩ := exists_partnerHolding toLowercase labels h0
      (List.ne_nil_of_mem hmem)
    refine ⟨holding, filter_key_eq_singleton hkey hdistinct hf852 hholding, ?_⟩
    rw [(partnerHolding_eq_some toLowercase labels hholding).2.2, hr, visibleItems_split,
      if_pos (by simp [htag, hprivate, fieldHasScsbHoldingId, hf0])]
    simp
  · intro pre f post hr htag hhidden f' htag' h0 hx
    rw [partnerHoldings_replace toLowercase labels hr htag htag' hhidden h0 hx, hout]
  · rintro f852 - id - hempty holding hmem rfl
    obtain ⟨f, -, hf⟩ := List.mem_filterMap.1 hmem
    exact (partnerHolding_eq_some toLowercase labels hf).2.1 hempty

def noLabels : HoldingLocations where
  locationLabel _ := none
  libraryLabel _ := none

def partnerItem (id x : String) : Field :=
  { tag := "876", subfields := [⟨'0', id⟩, ⟨'a', "10924375"⟩, ⟨'x', x⟩] }

def partnerRecord (items : List Field) : Record where
  controlFields := [⟨"001", "SCSB-8157262"⟩]
  fields := { tag := "852", subfields := [⟨'0', "09887434"⟩, ⟨'b', "scsbnypl"⟩] } :: items

theorem partnerHoldings_showsItems_shared :
    ∃ holdings, partnerHoldings lowercaseLetters noLabels
        (partnerRecord [partnerItem "09887434" "Shared", partnerItem "09887434" " private"])
          = some holdings
      ∧ ShowsItems lowercaseLetters noLabels
        (partnerRecord [partnerItem "09887434" "Shared", partnerItem "09887434" " private"])
        holdings :=
  partnerHoldings_showsItems lowercaseLetters noLabels (by decide +kernel) (by decide +kernel)

end Shows

end Bibdata
