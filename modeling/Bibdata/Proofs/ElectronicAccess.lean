import Bibdata.ElectronicAccess

/-!
# Which links a record keeps

Going through all the links again after each field leaves what going through them once does: under
a holding the last link that names it, and under a URL the labels of the last link to it
(`Collected`). So a link is lost where a later one comes in its place, and the merge raises where
a link names a holding that is not there (`showsLinks_iff`).
-/

namespace Bibdata

open OrderedHash

/-! ### What is collected -/

/-- What the links put under their holdings, in turn. -/
def holdingEntries (links : List ElectronicAccessLink) : List (String × HoldingLink) :=
  links.filterMap fun link => link.holdingId.map (·, ⟨link.urlKey, link.urlLabels⟩)

/-- What the links without a holding put under their URLs, in turn. -/
def bibEntries (links : List ElectronicAccessLink) : List (String × Labels) :=
  links.filterMap fun link =>
    if link.holdingId = none then link.urlKey.map (·, link.urlLabels) else none

/-- What the lines of the record put out. -/
def outputLinks (services : LinkServices) (lines : List Field) : List ElectronicAccessLink :=
  lines.zipIdx.map fun (field, n) =>
    outputLink services n (ElectronicAccessLinkFactory.build services field)

structure Collected (services : LinkServices) (s : AccessLinks) (lines : List Field) : Prop where
  fragmentIndex : s.fragmentIndex = lines.length
  output : s.output = outputLinks services lines
  get_holding856s : ∀ k, s.holding856s.get k = lastSet (holdingEntries s.output) k
  get_solrFieldValues : ∀ k,
    s.solrFieldValues.get k = (lastSet (bibEntries s.output) k).map .labels

section Collect

variable {services : LinkServices} {s : AccessLinks} {lines : List Field} {field : Field}

theorem foldl_indexLink (links : List ElectronicAccessLink) :
    links.foldl indexLink s =
      { s with
        holding856s := s.holding856s.setAll (holdingEntries links)
        solrFieldValues :=
          s.solrFieldValues.setAll ((bibEntries links).map (Prod.map id .labels)) } := by
  induction links generalizing s with
  | nil => rfl
  | cons link links ih =>
    rw [List.foldl_cons, ih, indexLink]
    cases hid : link.holdingId with
    | some id => simp [holdingEntries, bibEntries, hid, setAll]
    | none =>
      cases hkey : link.urlKey with
      | some key => simp [holdingEntries, bibEntries, hid, hkey, setAll]
      | none => simp [holdingEntries, bibEntries, hid, hkey]

/-- Entries that are set again, with more after them, are as if set once. -/
theorem lastSet_again {β : Type*} {es fs : List (String × β)} {k : String} :
    (lastSet (es ++ fs) k).or (lastSet es k) = lastSet (es ++ fs) k := by
  rw [lastSet_append, Option.or_assoc, Option.or_self]

theorem collected_collectField (h : Collected services s lines) :
    Collected services (collectField services s field) (lines ++ [field]) := by
  have hout : (collectField services s field).output = s.output
      ++ [outputLink services s.fragmentIndex
        (ElectronicAccessLinkFactory.build services field)] := by
    simp only [collectField, foldl_indexLink]
  refine ⟨?_, ?_, fun k => ?_, fun k => ?_⟩
  · simp only [collectField, foldl_indexLink, h.fragmentIndex, List.length_append,
      List.length_singleton]
  · rw [hout, h.output, h.fragmentIndex]
    simp [outputLinks, List.zipIdx_append]
  · rw [hout]
    simp only [collectField, foldl_indexLink, get_setAll, h.get_holding856s]
    rw [holdingEntries, List.filterMap_append]
    exact lastSet_again
  · rw [hout]
    simp only [collectField, foldl_indexLink, get_setAll, h.get_solrFieldValues, lastSet_map]
    rw [← Option.map_or, bibEntries, List.filterMap_append]
    exact congrArg _ lastSet_again

theorem collected_foldl (services : LinkServices) (lines : List Field) :
    Collected services (lines.foldl (collectField services) {}) lines := by
  induction lines using List.reverseRecOn with
  | nil => exact ⟨rfl, rfl, fun k => rfl, fun k => rfl⟩
  | append_singleton lines field ih =>
    rw [List.foldl_append]
    exact collected_collectField ih

end Collect

section AccessLinks

variable {services : LinkServices} {r : Record} {u k : String}

theorem colon_of_mem_bibEntries {links : List ElectronicAccessLink} {e : String × Labels}
    (h : e ∈ bibEntries links) : ':' ∈ e.1.toList := by
  obtain ⟨link, -, hlink⟩ := List.mem_filterMap.1 h
  split_ifs at hlink
  obtain ⟨key, hkey, rfl⟩ := Option.map_eq_some_iff.1 hlink
  obtain ⟨url, -, rfl⟩ := Option.map_eq_some_iff.1 hkey
  exact url.colon

theorem ne_of_colon (hu : ':' ∈ u.toList) (hk : ':' ∉ k.toList) : u ≠ k := by
  rintro rfl
  exact hk hu

/-- The links of the record, for the theorems below. -/
def linksOf (services : LinkServices) (r : Record) : List ElectronicAccessLink :=
  outputLinks services (lines856 services r)

theorem get_electronicAccessLinks (hu : ':' ∈ u.toList) :
    (electronicAccessLinks services r).get u
      = (lastSet (bibEntries (linksOf services r)) u).map .labels := by
  obtain ⟨-, hout, -, hget⟩ := collected_foldl services (lines856 services r)
  have h₁ : u ≠ "holding_record_856s" := ne_of_colon hu (by decide)
  have h₂ : u ≠ "iiif_manifest_paths" := ne_of_colon hu (by decide)
  unfold electronicAccessLinks linksOf
  rw [← hout, ← hget u]
  dsimp only
  split_ifs <;> simp [get_set, h₁, h₂]

theorem get_holdingRecord856s :
    (electronicAccessLinks services r).get "holding_record_856s" = none
        ∧ (∀ k, lastSet (holdingEntries (linksOf services r)) k = none)
      ∨ ∃ holding856s : OrderedHash String HoldingLink,
        (electronicAccessLinks services r).get "holding_record_856s" = some (.holdings holding856s)
          ∧ holding856s.entries ≠ []
          ∧ ∀ k, lastSet holding856s.entries k
            = lastSet (holdingEntries (linksOf services r)) k := by
  obtain ⟨-, hout, hget, hbib⟩ := collected_foldl services (lines856 services r)
  have hne : "holding_record_856s" ≠ "iiif_manifest_paths" := by decide
  have hnone : ((lines856 services r).foldl (collectField services) {}).solrFieldValues.get
      "holding_record_856s" = none := by
    rw [hbib, Option.map_eq_none_iff, lastSet_eq_none]
    exact fun e he => ne_of_colon (colon_of_mem_bibEntries he) (by decide)
  unfold electronicAccessLinks linksOf
  rw [← hout]
  dsimp only
  by_cases hempty :
      ((lines856 services r).foldl (collectField services) {}).holding856s.entries = []
  · refine .inl ⟨?_, fun k => ?_⟩
    · rw [hempty]
      split_ifs <;> simp_all [get_set]
    · rw [← hget k]
      exact entries_eq_nil.1 hempty k
  · refine .inr ⟨((lines856 services r).foldl (collectField services) {}).holding856s, ?_, hempty,
      fun k => ?_⟩
    · split_ifs <;> simp_all [get_set]
    · rw [lastSet_entries, hget k]

end AccessLinks

section Merge

variable {η : Type*} {hs hs' : OrderedHash String (HoldingDisplay η)}
  {es : List (String × HoldingLink)} {k : String}

theorem get_addElectronicAccess {e : String × HoldingLink}
    (h : addElectronicAccess hs e = some hs') :
    hs'.get k = (hs.get k).map fun d =>
      { d with
        electronicAccess := (if e.1 = k then some e.2 else none).or d.electronicAccess } := by
  obtain ⟨d, hd, rfl⟩ := Option.map_eq_some_iff.1 h
  rw [get_set]
  by_cases hk : k = e.1
  · subst hk
    simp [hd]
  · simp [hk, Ne.symm hk]

theorem get_foldlM_add (h : es.foldlM addElectronicAccess hs = some hs') :
    hs'.get k = (hs.get k).map fun d =>
      { d with electronicAccess := (lastSet es k).or d.electronicAccess } := by
  induction es generalizing hs with
  | nil =>
    obtain rfl : hs = hs' := by simpa using h
    simp [lastSet]
  | cons e es ih =>
    rw [List.foldlM_cons, Option.bind_eq_bind, Option.bind_eq_some_iff] at h
    obtain ⟨hs₁, h₁, h⟩ := h
    rw [ih h, get_addElectronicAccess h₁, Option.map_map, lastSet_cons]
    simp only [Function.comp_def, Option.or_assoc]

theorem isSome_foldlM_add :
    (es.foldlM addElectronicAccess hs).isSome ↔ ∀ e ∈ es, (hs.get e.1).isSome := by
  induction es generalizing hs with
  | nil => simp
  | cons e es ih =>
    rw [List.foldlM_cons, List.forall_mem_cons, Option.bind_eq_bind]
    cases hadd : addElectronicAccess hs e with
    | none =>
      have hnone : hs.get e.1 = none := by simpa [addElectronicAccess] using hadd
      simp [hnone]
    | some hs₁ =>
      have hsome : (hs.get e.1).isSome := by
        obtain ⟨d, hd, -⟩ := Option.map_eq_some_iff.1 hadd
        simp [hd]
      rw [Option.bind_some, ih, and_iff_right hsome]
      simp [get_addElectronicAccess hadd]

end Merge

section Shows

variable {η : Type*}

/-- The link is in `electronic_access_1display`, or in the `electronic_access` of its holding. -/
def Display.Shows (d : Display η) (link : ElectronicAccessLink) : Prop :=
  (∃ key, link.urlKey = some key
      ∧ d.electronicAccess.bind (·.get key) = some (.labels link.urlLabels))
    ∨ ∃ id, link.holdingId = some id
      ∧ (d.holdings.bind (·.get id)).bind (·.electronicAccess)
        = some ⟨link.urlKey, link.urlLabels⟩

/-- Indexing does not raise, and each `856` with a usable URL shows. -/
def ShowsLinks (services : LinkServices) (toLowercase : String → String)
    (labels : HoldingLocations) (r : Record) : Prop :=
  ∃ d, indexElectronicAccess services toLowercase labels r = some d
    ∧ ∀ n field, (lines856 services r)[n]? = some field → field.tag = "856" →
      (ElectronicAccessLinkFactory.build services field).url.isSome →
        d.Shows (outputLink services n (ElectronicAccessLinkFactory.build services field))

/-- Each holding that a link names is there. -/
def HoldingsThere (services : LinkServices) (r : Record)
    (holdings : Option (OrderedHash String η)) : Prop :=
  ∀ link ∈ linksOf services r, ∀ id, link.holdingId = some id →
    ∃ hs, holdings = some hs ∧ (hs.get id).isSome

/-- The last link that names the holding of this one is the same, or, of the links without a
holding, the last one to its URL has its labels. -/
def LastInPlace (links : List ElectronicAccessLink) (link : ElectronicAccessLink) : Prop :=
  (∃ key, link.urlKey = some key ∧ lastSet (bibEntries links) key = some link.urlLabels)
    ∨ ∃ id, link.holdingId = some id
      ∧ lastSet (holdingEntries links) id = some ⟨link.urlKey, link.urlLabels⟩

def LinksKept (services : LinkServices) (r : Record) : Prop :=
  ∀ n field, (lines856 services r)[n]? = some field → field.tag = "856" →
    (ElectronicAccessLinkFactory.build services field).url.isSome →
      LastInPlace (linksOf services r)
        (outputLink services n (ElectronicAccessLinkFactory.build services field))

variable {services : LinkServices} {r : Record} {holdings : Option (OrderedHash String η)}
  {d : Display η}

theorem mem_holdingEntries {links : List ElectronicAccessLink} {id : String} :
    (∃ e ∈ holdingEntries links, e.1 = id) ↔ ∃ link ∈ links, link.holdingId = some id := by
  simp [holdingEntries]

theorem holdingsThere_iff : HoldingsThere services r holdings ↔
    ∀ e ∈ holdingEntries (linksOf services r), ∃ hs, holdings = some hs ∧ (hs.get e.1).isSome := by
  constructor
  · intro h e he
    obtain ⟨link, hlink, hid⟩ := mem_holdingEntries.1 ⟨e, he, rfl⟩
    exact h link hlink e.1 hid
  · intro h link hlink id hid
    obtain ⟨e, he, rfl⟩ := mem_holdingEntries.2 ⟨link, hlink, hid⟩
    exact h e he

theorem sameKeys_of_lastSet {β : Type*} {es fs : List (String × β)}
    (h : ∀ k, lastSet es k = lastSet fs k) {P : String → Prop} :
    (∀ e ∈ es, P e.1) ↔ ∀ e ∈ fs, P e.1 := by
  have hkeys : ∀ {es fs : List (String × β)}, (∀ k, lastSet es k = lastSet fs k) →
      (∀ e ∈ fs, P e.1) → ∀ e ∈ es, P e.1 := by
    intro es fs h hfs e he
    by_contra hnot
    have hnone : lastSet fs e.1 = none := lastSet_eq_none.2 fun f hf heq => hnot (heq ▸ hfs f hf)
    rw [← h] at hnone
    exact lastSet_eq_none.1 hnone e he rfl
  exact ⟨hkeys fun k => (h k).symm, hkeys h⟩

theorem electronicAccess1display_bind {key : String} :
    (electronicAccess1display services r).bind (·.get key)
      = (electronicAccessLinks services r).get key := by
  unfold electronicAccess1display
  dsimp only
  split_ifs with hempty
  · exact (entries_eq_nil.1 (List.isEmpty_iff.1 hempty) key).symm
  · rfl

/-- Without links of holdings nothing is moved. -/
theorem merge_of_get_none
    (h : (electronicAccessLinks services r).get "holding_record_856s" = none) :
    mergeHolding856s (electronicAccess1display services r) holdings
      = some ⟨electronicAccess1display services r, holdings.map (·.mapValues (⟨·, none⟩))⟩ := by
  rw [← electronicAccess1display_bind] at h
  unfold mergeHolding856s
  cases hbib : electronicAccess1display services r with
  | none => rfl
  | some bib856s =>
    rw [hbib, Option.bind_some] at h
    simp [h]

theorem merge_of_get_some {holding856s : OrderedHash String HoldingLink}
    (h : (electronicAccessLinks services r).get "holding_record_856s"
      = some (.holdings holding856s)) :
    mergeHolding856s (electronicAccess1display services r) holdings
      = (holdings.map (·.mapValues (⟨·, none⟩))).bind fun hs =>
          (holding856s.entries.foldlM addElectronicAccess hs).map fun merged =>
            ⟨some ((electronicAccessLinks services r).erase "holding_record_856s"),
              some merged⟩ := by
  have hsome : electronicAccess1display services r = some (electronicAccessLinks services r) := by
    unfold electronicAccess1display
    dsimp only
    split_ifs with hempty
    · rw [entries_eq_nil.1 (List.isEmpty_iff.1 hempty)] at h
      cases h
    · rfl
  unfold mergeHolding856s
  rw [hsome]
  simp [h]

theorem isSome_merge_iff :
    (mergeHolding856s (electronicAccess1display services r) holdings).isSome
      ↔ HoldingsThere services r holdings := by
  rw [holdingsThere_iff]
  rcases get_holdingRecord856s with ⟨hget, hlast⟩ | ⟨holding856s, hget, hne, hlast⟩
  · rw [merge_of_get_none hget]
    have hnil : ∀ e, e ∉ holdingEntries (linksOf services r) := fun e he =>
      lastSet_eq_none.1 (hlast e.1) e he rfl
    simp [hnil]
  · rw [merge_of_get_some hget, ← sameKeys_of_lastSet hlast
      (P := fun id => ∃ hs, holdings = some hs ∧ (hs.get id).isSome)]
    cases holdings with
    | none =>
      obtain ⟨e, he⟩ := List.exists_mem_of_ne_nil _ hne
      simp only [Option.map_none, Option.bind_none, Option.isSome_none, Bool.false_eq_true,
        false_iff]
      intro h
      obtain ⟨hs, hhs, -⟩ := h e he
      cases hhs
    | some hs => simp [isSome_foldlM_add, get_mapValues]

theorem merge_electronicAccess {key : String} (hkey : ':' ∈ key.toList)
    (h : mergeHolding856s (electronicAccess1display services r) holdings = some d) :
    d.electronicAccess.bind (·.get key)
      = (lastSet (bibEntries (linksOf services r)) key).map .labels := by
  rw [← get_electronicAccessLinks hkey]
  rcases get_holdingRecord856s with ⟨hget, -⟩ | ⟨holding856s, hget, -, -⟩
  · rw [merge_of_get_none hget, Option.some.injEq] at h
    rw [← h, electronicAccess1display_bind]
  · rw [merge_of_get_some hget, Option.bind_eq_some_iff] at h
    obtain ⟨hs, -, h⟩ := h
    obtain ⟨merged, -, rfl⟩ := Option.map_eq_some_iff.1 h
    exact get_erase_of_ne (ne_of_colon hkey (by decide))

theorem merge_holdings {id : String}
    (h : mergeHolding856s (electronicAccess1display services r) holdings = some d) :
    (d.holdings.bind (·.get id)).bind (·.electronicAccess)
      = lastSet (holdingEntries (linksOf services r)) id := by
  have hthere := isSome_merge_iff.1 (Option.isSome_iff_exists.2 ⟨d, h⟩)
  rw [holdingsThere_iff] at hthere
  rcases get_holdingRecord856s with ⟨hget, hlast⟩ | ⟨holding856s, hget, -, hlast⟩
  · rw [merge_of_get_none hget, Option.some.injEq] at h
    rw [hlast, ← h]
    cases holdings with
    | none => rfl
    | some hs => cases hid : hs.get id <;> simp [get_mapValues, hid]
  · rw [merge_of_get_some hget, Option.bind_eq_some_iff] at h
    obtain ⟨hs', hhs', h⟩ := h
    obtain ⟨hs, rfl, rfl⟩ := Option.map_eq_some_iff.1 hhs'
    obtain ⟨merged, hmerged, rfl⟩ := Option.map_eq_some_iff.1 h
    rw [Option.bind_some, get_foldlM_add hmerged, hlast, get_mapValues]
    cases hid : lastSet (holdingEntries (linksOf services r)) id with
    | none => cases hs.get id <;> simp
    | some v =>
      -- a holding that a link names is there
      obtain ⟨_, heq, hsome⟩ := hthere _ (mem_of_lastSet hid)
      cases heq
      obtain ⟨holding, hholding⟩ := Option.isSome_iff_exists.1 hsome
      simp [hholding]

theorem colon_of_urlKey {link : ElectronicAccessLink} {key : String} (h : link.urlKey = some key) :
    ':' ∈ key.toList := by
  obtain ⟨url, -, rfl⟩ := Option.map_eq_some_iff.1 h
  exact url.colon

theorem shows_iff {link : ElectronicAccessLink}
    (h : mergeHolding856s (electronicAccess1display services r) holdings = some d) :
    d.Shows link ↔ LastInPlace (linksOf services r) link := by
  unfold Display.Shows LastInPlace
  refine or_congr (exists_congr fun key => and_congr_right fun hkey => ?_)
    (exists_congr fun id => and_congr_right fun _ => ?_)
  · rw [merge_electronicAccess (colon_of_urlKey hkey) h]
    simp [Option.map_eq_some_iff]
  · rw [merge_holdings h]

/-- URLs of one host, none an ARK of the catalog. -/
def exampleServices : LinkServices where
  url s := if h : ':' ∈ s.toList then some ⟨s, some "example.org", h⟩ else none
  mmsId _ := none
  manifestUrl _ := none
  extracts field := field.tag = "856"
  url_orangelight _ _ _ h := by simp at h
  extracts_856 field h := by simpa using h

def stacksAndReserve : HoldingLocations where
  locationLabel code := if code = "lewis$res" then some "Course Reserve" else some "Stacks"
  libraryLabel _ := some "Lewis Library"

/-- A record with one holding, and these `876`s and `856`s. -/
def linkedRecord (fields : List Field) : Record where
  controlFields := [{ tag := "001", content := "9912345673506421" }]
  fields :=
    { tag := "852"
      subfields := [⟨'8', "22543249720006421"⟩, ⟨'b', "lewis"⟩, ⟨'c', "stacks"⟩] } :: fields

def holdingLink (url : String) : Field where
  tag := "856"
  subfields := [⟨'0', "22543249720006421"⟩, ⟨'u', url⟩]

/-- Two links of one holding. -/
def twoLinks : Record :=
  linkedRecord [holdingLink "https://example.org/a", holdingLink "https://example.org/b"]

/-- A link of a holding whose only item is in a temporary location. -/
def movedHolding : Record :=
  linkedRecord
    [{ tag := "876"
       subfields := [⟨'0', "22543249720006421"⟩, ⟨'a', "23543249720006421"⟩, ⟨'y', "lewis"⟩,
         ⟨'z', "res"⟩] },
      holdingLink "https://example.org/a"]

end Shows

end Bibdata
