import Bibdata.FiggyReport
import Bibdata.Library.AnyOrder

/-!
# What is linked of a report

What is kept of a report says nothing of the items that are not open, whatever is looked up in it
and in whatever order. A manifest is only looked for in the first item with the ark, under the MMS
id that comes first: so an item with a manifest is not enough where another comes before it
(`linksOpenItems_iff`).
-/

namespace Bibdata

variable {N : Type}

section Open

def isOpen (json : JsonValue N) : Bool := Visibility.ofJson json = .«open»

def openItems (items : FiggyItems N) : FiggyItems N := items.filter isOpen

/-- An open item of the report. -/
def Listed (full : FiggyMmsIdCache N) (item : JsonValue N) : Prop :=
  ∃ entry ∈ full.entries, item ∈ entry.2 ∧ isOpen item = true

/-- Two reports with the same open items, MMS id by MMS id. -/
def SameOpen (full other : FiggyMmsIdCache N) : Prop :=
  ∀ mmsId, openItems ((full.get mmsId).getD []) = openItems ((other.get mmsId).getD [])

/-- What a lookup gives in some order of the cache. -/
def Gives {α : Type} (lookup : FiggyMmsIdCache N → α) (cache : FiggyMmsIdCache N) (y : α) : Prop :=
  ∃ kept : FiggyMmsIdCache N, kept.Reordered cache ∧ lookup kept = y

/-- The items that are kept, what does not depend on the others, and the manifest of an ark. -/
structure LinksOpenItems (full : FiggyMmsIdCache N) (ark : String) : Prop where
  kept : ∀ mmsId, (onlyOpen full).get mmsId = (full.get mmsId).bind fun items =>
    if openItems items = [] then none else some (openItems items)
  idempotent : onlyOpen (onlyOpen full) = onlyOpen full
  manifestUrls : ∀ other, SameOpen full other → ∀ url,
    Gives (manifestUrl ark) (onlyOpen full) url ↔ Gives (manifestUrl ark) (onlyOpen other) url
  mmsIds : ∀ other, SameOpen full other → ∀ id,
    Gives (mmsId ark) (onlyOpen full) id ↔ Gives (mmsId ark) (onlyOpen other) id
  displays : ∀ toString modifyItems r other, SameOpen full other → ∀ display,
    Gives (figgy1display toString modifyItems r) (onlyOpen full) display
      ↔ Gives (figgy1display toString modifyItems r) (onlyOpen other) display
  manifest : ∀ kept : FiggyMmsIdCache N, kept.Reordered (onlyOpen full) →
    (∃ item, Listed full item ∧ arkEq ark item = true ∧ (iiifManifestUrl item).isSome) →
      ∃ item url, Listed full item ∧ arkEq ark item = true ∧ iiifManifestUrl item = some url
        ∧ manifestUrl ark kept = some url

theorem onlyOpen_eq (full : FiggyMmsIdCache N) :
    onlyOpen full = full.filterMapValues fun items =>
      if openItems items = [] then none else some (openItems items) := by
  have hitems : ∀ items : FiggyItems N, (items.filterMap fun item =>
      if Visibility.ofJson item = .«open» then some item else none) = openItems items := by
    intro items
    rw [openItems, ← List.filterMap_eq_filter]
    refine List.filterMap_congr fun item _ => ?_
    simp [Option.guard, isOpen]
  simp only [onlyOpen, hitems, List.isEmpty_iff]

theorem get_onlyOpen (full : FiggyMmsIdCache N) (mmsId : String) :
    (onlyOpen full).get mmsId = (full.get mmsId).bind fun items =>
      if openItems items = [] then none else some (openItems items) := by
  rw [onlyOpen_eq, OrderedHash.get_filterMapValues]

theorem openItems_openItems (items : FiggyItems N) :
    openItems (openItems items) = openItems items := by
  rw [openItems, openItems, List.filter_filter]
  simp

theorem onlyOpen_onlyOpen (full : FiggyMmsIdCache N) :
    onlyOpen (onlyOpen full) = onlyOpen full := by
  simp only [onlyOpen_eq]
  refine OrderedHash.filterMapValues_filterMapValues (fun items kept hkept => ?_) full
  split_ifs at hkept with hempty
  obtain rfl := Option.some_inj.1 hkept
  rw [openItems_openItems, if_neg hempty]

/-- Of the other items nothing is left. -/
theorem reordered_onlyOpen {full other : FiggyMmsIdCache N} (h : SameOpen full other) :
    (onlyOpen full).Reordered (onlyOpen other) := by
  refine OrderedHash.reordered_iff.2 fun mmsId => ?_
  have hsame := h mmsId
  rw [get_onlyOpen, get_onlyOpen]
  revert hsame
  rcases full.get mmsId with _ | items <;> rcases other.get mmsId with _ | items'
  · exact fun _ => rfl
  · intro hsame
    have hempty : openItems items' = [] := hsame.symm
    simp [hempty]
  · intro hsame
    have hempty : openItems items = [] := hsame
    simp [hempty]
  · intro hsame
    have hitems : openItems items = openItems items' := hsame
    simp [hitems]

theorem gives_congr {α : Type} {full other : FiggyMmsIdCache N} (h : SameOpen full other)
    (lookup : FiggyMmsIdCache N → α) (y : α) :
    Gives lookup (onlyOpen full) y ↔ Gives lookup (onlyOpen other) y := by
  have hperm := reordered_onlyOpen h
  refine exists_congr fun kept => and_congr_left fun _ => ⟨fun hkept => hkept.trans hperm,
    fun hkept => hkept.trans hperm.symm⟩

end Open

section Manifest

variable {full : FiggyMmsIdCache N} {ark : String}

/-- The first open item with the ark. -/
def firstWithArk (ark : String) (items : FiggyItems N) : Option (JsonValue N) :=
  items.find? fun item => isOpen item && arkEq ark item

theorem mem_firstItems {item : JsonValue N} :
    item ∈ (onlyOpen full).entries.filterMap (fun entry => entry.2.find? (arkEq ark))
      ↔ ∃ entry ∈ full.entries, firstWithArk ark entry.2 = some item := by
  have hfind : ∀ items : FiggyItems N, (openItems items).find? (arkEq ark)
      = firstWithArk ark items := fun items => by
    rw [openItems, List.find?_filter, firstWithArk]
    simp only [Bool.decide_and, Bool.decide_eq_true]
  simp only [List.mem_filterMap, onlyOpen_eq, Prod.exists, OrderedHash.mem_filterMapValues]
  constructor
  · rintro ⟨mmsId, kept, ⟨items, hmem, hkept⟩, hitem⟩
    split_ifs at hkept
    obtain rfl := Option.some_inj.1 hkept
    rw [hfind] at hitem
    exact ⟨mmsId, items, hmem, hitem⟩
  · rintro ⟨mmsId, items, hmem, hitem⟩
    rw [← hfind] at hitem
    refine ⟨mmsId, openItems items, ⟨items, hmem, if_neg ?_⟩, hitem⟩
    intro hempty
    rw [hempty] at hitem
    cases hitem

/-- No open item with the ark has a manifest, or the first one under each MMS id has. -/
def FirstHasManifest (full : FiggyMmsIdCache N) (ark : String) : Prop :=
  (∀ item, Listed full item → arkEq ark item = true → iiifManifestUrl item = none)
    ∨ ∀ entry ∈ full.entries, ∀ item, firstWithArk ark entry.2 = some item →
      (iiifManifestUrl item).isSome

theorem listed_of_firstWithArk {entry : String × FiggyItems N} (hentry : entry ∈ full.entries)
    {item : JsonValue N} (h : firstWithArk ark entry.2 = some item) :
    Listed full item ∧ arkEq ark item = true := by
  have hitem := List.find?_some h
  rw [Bool.and_eq_true] at hitem
  exact ⟨⟨entry, hentry, List.mem_of_find?_eq_some h, hitem.1⟩, hitem.2⟩

theorem manifestUrl_eq {kept : FiggyMmsIdCache N} {item : JsonValue N}
    (h : (kept.entries.filterMap fun entry => entry.2.find? (arkEq ark)).head? = some item) :
    manifestUrl ark kept = iiifManifestUrl item := by
  rw [manifestUrl, h]
  rfl

/-- In some order of the entries the first item under this MMS id is the one that is asked. -/
theorem exists_reordered {entry : String × FiggyItems N} (hentry : entry ∈ full.entries)
    {item : JsonValue N} (h : firstWithArk ark entry.2 = some item) :
    ∃ kept : FiggyMmsIdCache N, kept.Reordered (onlyOpen full)
      ∧ manifestUrl ark kept = iiifManifestUrl item := by
  obtain ⟨es, hperm, hhead⟩ := AnyOrder.exists_first (mem_firstItems.2 ⟨entry, hentry, h⟩)
  exact ⟨(onlyOpen full).reorder hperm, hperm, manifestUrl_eq hhead⟩

/-- In every order it is the first one under one of the MMS ids. -/
theorem exists_asked {kept : FiggyMmsIdCache N} (hperm : kept.Reordered (onlyOpen full))
    {item : JsonValue N} (hitem : Listed full item) (hark : arkEq ark item = true) :
    ∃ entry ∈ full.entries, ∃ first, firstWithArk ark entry.2 = some first
      ∧ manifestUrl ark kept = iiifManifestUrl first := by
  obtain ⟨entry, hentry, hmem, hopen⟩ := hitem
  obtain ⟨first, hfirst⟩ : ∃ first, firstWithArk ark entry.2 = some first := by
    refine Option.isSome_iff_exists.1 (List.find?_isSome.2 ⟨item, hmem, ?_⟩)
    rw [hopen, hark]
    rfl
  have hfound : first ∈ kept.entries.filterMap fun entry => entry.2.find? (arkEq ark) :=
    (hperm.filterMap _).symm.subset (mem_firstItems.2 ⟨entry, hentry, hfirst⟩)
  have hhead := List.head?_eq_some_head (List.ne_nil_of_mem hfound)
  obtain ⟨entry', hentry', hasked⟩ := mem_firstItems.1 (AnyOrder.mem_of_first hperm hhead)
  exact ⟨entry', hentry', _, hasked, manifestUrl_eq hhead⟩

theorem linksOpenItems_iff (full : FiggyMmsIdCache N) (ark : String) :
    LinksOpenItems full ark ↔ FirstHasManifest full ark := by
  constructor
  · intro h
    by_cases hnone : ∀ item, Listed full item → arkEq ark item = true →
        iiifManifestUrl item = none
    · exact .inl hnone
    · push Not at hnone
      obtain ⟨item, hitem, hark, hmanifest⟩ := hnone
      refine .inr fun entry hentry first hfirst => ?_
      obtain ⟨kept, hperm, hasked⟩ := exists_reordered hentry hfirst
      obtain ⟨-, url, -, -, -, hurl⟩ := h.manifest kept hperm
        ⟨item, hitem, hark, Option.isSome_iff_ne_none.2 hmanifest⟩
      simp [← hasked, hurl]
  · intro h
    refine ⟨get_onlyOpen full, onlyOpen_onlyOpen full, fun other hsame => gives_congr hsame _,
      fun other hsame => gives_congr hsame _,
      fun toString modifyItems r other hsame => gives_congr hsame _, ?_⟩
    rintro kept hperm ⟨item, hitem, hark, hmanifest⟩
    rcases h with hnone | hfirst
    · rw [hnone item hitem hark] at hmanifest
      cases hmanifest
    · obtain ⟨entry, hentry, first, hfound, hasked⟩ := exists_asked hperm hitem hark
      obtain ⟨url, hurl⟩ := Option.isSome_iff_exists.1 (hfirst entry hentry first hfound)
      obtain ⟨hlisted, hhas⟩ := listed_of_firstWithArk hentry hfound
      exact ⟨first, url, hlisted, hhas, hurl, hasked.trans hurl⟩

/-- A scanned resource, with or without a manifest. -/
def resource (manifest : Option String) : JsonValue ℕ :=
  .object ([("ark", .string "ark:/88435/dc08613099f"),
      ("visibility", .object [("label", .string "open")])]
    ++ (manifest.map fun url => ("iiif_manifest_url", .string url)).toList)

/-- The first of two volumes has no manifest yet. -/
def twoVolumes : FiggyMmsIdCache ℕ where
  entries := [("9965054633506421", [resource none, resource (some "https://figgy/2/manifest")])]

theorem not_linksOpenItems_twoVolumes :
    ¬LinksOpenItems twoVolumes "ark:/88435/dc08613099f" := by
  intro h
  obtain ⟨-, url, -, -, -, hurl⟩ := h.manifest (onlyOpen twoVolumes) (List.Perm.refl _)
    ⟨resource (some "https://figgy/2/manifest"),
      ⟨_, List.mem_cons_self, by simp, by decide⟩, by decide, by decide⟩
  have hnone : manifestUrl "ark:/88435/dc08613099f" (onlyOpen twoVolumes) = none := by decide
  rw [hnone] at hurl
  cases hurl

end Manifest

end Bibdata
