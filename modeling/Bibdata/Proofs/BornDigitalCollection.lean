import Bibdata.BornDigitalCollection
import Bibdata.Library.Raising
import Bibdata.Proofs.SolrJson

/-!
# One array of all folders

The ids of all pages are read in their order (`readEphemeraFolders_eq`), and each chunk of them is
written as an array of its documents (`chunkReadId_eq`). The texts of the chunks joined are an array
themselves if there is exactly one chunk.
-/

namespace Bibdata

open Json

/-- A catalog that answers each request with that page or item. -/
structure Catalog where
  client : CatalogClient
  pages : List (List String)
  folder : String → EphemeraFolder
  first : ∃ response, client.getFolderData 1 = some response
    ∧ response.responseIds = pages.headD [] ∧ response.totalPages.getD 1 = pages.length
  later : ∀ n ids, pages[n + 1]? = some ids →
    ∃ response, client.getFolderData (n + 2) = some response ∧ response.responseIds = ids
  item : ∀ id ∈ pages.flatten, client.getItemData id = some (folder id)

/-- A text that is one array, of these documents. -/
def IsArrayOf (serde : SerdeJson) (documents : List SolrDocument) (text : Option String) : Prop :=
  ∃ s vs, text = some s ∧ documents.mapM (·.toJson serde) = some vs
    ∧ serde.fromStr s = some (.arr vs)

namespace Catalog

variable (serde : SerdeJson) (catalog : Catalog)

/-- A folder, with the thumbnail of its manifest. -/
def folderWithThumbnail (id : String) : EphemeraFolder :=
  match catalog.client.fetchThumbnail id with
  | some thumbnail => { catalog.folder id with thumbnail }
  | none => catalog.folder id

def documents : List SolrDocument :=
  catalog.pages.flatten.map fun id => .ofEphemeraFolder serde (catalog.folderWithThumbnail id)

section Reading

theorem readPages_eq (n : ℕ) : ∀ k allIds, k + 1 + n = catalog.pages.length →
    catalog.client.readPages n (k + 1) allIds =
      some (allIds ++ (catalog.pages.drop (k + 1)).flatten) := by
  induction n with
  | zero =>
    intro k allIds hk
    rw [CatalogClient.readPages, List.drop_of_length_le (by omega)]
    simp
  | succ n ih =>
    intro k allIds hk
    have hlt : k + 1 < catalog.pages.length := by omega
    obtain ⟨response, hresponse, hids⟩ :=
      catalog.later k catalog.pages[k + 1] (List.getElem?_eq_getElem hlt)
    rw [CatalogClient.readPages, hresponse, Option.bind_some, ih (k + 1) _ (by omega), hids,
      List.drop_eq_getElem_cons hlt, List.flatten_cons, List.append_assoc]

theorem readEphemeraFolders_eq :
    catalog.client.readEphemeraFolders = some catalog.pages.flatten := by
  obtain ⟨response, hresponse, hids, htotal⟩ := catalog.first
  rw [CatalogClient.readEphemeraFolders, hresponse, Option.bind_some, hids, htotal]
  cases hpages : catalog.pages with
  | nil => rfl
  | cons page pages =>
    have h := catalog.readPages_eq pages.length 0 page (by rw [hpages, List.length_cons]; omega)
    rw [hpages] at h
    exact h

end Reading

section Chunks

theorem mapM_readFolder {ids : List String} (hids : ∀ id ∈ ids, id ∈ catalog.pages.flatten) :
    ids.mapM catalog.client.readFolder = some (ids.map catalog.folderWithThumbnail) := by
  refine Raising.mapM_eq_map fun id hid => ?_
  rw [CatalogClient.readFolder, catalog.item id (hids id hid)]
  rfl

/-- The folders of a chunk can all be written. -/
theorem mapM_toJson (folders : List EphemeraFolder) :
    ∃ vs, folders.mapM (fun f => (SolrDocument.ofEphemeraFolder serde f).toJson serde) = some vs
      ∧ (Json.arr vs).Readable 3 := by
  induction folders with
  | nil => exact ⟨[], rfl, by decide, trivial⟩
  | cons f folders ih =>
    obtain ⟨v, hv, hv'⟩ := SolrDocument.readable_toJson serde
      (SolrDocument.hasOrdinaryUrl_ofEphemeraFolder serde f)
    obtain ⟨vs, hvs, hdepth, hrest⟩ := ih
    refine ⟨v :: vs, ?_, hdepth, hv', hrest⟩
    rw [List.mapM_cons, hv, hvs]
    rfl

theorem chunkReadId_eq {ids : List String} (hids : ∀ id ∈ ids, id ∈ catalog.pages.flatten) :
    ∃ vs, catalog.client.chunkReadId serde ids = some (serde.toString (.arr vs))
      ∧ (ids.map catalog.folderWithThumbnail).mapM
        (fun f => (SolrDocument.ofEphemeraFolder serde f).toJson serde) = some vs
      ∧ (Json.arr vs).Readable 3 := by
  obtain ⟨vs, hvs, hreadable⟩ := mapM_toJson serde (ids.map catalog.folderWithThumbnail)
  refine ⟨vs, ?_, hvs, hreadable⟩
  rw [CatalogClient.chunkReadId, catalog.mapM_readFolder hids]
  simp only [Option.bind_eq_bind, Option.bind_some, hvs]
  rfl

theorem mapM_chunkReadId {chunks : List (List String)}
    (h : ∀ ids ∈ chunks, ∀ id ∈ ids, id ∈ catalog.pages.flatten) :
    ∃ vss : List (List Json), chunks.mapM (catalog.client.chunkReadId serde) =
        some (vss.map fun vs => serde.toString (.arr vs))
      ∧ vss.length = chunks.length ∧ ∀ vs ∈ vss, (Json.arr vs).Readable 3 := by
  induction chunks with
  | nil => exact ⟨[], rfl, rfl, by simp⟩
  | cons ids chunks ih =>
    rw [List.forall_mem_cons] at h
    obtain ⟨vs, hvs, -, hreadable⟩ := catalog.chunkReadId_eq serde h.1
    obtain ⟨vss, hvss, hlength, hreadable'⟩ := ih h.2
    refine ⟨vs :: vss, ?_, by simp [hlength], List.forall_mem_cons.2 ⟨hreadable, hreadable'⟩⟩
    rw [List.mapM_cons, hvs, hvss]
    rfl

/-- An array and more after a comma. -/
theorem fromStr_joined {vs : List Json} (hreadable : (Json.arr vs).Readable 3) (text : String)
    (texts : List String) :
    serde.fromStr (String.intercalate "," (serde.toString (.arr vs) :: text :: texts)) = none := by
  have hjoined : String.intercalate "," (serde.toString (.arr vs) :: text :: texts) =
      serde.toString (.arr vs)
        ++ String.ofList (',' :: (String.intercalate "," (text :: texts)).toList) := by
    rw [String.intercalate_cons_cons, String.ofList_cons, String.ofList_toList,
      String.append_assoc]
    rfl
  rw [hjoined]
  exact serde.fromStr_trailing _ _ _ (hreadable.mono (by decide)) (by decide) (by decide)

variable {chunkSize : ℕ}

theorem combinedJson_eq (hsize : 1 ≤ chunkSize) :
    catalog.client.combinedJson serde chunkSize =
      ((Slices.slices chunkSize [] catalog.pages.flatten).mapM
        (catalog.client.chunkReadId serde)).map fun folderResults =>
          String.intercalate "," folderResults := by
  rw [CatalogClient.combinedJson, CatalogClient.ephemeraFoldersIterator,
    catalog.readEphemeraFolders_eq, Option.bind_some, if_neg (by omega)]

theorem mem_pages_of_mem_slices {ids : List String}
    (hids : ids ∈ Slices.slices chunkSize [] catalog.pages.flatten) :
    ∀ id ∈ ids, id ∈ catalog.pages.flatten := by
  have hflatten : (Slices.slices chunkSize [] catalog.pages.flatten).flatten =
      catalog.pages.flatten := Slices.flatten_slices _ _ _
  intro id hid
  rw [← hflatten]
  exact List.mem_flatten_of_mem hids hid

theorem mapM_documents :
    (catalog.documents serde).mapM (SolrDocument.toJson serde) =
      (catalog.pages.flatten.map catalog.folderWithThumbnail).mapM
        fun f => (SolrDocument.ofEphemeraFolder serde f).toJson serde := by
  rw [documents, List.mapM_map, List.mapM_map]
  rfl

theorem isArrayOf_combinedJson (hempty : catalog.pages.flatten ≠ [])
    (hfits : catalog.pages.flatten.length ≤ chunkSize) :
    IsArrayOf serde (catalog.documents serde) (catalog.client.combinedJson serde chunkSize) := by
  have hpos := List.length_pos_iff.2 hempty
  have hslices : Slices.slices chunkSize [] catalog.pages.flatten = [catalog.pages.flatten] :=
    Slices.slices_of_length_le hempty hfits
  obtain ⟨vs, hvs, hmap, hreadable⟩ := catalog.chunkReadId_eq serde fun id hid => hid
  have hread := serde.fromStr_toString (.arr vs) (hreadable.mono (by decide))
  refine ⟨serde.toString (.arr vs), vs, ?_, ?_, hread⟩
  · rw [catalog.combinedJson_eq serde (by omega), hslices, List.mapM_cons, hvs]
    rfl
  · exact (catalog.mapM_documents serde).trans hmap

/-- No chunks are joined to no text. -/
theorem not_isArrayOf_of_empty (hsize : 1 ≤ chunkSize) (hempty : catalog.pages.flatten = [])
    (documents : List SolrDocument) :
    ¬IsArrayOf serde documents (catalog.client.combinedJson serde chunkSize) := by
  rw [catalog.combinedJson_eq serde hsize, hempty]
  rintro ⟨s, vs, hs, -, hread⟩
  have hs' : s = "" := (Option.some_inj.1 hs).symm
  rw [hs', serde.fromStr_empty] at hread
  cases hread

theorem not_isArrayOf_of_lt (hsize : 1 ≤ chunkSize)
    (hlt : chunkSize < catalog.pages.flatten.length) (documents : List SolrDocument) :
    ¬IsArrayOf serde documents (catalog.client.combinedJson serde chunkSize) := by
  obtain ⟨b₁, b₂, bs, hslices⟩ := Slices.exists_slices_cons_cons hsize hlt
  obtain ⟨vss, hvss, hlength, hreadable⟩ := catalog.mapM_chunkReadId serde
    fun ids hids => catalog.mem_pages_of_mem_slices hids
  rw [catalog.combinedJson_eq serde hsize, hvss]
  rw [hslices] at hlength
  rintro ⟨s, vs, hs, -, hread⟩
  cases hs
  match vss, hlength with
  | vs₁ :: vs₂ :: vss, _ =>
    have hnone := fromStr_joined serde (hreadable vs₁ List.mem_cons_self)
    rw [List.map_cons, List.map_cons, hnone] at hread
    cases hread

end Chunks

/-- It is one array where the folders fill one chunk, and no array where there are none or more. -/
theorem isArrayOf_combinedJson_iff (hsize : 1 ≤ chunkSize) :
    IsArrayOf serde (catalog.documents serde) (catalog.client.combinedJson serde chunkSize) ↔
      1 ≤ catalog.pages.flatten.length ∧ catalog.pages.flatten.length ≤ chunkSize := by
  by_cases hempty : catalog.pages.flatten = []
  · refine iff_of_false (catalog.not_isArrayOf_of_empty serde hsize hempty _) ?_
    rw [hempty]
    simp
  · have hpos := List.length_pos_iff.2 hempty
    by_cases hfits : catalog.pages.flatten.length ≤ chunkSize
    · exact iff_of_true (catalog.isArrayOf_combinedJson serde hempty hfits) ⟨hpos, hfits⟩
    · refine iff_of_false ?_ fun h => hfits h.2
      exact catalog.not_isArrayOf_of_lt serde hsize (not_le.1 hfits) _

/-- A catalog whose folders are all books of one title. -/
def ofPages (page : List String) (pages : List (List String)) : Catalog where
  client :=
    { getFolderData := fun n => ((page :: pages)[n - 1]?).map fun responseIds =>
        { responseIds, totalPages := some (page :: pages).length }
      getItemData := fun id => some { id, title := ["Our favorite book"] }
      manifest := fun _ => none }
  pages := page :: pages
  folder := fun id => { id, title := ["Our favorite book"] }
  first := ⟨_, rfl, rfl, rfl⟩
  later := fun _ _ h => ⟨_, congrArg (Option.map _) h, rfl⟩
  item := fun _ _ => rfl

theorem isArrayOf_threeFolders :
    IsArrayOf .compact ((ofPages ["a", "b"] [["c"]]).documents .compact)
      ((ofPages ["a", "b"] [["c"]]).client.combinedJson .compact 3) :=
  ((ofPages ["a", "b"] [["c"]]).isArrayOf_combinedJson_iff .compact (by omega)).2 (by decide)

/-- One folder more than a chunk. -/
def crowdedPage : Catalog := ofPages ((List.range 1001).map Nat.repr) []

theorem not_isArrayOf_crowdedPage :
    ¬IsArrayOf .compact (crowdedPage.documents .compact)
      (crowdedPage.client.jsonEphemeraDocument .compact) := by
  refine crowdedPage.not_isArrayOf_of_lt .compact (by omega) ?_ _
  have hpages : crowdedPage.pages.flatten = (List.range 1001).map Nat.repr := List.append_nil _
  rw [hpages, List.length_map, List.length_range]
  omega

end Catalog

end Bibdata
