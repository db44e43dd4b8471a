import Bibdata.EphemeraFolder
import Bibdata.Library.Slices

/-!
# The folders of the born digital collection

The pages of the catalog give the ids of the folders. The folders are fetched in chunks, each chunk
is written as JSON, and the texts are joined. `none` is an error or a panic.
-/

namespace Bibdata

open Json

structure FoldersResponse where
  responseIds : List String
  totalPages : Option ℕ

/-- What Figgy answers; a manifest that cannot be read is `none` too. -/
structure CatalogClient where
  getFolderData : ℕ → Option FoldersResponse
  getItemData : String → Option EphemeraFolder
  manifest : String → Option Json

namespace CatalogClient

variable (serde : SerdeJson) (client : CatalogClient)

/-- The pages that are left after `pageNumber`. -/
def readPages : ℕ → ℕ → List String → Option (List String)
  | 0, _, allIds => some allIds
  | left + 1, pageNumber, allIds =>
    (client.getFolderData (pageNumber + 1)).bind fun response =>
      readPages left (pageNumber + 1) (allIds ++ response.responseIds)

def readEphemeraFolders : Option (List String) :=
  (client.getFolderData 1).bind fun response =>
    client.readPages (response.totalPages.getD 1 - 1) 1 response.responseIds

/-- The inner `none` is a manifest without a thumbnail. -/
def fetchThumbnail (id : String) : Option (Option Thumbnail) :=
  match client.manifest id with
  | none => none
  | some (.obj manifest) =>
    match manifest.lookup "thumbnail" with
    | some thumbnailJson => (Thumbnail.fromJson thumbnailJson).map some
    | none => some none
  | some _ => some none

def readFolder (id : String) : Option EphemeraFolder :=
  (client.getItemData id).map fun response =>
    match client.fetchThumbnail id with
    | some thumbnail => { response with thumbnail }
    | none => response

def chunkReadId (ids : List String) : Option String := do
  let folders ← ids.mapM client.readFolder
  let documents ← folders.mapM fun folder =>
    (SolrDocument.ofEphemeraFolder serde folder).toJson serde
  return serde.toString (.arr documents)

/-- `chunks` panics on a size of 0. -/
def ephemeraFoldersIterator (chunkSize : ℕ) : Option (List String) :=
  client.readEphemeraFolders.bind fun data =>
    if chunkSize = 0 then none
    else (Slices.slices chunkSize [] data).mapM (client.chunkReadId serde)

def combinedJson (chunkSize : ℕ) : Option String :=
  (client.ephemeraFoldersIterator serde chunkSize).map fun folderResults =>
    String.intercalate "," folderResults

def jsonEphemeraDocument : Option String := client.combinedJson serde 1000

end CatalogClient

end Bibdata
