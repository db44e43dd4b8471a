import Bibdata.Marc
import Mathlib.Logic.Function.Basic

/-!
# The metadata of a thesis

Dataspace gives the metadata of an item as a map from keys to lists of values, which may be null;
its older API gives it as a list of keys with one value each. Both are read with a builder into the
same document, which has a list of values, or none, for each key that is known.
-/

namespace Bibdata

inductive MetadataField
  | contributor
  | contributorAdvisor
  | contributorAuthor
  | descriptionAbstract
  | formatExtent
  | identifierOther
  | identifierUri
  | languageIso
  | rightsAccessRights
  | title
  | certificate
  | dateClassyear
  | department
  | embargoLift
  | embargoTerms
  | location
  | muddWalkin
  deriving DecidableEq

def MetadataField.ofKey (key : String) : Option MetadataField :=
  match key with
  | "dc.contributor" => some contributor
  | "dc.contributor.advisor" => some contributorAdvisor
  | "dc.contributor.author" => some contributorAuthor
  | "dc.description.display" => some descriptionAbstract
  | "dc.format.extent" => some formatExtent
  | "dc.identifier.other" => some identifierOther
  | "dc.identifier.uri" => some identifierUri
  | "dc.language.iso" => some languageIso
  | "dc.rights.accessRights" => some rightsAccessRights
  | "dc.title" => some title
  | "pu.certificate" => some certificate
  | "pu.date.classyear" => some dateClassyear
  | "pu.department" => some department
  | "pu.embargo.lift" => some embargoLift
  | "pu.embargo.terms" => some embargoTerms
  | "pu.location" => some location
  | "pu.mudd.walkin" => some muddWalkin
  | _ => none

structure DataspaceDocument where
  id : Option String := none
  values : MetadataField → Option (List String) := fun _ => none

/-- The key of a map or of a pair sets the field that it is known for. -/
def DataspaceDocument.modify (doc : DataspaceDocument) (key : String)
    (f : Option (List String) → Option (List String)) : DataspaceDocument :=
  match MetadataField.ofKey key with
  | some field => { doc with values := Function.update doc.values field (f (doc.values field)) }
  | none => doc

/-- `split_once("/").unwrap_or_default().1`. -/
def handleId (handle : String) : String :=
  String.ofList ((handle.toList.dropWhile (· ≠ '/')).drop 1)

section New

/-- `with_contributor` and the like, over values that may be null. -/
def withValues (values : List (Option String)) : Option (List String) → Option (List String)
  | some vec => some (vec ++ values.filterMap id)
  | none => some (values.filterMap id)

/-- A map in the order in which it is gone through, each key once. -/
structure Metadata where
  entries : List (String × List (Option String))
  nodup : (entries.map Prod.fst).Nodup

def newDocument (handle : String) (metadata : Metadata) : DataspaceDocument :=
  metadata.entries.foldl (fun doc (key, values) => doc.modify key (withValues values))
    { id := some (handleId handle) }

end New

section Legacy

/-- `with_contributor` and the like, over one value. -/
def withValue (value : String) : Option (List String) → Option (List String)
  | some vec => some (vec ++ [value])
  | none => some [value]

def DataspaceDocument.withEntry (doc : DataspaceDocument) :
    String × Option String → DataspaceDocument
  | (key, some value) => doc.modify key (withValue value)
  | (_, none) => doc

def legacyDocument (handle : String) (metadata : List (String × Option String)) :
    DataspaceDocument :=
  metadata.foldl DataspaceDocument.withEntry { id := some (handleId handle) }

end Legacy

end Bibdata
