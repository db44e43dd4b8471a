import Bibdata.Library.FallibleFold

/-!
# The documents of all collections

The client of Dataspace asks for the pages of a collection by their numbers, the older one by the
offset of their first document. Both ask again for a page that fails, in the same function that
goes on to the next page. `answer` is what a request gets; a run that does not end in `fuel` calls
is `none`.
-/

namespace Bibdata

open FallibleFold

def thesesRetryAttempts : ℕ := 3

variable {ι ε Doc : Type}

/-- A visit keeps the accumulator, if it went well. -/
def visited : Option (Except ε (List Doc) × List Doc) → Option (Except ε (List Doc))
  | none => none
  | some (.error e, _) => some (.error e)
  | some (.ok _, accumulator) => some (.ok accumulator)

/-- How the collections are divided among the threads. -/
structure Rayon (ι : Type) where
  divide : List ι → Division ι
  divide_items : ∀ ids, (divide ids).items = ids

section Pages

structure Page where
  number : Int32
  totalPages : Int32

structure SearchResponse (Doc : Type) where
  objects : List Doc
  page : Page

def getDocumentsInCollection (answer : ℕ → ℕ → Except ε (SearchResponse Doc)) :
    ℕ → List Doc → ℕ → ℕ → Option (Except ε (List Doc) × List Doc)
  | 0, _, _, _ => none
  | fuel + 1, documents, page, attempt =>
    let searched : Option (Page × Except ε (List Doc) × List Doc) :=
      match answer page attempt with
      | .ok response => some (response.page, .ok response.objects, documents)
      | .error e =>
        if attempt < thesesRetryAttempts then
          (getDocumentsInCollection answer fuel documents page (attempt + 1)).map
            fun (result, documents) => (⟨0, 0⟩, result, documents)
        else some (⟨0, 0⟩, .error e, documents)
    match searched with
    | none => none
    | some (_, .error e, documents) => some (.error e, documents)
    | some (pagination, .ok newDocuments, documents) =>
      if pagination.number + 1 < pagination.totalPages then
        match getDocumentsInCollection answer fuel (documents ++ newDocuments) (page + 1) 0 with
        | none => none
        | some (.error e, documents) => some (.error e, documents)
        | some (.ok _, documents) => some (.ok [], documents)
      else some (.ok [], documents ++ newDocuments)

def getDocumentList (answer : ι → ℕ → ℕ → Except ε (SearchResponse Doc)) (rayon : Rayon ι)
    (fuel : ℕ) : Except ε (List ι) → Option (Except ε (List Doc))
  | .error e => some (.error e)
  | .ok ids =>
    tryReduce
      (fun accumulator id =>
        visited (getDocumentsInCollection (answer id) fuel accumulator 0 0))
      (rayon.divide ids)

end Pages

section Offsets

/-- `visit` counts the pages before, as an offset may come again and be answered otherwise. The
next offset wraps around. -/
def legacyGetDocumentsInCollection (restLimit : UInt32)
    (answer : ℕ → UInt32 → ℕ → Except ε (List Doc)) :
    ℕ → List Doc → ℕ → UInt32 → ℕ → Option (Except ε (List Doc) × List Doc)
  | 0, _, _, _, _ => none
  | fuel + 1, documents, visit, offset, attempt =>
    let fetched : Option (Except ε (List Doc) × List Doc) :=
      match answer visit offset attempt with
      | .ok docs => some (.ok docs, documents)
      | .error e =>
        if attempt < thesesRetryAttempts then
          legacyGetDocumentsInCollection restLimit answer fuel documents visit offset (attempt + 1)
        else some (.error e, documents)
    match fetched with
    | none => none
    | some (.error e, documents) => some (.error e, documents)
    | some (.ok newDocuments, documents) =>
      if !newDocuments.isEmpty then
        match legacyGetDocumentsInCollection restLimit answer fuel (documents ++ newDocuments)
          (visit + 1) (offset + restLimit) 0 with
        | none => none
        | some (.error e, documents) => some (.error e, documents)
        | some (.ok _, documents) => some (.ok [], documents)
      else some (.ok [], documents)

def legacyGetDocumentList (restLimit : UInt32)
    (answer : ι → ℕ → UInt32 → ℕ → Except ε (List Doc)) (rayon : Rayon ι) (fuel : ℕ) :
    Except ε (List ι) → Option (Except ε (List Doc))
  | .error e => some (.error e)
  | .ok ids =>
    tryReduce
      (fun accumulator id =>
        visited (legacyGetDocumentsInCollection restLimit (answer id) fuel accumulator 0 0 0))
      (rayon.divide ids)

end Offsets

end Bibdata
