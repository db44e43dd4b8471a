import Bibdata.Library.KeyedStore
import Bibdata.Library.Masks
import Bibdata.SolrDeleter
import Bibdata.SolrJsonWriter

/-!
# A run of `traject`

`index_file` runs `traject` on a file. The records are mapped one after the other; the first step
of `traject_config.rb` takes those that are marked as deleted aside, and what the other steps make
of the rest is put to the writer, whose threads send it meanwhile. Once the writer is closed, the
ids set aside are deleted. A request that Solr does not answer with 200 may have been followed in
part, which `applied` says; and it has been by the time that the answer is there.
-/

namespace Bibdata

/-- What the uniqueKey of Solr makes of its documents. -/
abbrev SolrStore (δ : Type*) := String → Option δ

namespace Traject

/-- What the steps of the configuration make of a record that is not marked as deleted. -/
inductive Mapped (δ : Type*)
  | document (doc : δ)
  | skipped
  | raised

/-- `leader` is the leader of a record, `id` its `001`; `key` the `id` of a document. -/
structure Configuration (ρ δ : Type*) where
  leader : ρ → List Char
  id : ρ → Option String
  map : ρ → Mapped δ
  key : δ → String
  generates : δ → Bool
  settings : SolrJsonWriter.Settings := { maxSkipped := 50, threadPool := 3 }

inductive Phase
  | mapping
  /-- The ids left for `SolrDeleter`, by batches; `again` at the second request for the first. -/
  | deleting (batches : List (List String)) (again : Bool)
  | failed
  deriving DecidableEq

/-- `deleted` are the ids of the batches that were answered with 200, and `unanswered` those of
the batches that were not. -/
structure State (ρ δ : Type*) where
  unread : List ρ
  deletedIds : List String := []
  writer : SolrJsonWriter.State δ := {}
  phase : Phase := .mapping
  deleted : List String := []
  unanswered : List String := []
  deriving DecidableEq

inductive Event
  | read
  | work (task : ℕ) (answer : SolrJsonWriter.Answer) (applied : List Bool)
  | close
  | finish (commit : SolrJsonWriter.Answer)
  | delete (answer : SolrDeleter.Answer) (applied : List Bool)
  deriving DecidableEq

variable {ρ δ : Type*} (config : Configuration ρ δ) (s : State ρ δ)

def isDeleted (r : ρ) : Bool := (config.leader r)[5]? = some 'd'

def addDocument (doc : δ) : String × Option δ := (config.key doc, some doc)

def deleteId (id : String) : String × Option δ := (id, none)

/-- What Solr does for a request to add documents. -/
def addUpdates (applied : List Bool) (request : List δ × SolrJsonWriter.Answer) :
    List (String × Option δ) :=
  (if request.2 = .status 200 then request.1 else Masks.masked applied request.1).map
    (addDocument config)

/-- The state once the writer is in `writer`, with the updates of the requests that it made. -/
def written (writer : SolrJsonWriter.State δ) (applied : List Bool) :
    State ρ δ × List (String × Option δ) :=
  ({ s with writer, phase := if writer.raised then .failed else s.phase },
    (writer.requests.drop s.writer.requests.length).flatMap (addUpdates config applied))

def write (e : SolrJsonWriter.Event δ) (applied : List Bool) :
    Option (State ρ δ × List (String × Option δ)) :=
  (SolrJsonWriter.step config.settings config.generates s.writer e).map fun writer =>
    written config s writer applied

/-- The first step of the configuration, for a record that is marked as deleted. -/
def setAside (r : ρ) : State ρ δ :=
  { s with deletedIds := s.deletedIds ++ (config.id r).toList.filter (· ∉ s.deletedIds) }

/-- Mapping the next record, and putting the document to the writer. -/
def read : Option (State ρ δ × List (String × Option δ)) :=
  match s.unread with
  | [] => none
  | r :: unread =>
    let s := { s with unread }
    if isDeleted config r then some (setAside config s r, [])
    else
      match config.map r with
      | .document doc => write config s (.put doc) []
      | .skipped => some (s, [])
      | .raised => some ({ s with phase := .failed }, [])

/-- `after_processing`. -/
def afterProcessing : State ρ δ :=
  if s.phase = .mapping then
    { s with phase := .deleting (Slices.slices 100 [] s.deletedIds) false }
  else s

/-- A request for the batch, the second one where `again`. -/
def deleteBatch (batch : List String) (batches : List (List String)) (again : Bool)
    (answer : SolrDeleter.Answer) (applied : List Bool) : State ρ δ × List (String × Option δ) :=
  match SolrDeleter.requestDeletion answer with
  | none => ({ s with phase := .failed }, (Masks.masked applied batch).map deleteId)
  | some response =>
    if SolrDeleter.validResponse response then
      ({ s with phase := .deleting batches false, deleted := s.deleted ++ batch },
        batch.map deleteId)
    else if again then
      ({ s with phase := .deleting batches false, unanswered := s.unanswered ++ batch },
        (Masks.masked applied batch).map deleteId)
    else ({ s with phase := .deleting (batch :: batches) true },
      (Masks.masked applied batch).map deleteId)

/-- The next state, and what becomes of Solr. -/
def step : Event → Option (State ρ δ × List (String × Option δ))
  | .read => if s.phase = .mapping then read config s else none
  | .work task answer applied =>
    if s.phase = .mapping then write config s (.work task answer) applied else none
  | .close =>
    if s.phase = .mapping ∧ s.unread.isEmpty then write config s .close [] else none
  | .finish commit =>
    if s.phase = .mapping then
      (write config s (.finish commit) []).map fun r => (afterProcessing r.1, r.2)
    else none
  | .delete answer applied =>
    match s.phase with
    | .deleting (batch :: batches) again =>
      some (deleteBatch s batch batches again answer applied)
    | _ => none

def Done : Prop := s.phase = .deleting [] false

instance : Decidable (Done s) := inferInstanceAs (Decidable (_ = _))

/-- What the run leaves as it is though the file says something about it: documents that were
counted as skipped or make no JSON, and ids whose batch was given up. -/
def givenUp : List String :=
  (s.writer.skipped ++ s.writer.handed.filter (!config.generates ·)).map config.key ++ s.unanswered

section File

variable (records : List ρ)

/-- The documents that the records of a file make. -/
def documents : List δ :=
  records.filterMap fun r =>
    if isDeleted config r then none
    else match config.map r with
      | .document doc => some doc
      | _ => none

/-- The ids of the records of a file that are marked as deleted. -/
def deletions : List String :=
  (records.filter (isDeleted config)).filterMap config.id

/-- What a file says that Solr is to hold for an id. -/
def Says (id : String) (v : Option δ) : Prop :=
  if id ∈ deletions config records then v = none
  else ∃ doc ∈ documents config records, config.key doc = id ∧ v = some doc

def Mentions (id : String) : Prop :=
  id ∈ deletions config records ∨ id ∈ (documents config records).map config.key

instance (id : String) : Decidable (Mentions config records id) :=
  inferInstanceAs (Decidable (_ ∨ _))

/-- The run has made the update that the file says last of the id. -/
def Settled (id : String) : Prop :=
  if id ∈ deletions config records then id ∈ s.deleted
  else ∃ doc ∈ s.writer.served, config.key doc = id

instance (id : String) : Decidable (Settled config s records id) :=
  inferInstanceAs (Decidable (ite _ _ _))

/-- The ids that the file says something about. -/
def mentioned : List String :=
  deletions config records ++ (documents config records).map config.key

end File

end Traject

end Bibdata
