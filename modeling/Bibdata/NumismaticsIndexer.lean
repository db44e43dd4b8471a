import Bibdata.Library.Batches
import Bibdata.Library.KeyedStore
import Bibdata.Library.Slices
import Bibdata.Library.Unrestored

/-!
# Indexing the coins

Figgy lists the coins page by page, and gives a document for each; what it fails to give is passed
over. The documents go to Solr in slices, and one by one where Solr refuses a slice. The rake task
does so directly; `Index::NumismaticsJob` puts a job for each slice under a batch, and commits once
that is done.
-/

namespace Bibdata

namespace NumismaticsIndexer

variable {D : Type}

structure Page where
  data : List String
  nextPage : Option ℕ

/-- What Figgy answers to a URL; `none` where that fails. -/
structure Figgy (D : Type) where
  baseUrl : String
  search : String → Option Page
  record : String → Option D

section Documents

variable (figgy : Figgy D)

def searchUrl : String :=
  figgy.baseUrl ++ "/catalog.json?f%5Bhuman_readable_type_ssim%5D%5B%5D=Coin"
    ++ "&f%5Bstate_ssim%5D%5B%5D=complete&f%5Bvisibility_ssim%5D%5B%5D=open&per_page=100&q="

/-- `NumismaticRecordPathBuilder`. -/
def path (id : String) : String :=
  figgy.baseUrl ++ "/concern/numismatics/coins/" ++ id ++ "/orangelight"

def jsonFor (id : String) : Option D := figgy.record (path figgy id)

def response (page : ℕ) : Option Page := figgy.search (searchUrl figgy ++ "&page=" ++ toString page)

/-- The documents from a page on, and whether the last page is reached: not so where a page fails,
or where more than `n` pages are asked for. -/
def eachDocument : ℕ → ℕ → List D × Bool
  | 0, _ => ([], false)
  | n + 1, page =>
    match response figgy page with
    | none => ([], false)
    | some p =>
      let docs := p.data.filterMap (jsonFor figgy)
      match p.nextPage with
      | none => (docs, true)
      | some next =>
        let r := eachDocument n next
        (docs ++ r.1, r.2)

/-- Where a page fails, what is gathered by then is not handed on. -/
def eachSlice (size : ℕ) (r : List D × Bool) : List (List D) :=
  (Slices.slices size [] r.1).filter fun docs => r.2 || docs.length == size

end Documents

inductive Reply
  | added | httpError
  deriving DecidableEq

/-- What Solr replies to a request, `none` where that is lost, and what it wrote of the documents
where it did not add all. -/
structure Answer where
  reply : Option Reply
  written : List Bool := []

/-- `visible` is what the collection held at the last commit; `givenUp` are the documents that the
log says failed. -/
structure State (D : Type) where
  solr : String → Option D
  visible : String → Option D
  givenUp : List D := []

section Requests

open Unrestored

variable (docId : D → String)

def write (docs : List D) (solr : String → Option D) : String → Option D :=
  KeyedStore.write solr (docs.map fun d => (docId d, some d))

def Answer.taken (a : Answer) (docs : List D) : List D :=
  if a.reply = some .added then docs else ((docs.zip a.written).filter (·.2)).map (·.1)

/-- A run has the answers that it gets before it is stopped. -/
abbrev Session (D : Type) := List Answer × State D

def ask : Unrestored (Session D) Answer :=
  step fun s =>
    match s.1 with
    | [] => none
    | a :: answers => some (a, (answers, s.2))

/-- `solr_connection.add`; it raises what is not rescued where the reply is lost. -/
def add (docs : List D) : Unrestored (Session D) Reply := do
  let a ← ask
  change fun s => (s.1, { s.2 with solr := write docId (a.taken docs) s.2.solr })
  value a.reply

def indexIndividual (doc : D) : Unrestored (Session D) Unit := do
  match ← add docId [doc] with
  | .added => pure ()
  | .httpError => change fun s => (s.1, { s.2 with givenUp := s.2.givenUp ++ [doc] })

def indexIndividually (docs : List D) : Unrestored (Session D) Unit :=
  each (indexIndividual docId) docs

def indexInChunks (docs : List D) : Unrestored (Session D) Unit := do
  match ← add docId docs with
  | .added => pure ()
  | .httpError => indexIndividually docId docs

def commit : Unrestored (Session D) Unit := do
  let a ← ask
  if a.reply = some .added then change fun s => (s.1, { s.2 with visible := s.2.solr })
  else value none

/-- `full_index`, which asks for the pages as it goes. -/
def fullIndex (figgy : Figgy D) (n : ℕ) : Unrestored (Session D) Unit := do
  let r := eachDocument figgy n 1
  each (indexInChunks docId) (eachSlice 500 r)
  if r.2 then commit else value none

end Requests

section Jobs

variable (docId : D → String) (figgy : Figgy D) (chunkSize : ℕ)

inductive Job (D : Type)
  | numismatics
  | batch (docs : List D)

/-- `NumismaticsJob#on_success`, with what its batch is for. -/
inductive Callback (D : Type)
  | success (docs : List D)

abbrev Work (D : Type) := Batches.Work (Job D) (Callback D)

/-- An attempt may ask for so many pages, and gets these answers; where it comes to its end, it may
be run again all the same. -/
structure Attempt where
  pages : ℕ := 0
  answers : List Answer := []
  again : Bool := false

def perform (s : State D) (j : Job D) (e : Attempt) : State D × Option (List (Work D)) :=
  match j with
  | .numismatics =>
    let r := eachDocument figgy e.pages 1
    let jobs := (eachSlice chunkSize r).map fun docs => .job (.batch docs)
    (s, if r.2 then some (Batches.left e.again (.job j) [.batch (.success r.1) jobs]) else none)
  | .batch docs =>
    let r := indexInChunks docId docs (e.answers, s)
    (r.2.2, r.1.map fun _ => Batches.left e.again (.job j) [])

def callback (s : State D) (c : Callback D) (e : Attempt) : Option (State D × List (Work D)) :=
  match commit (e.answers, s) with
  | (some _, (_, s')) => some (s', Batches.left e.again (.batch c []) [])
  | (none, _) => none

def handlers : Batches.Handlers (State D) (Job D) (Callback D) Attempt where
  perform s j e := some (perform docId figgy chunkSize s j e)
  callback s c e := callback s c e

/-- The collection, and what is left to do. -/
structure System (D : Type) where
  state : State D
  work : List (Work D) := [.job .numismatics]

def step (s : System D) (e : List ℕ × Attempt) : Option (System D) :=
  (Batches.stepAt (handlers docId figgy chunkSize) s.state e.2 e.1 s.work).map fun r =>
    { state := r.1, work := r.2 }

end Jobs

end NumismaticsIndexer

end Bibdata
