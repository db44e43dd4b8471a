import Bibdata.Library.Slices

/-!
# `SolrDeleter`

Ids are deleted in batches, a batch in one request that is made once more if it does not succeed.
The server gives each of the two requests of a batch its answer.
-/

namespace Bibdata.SolrDeleter

inductive Answer
  | response (status : ℕ) (body : String)
  | timeoutError
  | otherError
  deriving DecidableEq

inductive Attempt
  | first
  | retry
  deriving DecidableEq

/-- What is done for one batch: the requests with their answers, the messages to Honeybadger and
whether an exception is raised. -/
structure BatchRun where
  batch : List String
  requests : List (String × Answer) := []
  notified : List String := []
  raised : Bool := false
  deriving DecidableEq

def buildRequestBody (ids : List String) : String :=
  String.join (["<delete>"] ++ ids.map (fun id => "<id>" ++ id ++ "</id>") ++ ["</delete>"])

/-- `request_deletion`; `none` where the error is not a timeout and is not rescued. -/
def requestDeletion : Answer → Option (Option (ℕ × String))
  | .response status body => some (some (status, body))
  | .timeoutError => some none
  | .otherError => none

def validResponse : Option (ℕ × String) → Bool
  | none => false
  | some (status, _) => status = 200

def errorMessage (batch : List String) (status : ℕ) (body : String) : String :=
  "Error deleting Solr documents. IDs: " ++ ", ".intercalate batch ++ ". Status: "
    ++ toString status ++ ". Body: " ++ body

/-- What is done with the answer to the second request. -/
def deleteAgain (run : BatchRun) (answer : Answer) : BatchRun :=
  let run := { run with requests := run.requests ++ [(buildRequestBody run.batch, answer)] }
  match requestDeletion answer with
  | none => { run with raised := true }
  | some retryResponse =>
    if validResponse retryResponse then run
    else
      match retryResponse with
      | none => run
      | some (status, body) =>
        { run with notified := run.notified ++ [errorMessage run.batch status body] }

def deleteBatch (server : Attempt → Answer) (batch : List String) : BatchRun :=
  let run : BatchRun := { batch, requests := [(buildRequestBody batch, server .first)] }
  match requestDeletion (server .first) with
  | none => { run with raised := true }
  | some response => if validResponse response then run else deleteAgain run (server .retry)

/-- The batches from the `k`th on; an exception ends the loop. -/
def deleteBatches (server : ℕ → Attempt → Answer) : ℕ → List (List String) → List BatchRun
  | _, [] => []
  | k, batch :: batches =>
    let run := deleteBatch (server k) batch
    if run.raised then [run] else run :: deleteBatches server (k + 1) batches

/-- `none` is the error of `each_slice` for a batch size of 0. -/
def delete (server : ℕ → Attempt → Answer) (ids : List String) (batchSize : ℕ) :
    Option (List BatchRun) :=
  if batchSize = 0 then none
  else some (deleteBatches server 0 (Slices.slices batchSize [] ids))

end Bibdata.SolrDeleter
