import Bibdata.Library.Transition
import Mathlib.Data.Int.Notation

/-!
# `PulSolrJsonWriter`

Records are put into a queue; enough of them make a batch that the thread pool sends, all at once
first and then, if that fails, one by one. The threads work on their batches in any order, and the
server gives each request any answer. The pool collects the exceptions of its threads until the
next `put` or `close` raises one of them; without threads a batch is sent at once by the caller.
-/

namespace Bibdata

namespace SolrJsonWriter

structure Settings where
  maxSkipped : ℤ := 0
  batchSize : ℤ := 100
  threadPool : ℕ := 1
  commitOnClose : Bool := false

/-- `@max_skipped`, without a bound where the setting is negative. -/
def Settings.limit (settings : Settings) : Option ℕ :=
  if settings.maxSkipped < 0 then none else some settings.maxSkipped.toNat

/-- `@batch_size`. -/
def Settings.size (settings : Settings) : ℕ :=
  if settings.batchSize < 1 then 1 else settings.batchSize.toNat

/-- What a request comes to: an answer, one of the errors that `send_single` rescues, or another. -/
inductive Answer
  | status (status : ℕ)
  | networkError
  | otherError
  deriving DecidableEq

variable {δ : Type*}

/-- A batch that a thread has: still to be sent, or sent one by one; after a record is counted as
skipped the count is still to be checked. -/
inductive Task (δ : Type*)
  | batch (docs : List δ)
  | singles (docs : List δ)
  | check (docs : List δ)
  deriving DecidableEq

def Task.docs : Task δ → List δ
  | .batch docs | .singles docs | .check docs => docs

def Task.isDone : Task δ → Bool
  | .batch docs | .singles docs => docs.isEmpty
  | .check _ => false

/-- `skipped` are the records that the count was incremented for, and `handed` those that `put` was
called with. -/
structure State (δ : Type*) where
  handed : List δ := []
  queue : List δ := []
  tasks : List (Task δ) := []
  requests : List (List δ × Answer) := []
  skipped : List δ := []
  collected : ℕ := 0
  raised : Bool := false
  closing : Bool := false
  returned : Bool := false
  deriving DecidableEq

def State.skippedRecordCount (s : State δ) : ℕ := s.skipped.length

/-- The records of the requests that were answered with 200. -/
def State.served (s : State δ) : List δ :=
  (s.requests.filter (·.2 = .status 200)).flatMap (·.1)

inductive Event (δ : Type*)
  | put (doc : δ)
  | work (task : ℕ) (answer : Answer)
  | close
  | finish (commit : Answer)
  deriving DecidableEq

variable (settings : Settings) (generates : δ → Bool) (s : State δ)

def isIdle : Bool := s.tasks.all (·.isDone)

/-- An exception that nothing in the writer rescues: collected by the pool, or the caller's. -/
def fail : State δ :=
  if settings.threadPool = 0 then { s with raised := true }
  else { s with collected := s.collected + 1 }

def post (docs : List δ) (answer : Answer) : State δ :=
  { s with requests := s.requests ++ [(docs, answer)] }

def sendBatch (docs : List δ) (answer : Answer) : State δ × Task δ :=
  if docs.all generates then
    (post s docs answer, if answer = .status 200 then .singles [] else .singles docs)
  else (s, .singles docs)

def sendSingle (doc : δ) (rest : List δ) (answer : Answer) : State δ × Task δ :=
  if generates doc then
    let s := post s [doc] answer
    match answer with
    | .status status =>
      if status = 200 then (s, .singles rest)
      else ({ s with skipped := s.skipped ++ [doc] }, .check rest)
    | .networkError => ({ s with skipped := s.skipped ++ [doc] }, .check rest)
    | .otherError => (fail settings s, .singles [])
  else (s, .singles rest)

/-- Whether `@max_skipped and skipped_record_count > @max_skipped`. -/
def exceeded : Bool := settings.limit.any (· < s.skippedRecordCount)

def work (answer : Answer) : Task δ → State δ × Task δ
  | .batch docs => sendBatch generates s docs answer
  | .singles [] => (s, .singles [])
  | .singles (doc :: rest) => sendSingle settings generates s doc rest answer
  | .check rest =>
    if exceeded settings s then (fail settings s, .singles []) else (s, .singles rest)

/-- `raise_collected_exception!`. -/
def raiseCollected : State δ := { s with collected := s.collected - 1, raised := true }

/-- What is in the queue goes to the pool. -/
def submit : State δ := { s with queue := [], tasks := s.tasks ++ [.batch s.queue] }

def put (doc : δ) : State δ :=
  let s := { s with handed := s.handed ++ [doc] }
  if 0 < s.collected then raiseCollected s
  else
    let s := { s with queue := s.queue ++ [doc] }
    if settings.size ≤ s.queue.length then submit s else s

def close : State δ :=
  if 0 < s.collected then raiseCollected s
  else { (if s.queue.isEmpty then s else submit s) with closing := true }

/-- The rest of `close`, once the threads are done. -/
def finish (commit : Answer) : State δ :=
  if 0 < s.collected then { raiseCollected s with returned := true }
  else if settings.commitOnClose && commit ≠ .status 200 then
    { s with raised := true, returned := true }
  else { s with returned := true }

/-- The caller is held up while it sends a batch itself. -/
def step : Event δ → Option (State δ)
  | .put doc =>
    if s.closing || (settings.threadPool = 0 && !isIdle s) then none
    else some (put settings s doc)
  | .work i answer =>
    s.tasks[i]?.bind fun task =>
      if task.isDone then none
      else
        let (s', task') := work settings generates s answer task
        some { s' with tasks := s'.tasks.set i task' }
  | .close =>
    if s.closing || (settings.threadPool = 0 && !isIdle s) then none else some (close s)
  | .finish commit =>
    if s.closing && isIdle s && !s.returned then some (finish settings s commit) else none

end SolrJsonWriter

end Bibdata
