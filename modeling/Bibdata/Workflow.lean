import Bibdata.AlmaDumpFactory
import Bibdata.IndexManager

/-!
# Imports, catch-up batches and their callbacks

`index_remaining!` makes an overall batch with one `RemainingDumpsJob`. That job, and then each
`on_success`, puts the batch of the next dump's files under the overall batch, until there is no
next dump; when nothing is left under the overall batch, `indexed_remaining` runs. Each job and
each callback reads the manager's row anew. `reindex!` talks to Solr between saving the row and
calling `index_remaining!`, and goes on with the copy it read before.
-/

namespace Bibdata

/-- Where an overall batch stands. A dump's batch without jobs left has succeeded. -/
inductive CatchUpBatch
  /-- The `RemainingDumpsJob` has not run. -/
  | queued
  /-- The batch of `dump`, with the `DumpFileJob`s not done yet, or its `on_success` to run. -/
  | indexing (dump : Dump) (jobs : List DumpFile)
  /-- Only `indexed_remaining` is left to run. -/
  | finished
  deriving DecidableEq

def CatchUpBatch.dump : CatchUpBatch → Option Dump
  | .indexing d _ => some d
  | _ => none

structure Sys where
  db : Db
  manager : IndexManager := {}
  /-- The dumps whose `Import::Alma` has not ended. -/
  imports : List Dump := []
  /-- What the calls of `reindex!` that are about to call `index_remaining!` hold of the row. -/
  reindexes : List IndexManager := []
  batches : List CatchUpBatch := []
  /-- The dumps that were given a batch, in order. -/
  processed : List Dump := []
  indexed : List DumpFile := []

def Sys.underway (s : Sys) : List Dump := s.batches.filterMap CatchUpBatch.dump

section IndexManager

variable (db : Db) (fuel : ℕ) (m : IndexManager)

def indexNextDump (d : Dump) : IndexManager :=
  { m with dumpInProgress := some d, inProgress := true }

/-- `index_remaining!` on the copy `m`: the copy afterwards, and whether it makes a batch. -/
def indexRemaining : Option (IndexManager × Bool) :=
  (nextDump db fuel m.lastDumpCompleted).map fun r =>
    ({ m with lastDumpCompleted := r.2 }, r.1.isSome && !m.inProgress)

/-- `return unless next_dump`, then `index_next_dump!` under the overall batch: the row
afterwards, and where the overall batch then stands. -/
def catchUp : Option (IndexManager × CatchUpBatch) :=
  (nextDump db fuel m.lastDumpCompleted).map fun
    | (none, _) => (m, .finished)
    | (some d, last) =>
      (indexNextDump { m with lastDumpCompleted := last } d, .indexing d (db.filesOf d))

/-- `on_success` for the batch of `d`; without an overall batch above it, it ends there. -/
def onSuccess (parentBid : Bool) (d : Dump) : Option (IndexManager × CatchUpBatch) :=
  let m := { m with lastDumpCompleted := some d, dumpInProgress := none }
  if parentBid then catchUp db fuel m else some ({ m with inProgress := false }, .finished)

def indexedRemaining : IndexManager := { m with dumpInProgress := none, inProgress := false }

end IndexManager

namespace Sys

variable (s : Sys)

/-- `index_remaining!` called on a copy of the row; only where it makes a batch is it saved. -/
def callIndexRemaining (copy : IndexManager) (fuel : ℕ) : Option Sys :=
  (indexRemaining s.db fuel copy).map fun r =>
    if r.2 then { s with manager := s.manager.save copy r.1, batches := .queued :: s.batches }
    else s

/-- A job or callback of the overall batch `b` leaves the row and the batch so. -/
def advance (b : CatchUpBatch) (r : IndexManager × CatchUpBatch) : Sys :=
  { s with
    manager := r.1
    batches := r.2 :: s.batches.erase b
    processed := s.processed ++ r.2.dump.toList }

def create (d : Dump) (h : d.id ∉ s.db.dumps.map (·.id)) : Sys :=
  { s with db := s.db.create d h, imports := d :: s.imports }

def attach (f : DumpFile) : Sys := { s with db := s.db.attach [f] }

end Sys

/-- What can happen. `fuel` is how often `next_incremental` may be called in a step; a job or
callback whose `next_dump` takes more is not done. -/
inductive Act
  /-- The poller makes the event and the dump of a message and enqueues `Import::Alma`. -/
  | poll (m : JobMessage) (eventId id : ℕ)
  /-- `Import::Alma` attaches one more file to its dump. -/
  | attach (d : Dump) (f : DumpFile)
  /-- `Import::Alma` ends, calling `index_remaining!` for an incremental dump. -/
  | imported (d : Dump) (fuel : ℕ)
  /-- The rows of `dumps` come in another order from now on. -/
  | scan (rows : List Dump)
  | indexRemaining (fuel : ℕ)
  /-- `reindex!` up to its `save`. -/
  | reindex
  /-- `reindex!` from its `wipe!` on. -/
  | reindexed (copy : IndexManager) (fuel : ℕ)
  | remainingDumpsJob (fuel : ℕ)
  /-- The `DumpFileJob` of `f` is done, under a batch of `d` with these jobs left. -/
  | dumpFileJob (d : Dump) (jobs : List DumpFile) (f : DumpFile)
  | onSuccess (d : Dump) (fuel : ℕ)
  | indexedRemaining

def step (s : Sys) : Act → Option Sys
  | .poll m eventId id =>
    match bibDump m (dumpEvent m eventId) id with
    | none => none
    | some d =>
      if h : d.id ∉ s.db.dumps.map (·.id) then
        if s.db.filesOf d = [] then some (s.create d h) else none
      else none
  | .attach d f =>
    if d ∈ s.imports ∧ f.dumpId = some d.id ∧ f.id ∉ s.db.dumpFiles.map (·.id) then
      some (s.attach f)
    else none
  | .imported d fuel =>
    if d ∈ s.imports then
      let s' := { s with imports := s.imports.erase d }
      if incrementalDump d then s'.callIndexRemaining s.manager fuel else some s'
    else none
  | .scan rows =>
    if h : rows.Perm s.db.dumps then some { s with db := s.db.scan rows h } else none
  | .indexRemaining fuel => s.callIndexRemaining s.manager fuel
  | .reindex =>
    if s.manager.inProgress then none
    else
      let copy := { s.manager with lastDumpCompleted := none }
      some { s with manager := copy, reindexes := copy :: s.reindexes }
  | .reindexed copy fuel =>
    if copy ∈ s.reindexes then
      { s with reindexes := s.reindexes.erase copy, indexed := [] }.callIndexRemaining copy fuel
    else none
  | .remainingDumpsJob fuel =>
    if .queued ∈ s.batches then (catchUp s.db fuel s.manager).map (s.advance .queued) else none
  | .dumpFileJob d jobs f =>
    if .indexing d jobs ∈ s.batches ∧ f ∈ jobs then
      some { s with
        batches := .indexing d (jobs.erase f) :: s.batches.erase (.indexing d jobs)
        indexed := f :: s.indexed }
    else none
  | .onSuccess d fuel =>
    if .indexing d [] ∈ s.batches then
      (onSuccess s.db fuel s.manager true d).map (s.advance (.indexing d []))
    else none
  | .indexedRemaining =>
    if .finished ∈ s.batches then
      some { s with
        manager := indexedRemaining s.manager
        batches := s.batches.erase .finished }
    else none

end Bibdata
