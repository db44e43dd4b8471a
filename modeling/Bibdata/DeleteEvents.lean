import Bibdata.IndexManager

/-!
# Deleting old events

`Event.destroy` takes the events in turn, each in a transaction of its own. The callbacks delete
the files of an event's dump first; the foreign keys of `index_managers` then decide whether its
row may go. If it may not, the rows are rolled back, the files are not, and the rescue of the job
ends the loop.
-/

namespace Bibdata

def Db.deleteDump (db : Db) (id : ℕ) : Db where
  dumps := db.dumps.filter (·.id ≠ id)
  dumpFiles := db.dumpFiles
  nodup_id := (List.filter_sublist.map _).nodup db.nodup_id

def Db.deleteFile (db : Db) (id : ℕ) : Db where
  dumps := db.dumps
  dumpFiles := db.dumpFiles.filter (·.id ≠ id)
  nodup_id := db.nodup_id

namespace DeleteEventsJob

structure Store where
  events : List Event := []
  db : Db := {}
  managers : List IndexManager := []
  /-- The paths at which there is a file. -/
  disk : List String := []
  nodup_event : (events.map (·.id)).Nodup := by decide
  nodup_file : (db.dumpFiles.map (·.id)).Nodup := by decide

namespace Store

variable (s : Store)

/-- The dump that `has_one` finds. -/
def dump (eventId : ℕ) : Option Dump := s.db.dumps.find? (·.event.id = eventId)

/-- A foreign key of `index_managers` names the dump. -/
def Referenced (dumpId : ℕ) : Prop :=
  ∃ m ∈ s.managers, m.dumpInProgress.map (·.id) = some dumpId
    ∨ m.lastDumpCompleted.map (·.id) = some dumpId

instance (dumpId : ℕ) : Decidable (s.Referenced dumpId) :=
  inferInstanceAs (Decidable (∃ m ∈ s.managers, _))

/-- `File.delete(path) if File.exist?(path)`. -/
def deleteFile (path : String) : Store := { s with disk := s.disk.filter (· ≠ path) }

def destroyFile (f : DumpFile) : Store :=
  { s.deleteFile f.path with
    db := s.db.deleteFile f.id
    nodup_file := (List.filter_sublist.map _).nodup s.nodup_file }

def deleteDump (d : Dump) : Store :=
  { s with
    db := s.db.deleteDump d.id
    nodup_file := s.nodup_file }

def deleteEvent (id : ℕ) : Store :=
  { s with
    events := s.events.filter (·.id ≠ id)
    nodup_event := (List.filter_sublist.map _).nodup s.nodup_event }

/-- `.error` is `InvalidForeignKey`, with what was done before it was raised. -/
def destroyDump (d : Dump) : Except Store Store :=
  let s' := (s.db.filesOf d).foldl destroyFile s
  if s'.Referenced d.id then .error s' else .ok (s'.deleteDump d)

/-- The rows as they were; what is not on the disk any more does not come back. -/
def rollback (failed : Store) : Store := { s with disk := failed.disk }

def destroyEvent (id : ℕ) : Except Store Store :=
  match s.dump id with
  | none => .ok (s.deleteEvent id)
  | some d =>
    match s.destroyDump d with
    | .ok s' => .ok (s'.deleteEvent id)
    | .error failed => .error (s.rollback failed)

/-- `Event.destroy(event_ids)`, and the rescue of the job. -/
def destroy : Store → List ℕ → Store
  | s, [] => s
  | s, id :: ids =>
    match s.destroyEvent id with
    | .ok s' => s'.destroy ids
    | .error s' => s'

/-- What the query of the job selects. -/
def Selected (dumpType : DumpType) (olderThan : Time) (e : Event) : Prop :=
  (∃ d ∈ s.db.dumps, d.event.id = e.id ∧ d.dumpType = dumpType) ∧ e.start ≤ olderThan

instance (dumpType : DumpType) (olderThan : Time) (e : Event) :
    Decidable (s.Selected dumpType olderThan e) :=
  inferInstanceAs (Decidable ((∃ d ∈ s.db.dumps, _) ∧ _ ≤ _))

def selected (dumpType : DumpType) (olderThan : Time) : List ℕ :=
  (s.events.filter (s.Selected dumpType olderThan ·)).map (·.id)

/-- The rows come in the order `eventIds`, of which the query says nothing. -/
def perform (dumpType : DumpType) (olderThan : Time) (eventIds : List ℕ)
    (_ : eventIds.Perm (s.selected dumpType olderThan)) : Store :=
  s.destroy eventIds

end Store

end DeleteEventsJob

end Bibdata
