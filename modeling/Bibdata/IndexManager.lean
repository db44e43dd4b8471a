import Bibdata.Dump
import Bibdata.Library.Successor

/-!
# The index manager's row and how it finds its next dump

`next_dump` holds its place in the sequence of dumps only as `last_dump_completed`. A full dump
comes first, then the incremental before it, then whatever starts at or after the last one.
`next_incremental` calls itself again past a dump without files, and moves
`last_dump_completed` there; the fuel counts these calls.
-/

namespace Bibdata

/-- A row of `index_managers`. A collection without a row reads as a fresh one. -/
structure IndexManager where
  dumpInProgress : Option Dump := none
  lastDumpCompleted : Option Dump := none
  inProgress : Bool := false
  deriving DecidableEq

namespace IndexManager

/-- `save` of a copy that was read as `loaded` and is now `copy`: only the attributes that changed
are written to the row. -/
def save (row loaded copy : IndexManager) : IndexManager where
  dumpInProgress :=
    if copy.dumpInProgress = loaded.dumpInProgress then row.dumpInProgress else copy.dumpInProgress
  lastDumpCompleted :=
    if copy.lastDumpCompleted = loaded.lastDumpCompleted then row.lastDumpCompleted
    else copy.lastDumpCompleted
  inProgress := if copy.inProgress = loaded.inProgress then row.inProgress else copy.inProgress

@[simp] theorem save_self (row copy : IndexManager) : save row row copy = copy := by
  simp only [save]
  congr <;> split_ifs with h <;> first | exact h.symm | rfl

end IndexManager

section NextDump

variable (db : Db)

def recentFullDump : Option Dump := db.fullDump.argmax (·.start)

def firstIncremental : Option Dump := db.changedRecords.argmin (·.start)

def previousToFullIncremental (last : Dump) : Option Dump :=
  (db.changedRecords.filter fun d => d.start < last.start.toS ∧ d.id ≠ last.id).argmax (·.start)

/-- The dump found, and where `last_dump_completed` is left; `none` while it has not returned. -/
def nextIncremental : ℕ → Dump → Option (Option Dump × Dump)
  | 0, _ => none
  | fuel + 1, last =>
    match Successor.successor Dump.start Dump.id db.changedRecords last with
    | none => some (none, last)
    | some d => if db.filesOf d = [] then nextIncremental fuel d else some (some d, last)

/-- `next_dump` for a manager whose `last_dump_completed` is given: the dump found, and where
`last_dump_completed` is left. -/
def nextDump (fuel : ℕ) : Option Dump → Option (Option Dump × Option Dump)
  | none => some (recentFullDump db <|> firstIncremental db, none)
  | some last =>
    if last.isFullDump then
      match previousToFullIncremental db last with
      | some d => some (some d, some last)
      | none => (nextIncremental db fuel last).map fun r => (r.1, some r.2)
    else (nextIncremental db fuel last).map fun r => (r.1, some r.2)

end NextDump

end Bibdata
