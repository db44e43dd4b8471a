import Bibdata.Workflow
import Bibdata.Library.Transition

/-!
# Dumps that are passed over

A dump is there for `next_incremental` before its files are, so a catch-up may move past it; and
an import that ends while `in_progress` is set leaves its dump to a catch-up that may already have
found no next one. `Keeps` is what a step of an import must find so that neither happens.
-/

namespace Bibdata

/-- A catch-up that stands at `p` has `d` ahead of it. -/
def Dump.Precedes (p d : Dump) : Prop := p.start ≤ d.start ∧ d.id ≠ p.id

instance (p d : Dump) : Decidable (p.Precedes d) := inferInstanceAs (Decidable (_ ∧ _))

namespace Sys

variable (s : Sys) (d : Dump)

def fresh (db : Db) : Sys := { db }

/-- No job and no callback is left to run. -/
def Quiet : Prop := s.imports = [] ∧ s.reindexes = [] ∧ s.batches = []

def firstIncremental : Option Dump := s.processed.find? (·.isChangedRecords)

structure CaughtUp : Prop where
  idle : s.manager.inProgress = false
  indexed : ∀ i ∈ s.firstIncremental, ∀ d ∈ s.db.changedRecords, i.start < d.start →
    ∀ f ∈ s.db.filesOf d, f ∈ s.indexed

def Carried : Prop := ∃ q ∈ s.underway, q.Precedes d

/-- The position is before `d`, and what is being indexed leaves it there. -/
def Waiting : Prop :=
  (∃ l ∈ s.manager.lastDumpCompleted, l.Precedes d) ∧ ∀ q ∈ s.underway, q.Precedes d

/-- Some overall batch has more than `indexed_remaining` left, or some import will call
`index_remaining!`. -/
def Awake (imports : List Dump) : Prop :=
  (∃ b ∈ s.batches, b ≠ .finished) ∨ ∃ e ∈ imports, incrementalDump e

instance : Decidable s.Quiet := inferInstanceAs (Decidable (_ ∧ _ ∧ _))

instance : Decidable (s.Carried d) := inferInstanceAs (Decidable (∃ _ ∈ _, _))

instance : Decidable (s.Waiting d) := inferInstanceAs (Decidable (_ ∧ _))

instance (imports : List Dump) : Decidable (s.Awake imports) :=
  inferInstanceAs (Decidable (_ ∨ _))

end Sys

/-- Only imports call `index_remaining!`, and nobody calls `reindex!`. -/
def Act.OfImport : Act → Prop
  | .indexRemaining _ | .reindex | .reindexed _ _ => False
  | _ => True

instance : ∀ a : Act, Decidable a.OfImport
  | .indexRemaining _ | .reindex | .reindexed _ _ => isFalse id
  | .poll _ _ _ | .attach _ _ | .imported _ _ | .scan _ | .remainingDumpsJob _
  | .dumpFileJob _ _ _ | .onSuccess _ _ | .indexedRemaining => isTrue trivial

/-- A file comes to a dump that is not passed yet; an import leaves a next dump to a catch-up only
where one is awake. -/
def Keeps (s : Sys) : Act → Prop
  | .attach d _ =>
    d.isChangedRecords → ∀ i ∈ s.firstIncremental, i.start < d.start → s.Carried d ∨ s.Waiting d
  | .imported d fuel =>
    incrementalDump d → s.manager.inProgress →
      (∀ r ∈ nextDump s.db fuel s.manager.lastDumpCompleted, r.1.isSome) →
        s.Awake (s.imports.erase d)
  | _ => True

instance (s : Sys) : ∀ a : Act, Decidable (Keeps s a)
  | .attach _ _ => inferInstanceAs (Decidable (_ → ∀ i ∈ s.firstIncremental, _ → _ ∨ _))
  | .imported _ fuel => inferInstanceAs (Decidable
      (_ → _ → (∀ r ∈ nextDump s.db fuel s.manager.lastDumpCompleted, _ = true) → _))
  | .indexRemaining _ | .reindex | .reindexed _ _ | .poll _ _ _ | .scan _ | .remainingDumpsJob _
  | .dumpFileJob _ _ _ | .onSuccess _ _ | .indexedRemaining => isTrue trivial

end Bibdata
