import Mathlib.Data.Int.Order.Basic
import Mathlib.Data.List.Nodup
import Mathlib.Tactic.Common

/-!
# Events, dumps and dump files

The rows of the three tables, and the Alma job messages the poller makes them from. A dump row
carries its event; the files of a dump are the rows that name its id.
-/

namespace Bibdata

/-- An instant, in microseconds. -/
abbrev Time := ℤ

instance : LinearOrder Time := Int.instLinearOrder

instance : Preorder Time := Int.instLinearOrder.toPreorder

/-- What `to_s` keeps of an instant: whole seconds. -/
def Time.toS (t : Time) : Time := t - t % 1000000

inductive DumpType
  | fullDump | changedRecords | princetonRecap | partnerRecap | partnerRecapFull | bibIds
  | mergedIds
  deriving DecidableEq

inductive DumpFileType
  | bibRecords | updatedRecords | recapRecords | recapRecordsFull | logFile | newRecords
  | mergedIds | bibIds | recapRecordsFullMetadata
  deriving DecidableEq

/-- An Alma job message: what is read of its `job_instance`, and the rest of it. -/
structure JobMessage where
  id : String
  name : String
  startTime : Time
  endTime : Time
  status : Option String := some "COMPLETED_SUCCESS"
  rest : String := ""
  deriving DecidableEq

structure Event where
  id : ℕ
  start : Time
  finish : Time := start
  success : Bool := true
  almaJobStatus : Option String := none
  messageBody : Option JobMessage := none
  deriving DecidableEq

structure Dump where
  id : ℕ
  dumpType : DumpType
  event : Event
  generatedDate : Option Time := none
  deleteIds : List String := []
  createdAt : Time := 0
  deriving DecidableEq

structure DumpFile where
  id : ℕ
  dumpId : Option ℕ
  dumpFileType : Option DumpFileType := none
  path : String := ""
  deriving DecidableEq

def DumpFile.recapRecordType (f : DumpFile) : Bool :=
  f.dumpFileType = some .recapRecords || f.dumpFileType = some .recapRecordsFull

/-- An entry of `jobs` in `config/alma.yml`. -/
structure JobConfiguration where
  dumpType : DumpType
  dumpFileType : DumpFileType

def jobsConfiguration : String → Option JobConfiguration
  | "Publishing Platform Job General Publishing" => some ⟨.fullDump, .bibRecords⟩
  | "Publishing Platform Job Incremental Publishing" => some ⟨.changedRecords, .updatedRecords⟩
  | "Publishing Platform Job Incremental ReCAP Records" => some ⟨.princetonRecap, .recapRecords⟩
  | _ => none

/-- The two tables that the index manager reads, the dumps by distinct ids. -/
structure Db where
  dumps : List Dump := []
  dumpFiles : List DumpFile := []
  nodup_id : (dumps.map (·.id)).Nodup := by decide

/-- The same tables, the dumps coming back from a query in another order. -/
def Db.scan (db : Db) (rows : List Dump) (h : rows.Perm db.dumps) : Db where
  dumps := rows
  dumpFiles := db.dumpFiles
  nodup_id := ((h.map _).nodup_iff).2 db.nodup_id

def Db.create (db : Db) (d : Dump) (h : d.id ∉ db.dumps.map (·.id)) : Db where
  dumps := d :: db.dumps
  dumpFiles := db.dumpFiles
  nodup_id := List.nodup_cons.2 ⟨h, db.nodup_id⟩

/-- A row of `dumps` changed in place. -/
def Db.update (db : Db) (id : ℕ) (change : Dump → Dump) (h : ∀ d, (change d).id = d.id) : Db where
  dumps := db.dumps.map fun d => if d.id = id then change d else d
  dumpFiles := db.dumpFiles
  nodup_id := by
    have hid : (db.dumps.map fun d => if d.id = id then change d else d).map (·.id)
        = db.dumps.map (·.id) := by
      rw [List.map_map]
      refine List.map_congr_left fun d _ => ?_
      simp only [Function.comp_apply]
      split_ifs
      · exact h d
      · rfl
    exact hid ▸ db.nodup_id

def Db.attach (db : Db) (files : List DumpFile) : Db where
  dumps := db.dumps
  dumpFiles := db.dumpFiles ++ files
  nodup_id := db.nodup_id

theorem Db.eq_of_id {db : Db} {d e : Dump} (hd : d ∈ db.dumps) (he : e ∈ db.dumps)
    (h : d.id = e.id) : d = e :=
  List.inj_on_of_nodup_map db.nodup_id hd he h

def Db.filesOf (db : Db) (d : Dump) : List DumpFile :=
  db.dumpFiles.filter (·.dumpId = some d.id)

namespace Dump

abbrev start (d : Dump) : Time := d.event.start

abbrev isFullDump (d : Dump) : Prop := d.dumpType = .fullDump

abbrev isChangedRecords (d : Dump) : Prop := d.dumpType = .changedRecords

end Dump

def Db.changedRecords (db : Db) : List Dump := db.dumps.filter (·.isChangedRecords)

def Db.fullDump (db : Db) : List Dump := db.dumps.filter (·.isFullDump)

@[simp] theorem Db.mem_changedRecords {db : Db} {d : Dump} :
    d ∈ db.changedRecords ↔ d ∈ db.dumps ∧ d.isChangedRecords := by
  simp [changedRecords]

@[simp] theorem Db.mem_fullDump {db : Db} {d : Dump} :
    d ∈ db.fullDump ↔ d ∈ db.dumps ∧ d.isFullDump := by
  simp [fullDump]

@[simp] theorem Db.mem_scan {db : Db} {rows : List Dump} {h : rows.Perm db.dumps} {d : Dump} :
    d ∈ (db.scan rows h).dumps ↔ d ∈ db.dumps :=
  h.mem_iff

@[simp] theorem Db.filesOf_scan {db : Db} {rows : List Dump} {h : rows.Perm db.dumps} {d : Dump} :
    (db.scan rows h).filesOf d = db.filesOf d := rfl

@[simp] theorem Db.mem_changedRecords_scan {db : Db} {rows : List Dump}
    {h : rows.Perm db.dumps} {d : Dump} :
    d ∈ (db.scan rows h).changedRecords ↔ d ∈ db.changedRecords := by
  rw [mem_changedRecords, mem_changedRecords, mem_scan]

@[simp] theorem Db.mem_fullDump_scan {db : Db} {rows : List Dump}
    {h : rows.Perm db.dumps} {d : Dump} :
    d ∈ (db.scan rows h).fullDump ↔ d ∈ db.fullDump := by
  rw [mem_fullDump, mem_fullDump, mem_scan]

theorem Db.filesOf_attach {db : Db} {files : List DumpFile} {d : Dump} :
    (db.attach files).filesOf d = db.filesOf d ++ files.filter (·.dumpId = some d.id) :=
  List.filter_append ..

theorem Db.filesOf_congr {db : Db} {d e : Dump} (h : d.id = e.id) :
    db.filesOf d = db.filesOf e := by
  simp [filesOf, h]

theorem Dump.not_isFullDump {d : Dump} (h : d.isChangedRecords) : ¬ d.isFullDump := by
  simp only [isChangedRecords, isFullDump] at h ⊢
  simp [h]

end Bibdata
