import Bibdata.Scsb
import Bibdata.Strings

/-!
# Importing the incrementals of the partners

An incremental is created, its update files are attached under names that hold their dates, its
`generated_date` is set from these names, and then the ids to delete are recorded. `parse` is
`DateTime.parse`.
-/

namespace Bibdata

section Names

def basename (path : String) : String :=
  String.ofList ((path.toList.splitOn '/').getLast?.getD [])

/-- The name with `/^[^_]+_([0-9]+)_([0-9]+).*$/` replaced by the two numbers. -/
def updateFilename (filename : String) : String :=
  let head := filename.toList.takeWhile (· ≠ '_')
  let afterHead := (filename.toList.dropWhile (· ≠ '_')).drop 1
  let date := afterHead.takeWhile Char.isDigit
  let afterDate := afterHead.dropWhile Char.isDigit
  let time := (afterDate.drop 1).takeWhile Char.isDigit
  if head ≠ [] ∧ date ≠ [] ∧ afterDate.head? = some '_' ∧ time ≠ [] then
    String.ofList (date ++ '_' :: time)
  else filename

/-- The paths of the files that the zip of this name brings, once they are zipped. -/
def updatePaths (scsbFileDir : String) (zip : String × ℕ) : List String :=
  (List.range zip.2).map fun i =>
    scsbFileDir ++ "/" ++ "scsb_update_" ++ updateFilename zip.1 ++ "_" ++ toString (i + 1)
      ++ ".xml" ++ ".gz"

end Names

/-- What one run for a new dump downloads: the update zips, by name and number of entries, and the
`bibId`s of the delete files. -/
structure Downloads where
  dumpId : ℕ
  eventId : ℕ
  createdAt : Time
  updates : List (String × ℕ)
  deletes : List String

/-- The row that `Dump.partner_update` creates. -/
def Downloads.dump (down : Downloads) : Dump where
  id := down.dumpId
  dumpType := .partnerRecap
  event := { id := down.eventId, start := down.createdAt }
  createdAt := down.createdAt

section Dates

variable (parse : String → Option Time) (db : Db)

def dateString (f : DumpFile) : Option String :=
  (split '_' (basename f.path))[if f.dumpFileType = some .recapRecordsFullMetadata then 3 else 2]?

/-- The date that a file has in its name; `none` where `DateTime.parse` raises. -/
def fileDate (f : DumpFile) : Option Time := (dateString f).bind parse

/-- `Dump.generated_date`; it raises where a name has no date. -/
def generatedDate (id : ℕ) : Option Db :=
  ((db.dumpFiles.filter (·.dumpId = some id)).mapM (fileDate parse)).map fun dates =>
    db.update id (fun d => { d with generatedDate := dates.min? }) fun _ => rfl

def processPartnerUpdates (scsbFileDir : String) (id : ℕ) (updates : List (String × ℕ)) : Db :=
  db.attach ((updates.flatMap (updatePaths scsbFileDir)).zipIdx.map fun (path, i) =>
    { id := db.dumpFiles.length + i, dumpId := some id, dumpFileType := some .recapRecords,
      path := path })

def processPartnerDeletes (id : ℕ) (deletes : List String) : Db :=
  db.update id (fun d => { d with deleteIds := deletes.map ("SCSB-" ++ ·) }) fun _ => rfl

/-- Where `generated_date` raises, the files stay and the deletes are not reached. -/
def processIncrementalFiles (scsbFileDir : String) (down : Downloads) : Db :=
  let updated := processPartnerUpdates db scsbFileDir down.dumpId down.updates
  match generatedDate parse updated down.dumpId with
  | some dated => processPartnerDeletes dated down.dumpId down.deletes
  | none => updated

/-- `Dump.partner_update` and the import that it enqueues. -/
def partnerUpdate (scsbFileDir : String) (down : Downloads) : Option Db :=
  if h : down.dump.id ∉ db.dumps.map (·.id) then
    some (processIncrementalFiles parse (db.create down.dump h) scsbFileDir down)
  else none

end Dates

end Bibdata
