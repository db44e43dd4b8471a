import Bibdata.Library.Stoppable
import Bibdata.PartnerUpdates
import Bibdata.S3Bucket

/-!
# `process_incremental_files`, step by step

The archives are downloaded into the update directory and extracted there, the records of each
update file are written to the SCSB directory and attached to the dump, and the ids of the delete
files are recorded. Each change of a file or a row is a step, so that the job may be stopped after
any of them. An entry is not extracted over a file that exists.
-/

namespace Bibdata

namespace IncrementalFiles

/-- An object of the bucket that is a zip, with the texts of its entries. -/
structure Archive extends S3Object where
  entries : List String

inductive Content
  | unfinished
  | zip (entries : List String)
  | text (text : String)
  deriving DecidableEq

/-- The files of the update directory by name and those of the SCSB directory by path, and the
tables. -/
structure World where
  updateDirectory : String → Option Content := fun _ => none
  scsbFiles : String → Option Content := fun _ => none
  db : Db := {}

abbrev Job := Stoppable World

/-- What the libraries make of texts; `none` where they raise. -/
structure Readers where
  /-- `DateTime.parse`. -/
  parse : String → Option Time
  /-- The records of a MARC-XML file, read, processed and written. -/
  processRecords : String → Option String
  /-- The `bibId` of each record of a JSON file. -/
  bibIds : String → Option (List String)

section Steps

open Stoppable

def setFile (name : String) (content : Option Content) : Job Unit :=
  op fun w => some ((), { w with
    updateDirectory := Function.update w.updateDirectory name content })

def setScsbFile (path : String) (content : Option Content) : Job Unit :=
  op fun w => some ((), { w with scsbFiles := Function.update w.scsbFiles path content })

def exists? (name : String) : Job Bool := fun w =>
  ([], some ((w.updateDirectory name).isSome, w))

def raise {α : Type} : Job α := fun _ => ([], none)

def readZip (name : String) : Job (List String) := fun w =>
  match w.updateDirectory name with
  | some (.zip entries) => ([], some (entries, w))
  | _ => ([], none)

def readText (name : String) : Job String := fun w =>
  match w.updateDirectory name with
  | some (.text text) => ([], some (text, w))
  | _ => ([], none)

def readScsbText (path : String) : Job String := fun w =>
  match w.scsbFiles path with
  | some (.text text) => ([], some (text, w))
  | _ => ([], none)

/-- What a reader makes of a text. -/
def ofReader {α : Type} : Option α → Job α
  | some a => pure a
  | none => raise

def unlink (name : String) : Job Unit := do
  if ← exists? name then setFile name none else raise

def setDb (change : Db → Option Db) : Job Unit :=
  op fun w => (change w.db).map fun db => ((), { w with db })

end Steps

section Download

/-- `fetch_files`: opened, and then written. -/
def fetchFiles : List Archive → Job (List String)
  | [] => pure []
  | file :: files => do
    let dest := basename file.key
    setFile dest (some .unfinished)
    setFile dest (some (.zip file.entries))
    let dests ← fetchFiles files
    return dest :: dests

def filesToDownload (files : List Archive) (timestamp : Time) : List Archive :=
  files.filter fun file => S3Bucket.fileFilter file.key && timestamp < file.lastModified

end Download

section Extract

/-- `File.basename(file, '.zip')`. -/
def zipName (file : String) : String :=
  if endsWith file ".zip" && file ≠ ".zip" then
    String.ofList (file.toList.take (file.toList.length - 4))
  else file

def updateTarget (file : String) (fileIncrement : ℕ) : String :=
  updateFilename (zipName file) ++ "_" ++ toString fileIncrement ++ ".xml"

def deleteTarget (file : String) (fileIncrement : ℕ) : String :=
  "scsbdelete" ++ zipName file ++ "_" ++ toString fileIncrement ++ ".json"

/-- `entry.extract`. -/
def extract (target text : String) : Job Unit := do
  if ← exists? target then raise
  else
    setFile target (some .unfinished)
    setFile target (some (.text text))

variable (target : String → ℕ → String)

def extractEntries (file : String) : ℕ → List String → Job (List String)
  | _, [] => pure []
  | fileIncrement, text :: entries => do
    extract (target file fileIncrement) text
    let targets ← extractEntries file (fileIncrement + 1) entries
    return target file fileIncrement :: targets

/-- Each archive is extracted and then deleted. -/
def extractFiles : List String → Job (List String)
  | [] => pure []
  | file :: files => do
    let entries ← readZip file
    let targets ← extractEntries target file 1 entries
    unlink file
    let rest ← extractFiles files
    return targets ++ rest

end Extract

section Process

variable (readers : Readers) (scsbFileDir : String) (dumpId : ℕ)

def newId (db : Db) : ℕ := (db.dumpFiles.map (·.id)).foldl max 0 + 1

def createFile (path : String) (db : Db) : Db :=
  db.attach [{ id := newId db, dumpId := none, dumpFileType := some .recapRecords, path := path }]

/-- A row of `dump_files` changed in place. -/
def updateFile (id : ℕ) (change : DumpFile → DumpFile) (db : Db) : Db where
  dumps := db.dumps
  dumpFiles := db.dumpFiles.map fun f => if f.id = id then change f else f
  nodup_id := db.nodup_id

/-- The id that the next row gets. -/
def nextId : Job ℕ := fun w => ([], some (newId w.db, w))

/-- `create`, `zip`, and then `dump_files <<`. -/
def attachDumpFile (path : String) : Job Unit := do
  let id ← nextId
  setDb fun db => some (createFile path db)
  setScsbFile (path ++ ".gz") (some .unfinished)
  let text ← readScsbText path
  setScsbFile (path ++ ".gz") (some (.text text))
  setScsbFile path none
  setDb fun db => some (updateFile id (fun f => { f with path := path ++ ".gz" }) db)
  setDb fun db => some (updateFile id (fun f => { f with dumpId := some dumpId }) db)

def scsbPath (file : String) : String := scsbFileDir ++ "/" ++ "scsb_update_" ++ file

def processXmlFile (file : String) : Job Unit := do
  let text ← readText file
  setScsbFile (scsbPath scsbFileDir file) (some .unfinished)
  let records ← ofReader (readers.processRecords text)
  setScsbFile (scsbPath scsbFileDir file) (some (.text records))
  unlink file
  attachDumpFile dumpId (scsbPath scsbFileDir file)

def processXmlFiles : List String → Job Unit
  | [] => pure ()
  | file :: files => do
    processXmlFile readers scsbFileDir dumpId file
    processXmlFiles files

def processPartnerUpdates (files : List String) : Job Unit := do
  let xmlFiles ← extractFiles updateTarget files
  processXmlFiles readers scsbFileDir dumpId xmlFiles

def scsbIds : List String → Job (List String)
  | [] => pure []
  | file :: files => do
    let text ← readText file
    let ids ← ofReader (readers.bibIds text)
    unlink file
    let rest ← scsbIds files
    return ids ++ rest

def processPartnerDeletes (files : List String) : Job Unit := do
  let jsonFiles ← extractFiles deleteTarget files
  let ids ← scsbIds readers jsonFiles
  setDb fun db => some (Bibdata.processPartnerDeletes db dumpId ids)

/-- `Dump.find`. -/
def findDump : Job Unit := fun w =>
  if dumpId ∈ w.db.dumps.map (·.id) then ([], some ((), w)) else ([], none)

/-- What the bucket lists for updates and for deletes. -/
structure Listing where
  updates : List Archive
  deletes : List Archive

def processIncrementalFiles (s3 : Listing) (timestamp : Time) : Job Unit := do
  findDump dumpId
  let updateFiles ← fetchFiles (filesToDownload s3.updates timestamp)
  processPartnerUpdates readers scsbFileDir dumpId updateFiles
  setDb fun db => generatedDate readers.parse db dumpId
  let deleteFiles ← fetchFiles (filesToDownload s3.deletes timestamp)
  processPartnerDeletes readers dumpId deleteFiles

end Process

end IncrementalFiles

end Bibdata
