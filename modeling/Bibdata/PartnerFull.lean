import Bibdata.DownloadFullFileJob
import Bibdata.Library.Batches
import Mathlib.Data.List.Sort

/-!
# The full import of the partners

`Import::Partner::Full` makes an overall batch with one job, which puts a batch for each
institution under it. Its CSV is validated; only then its zip is downloaded and unzipped, and each
file of the zip processed and attached to the dump. Once nothing is left under the overall batch,
the event is a success. A job may stop at any of its steps, and is run again then; it may also be
run again when it has done all. Objects come to the bucket meanwhile.
-/

namespace Bibdata

namespace PartnerFull

inductive Institution
  | nypl | cul | hl
  deriving DecidableEq

def Institution.name : Institution → String
  | nypl => "NYPL"
  | cul => "CUL"
  | hl => "HL"

def Institution.filePrefix : Institution → String
  | nypl => "scsbfull_nypl_"
  | cul => "scsbfull_cul_"
  | hl => "scsbfull_hl_"

def institutions : List Institution := [.nypl, .cul, .hl]

structure Object extends S3Object where
  text : String

structure Settings where
  updateDirectory : String := "/tmp/updates"
  scsbFileDir : String
  partnerFulls : String := "data-exports/PUL/MARCXml/Full"

/-- What the libraries make of the text of a file; `none` where they raise. -/
structure Readers where
  /-- The first value of the column `Collection Group Id(s)`, if there is one. -/
  groupIds : String → Option (Option String)
  /-- The texts of the entries of a zip. -/
  entries : String → Option (List String)
  /-- The records of a MARC-XML file, read, processed and written. -/
  processRecords : String → Option String

/-- A CSV that was found to be as expected. -/
structure Validation where
  institution : Institution
  csv : String
  deriving DecidableEq

/-- A zip that was unzipped, with the files whose jobs were put under its batch. -/
structure Download where
  institution : Institution
  zipFile : String
  entries : List String
  xmlFiles : List String
  deriving DecidableEq

/-- `attached` are the dump files by path and type. -/
structure State where
  bucket : List Object := []
  files : DownloadFullFileJob.Files := fun _ => none
  attached : List (String × DumpFileType) := []
  validations : List Validation := []
  downloads : List Download := []
  success : Bool := false

inductive Job
  | startWorkflow
  | validateCsv (institution : Institution)
  | downloadFullFile (institution : Institution)
  | processXmlFile (file : String)
  deriving DecidableEq

inductive Callback
  | validateCsvSuccess (institution : Institution)
  | downloadFileSuccess
  | processXmlFileSuccess (zipFile : String)
  deriving DecidableEq

abbrev Work := Batches.Work Job Callback

section Steps

open Stoppable

def setFile (path : String) (text : Option String) : Stoppable State Unit :=
  op fun s => some ((), { s with files := Function.update s.files path text })

def readFile (path : String) : Stoppable State String := fun s =>
  match s.files path with
  | some text => ([], some (text, s))
  | none => ([], none)

def exists? (path : String) : Stoppable State Bool := fun s =>
  ([], some ((s.files path).isSome, s))

def raise {α : Type} : Stoppable State α := fun _ => ([], none)

/-- What a reader makes of a text. -/
def ofReader {α : Type} : Option α → Stoppable State α
  | some a => pure a
  | none => raise

def unlinkIfExists (path : String) : Stoppable State Unit := do
  if ← exists? path then setFile path none else pure ()

/-- The path of a dump file once it is zipped. -/
def zippedPath (path : String) : String := if endsWith path ".gz" then path else path ++ ".gz"

/-- `zip`. -/
def zip (path : String) : Stoppable State Unit :=
  if endsWith path ".gz" then pure ()
  else do
    setFile (path ++ ".gz") (some "")
    let text ← readFile path
    setFile (path ++ ".gz") (some text)
    setFile path none

def attachDumpFile (path : String) (dumpFileType : DumpFileType) : Stoppable State Unit := do
  zip path
  op fun s => some ((), { s with attached := s.attached ++ [(zippedPath path, dumpFileType)] })

end Steps

section Jobs

open Stoppable

variable (settings : Settings) (readers : Readers)

/-- `/#{institution}.*\.#{extension}/`, anywhere in the key. -/
def fileFilter (institution : Institution) (extension key : String) : Bool :=
  key.toList.tails.any fun rest =>
    institution.name.toList <+: rest
      && ('.' :: extension.toList) <:+: (rest.drop institution.name.length).takeWhile (· ≠ '\n')

/-- The matching object that was modified last; of several, the one that is listed last. -/
def recentFile (bucket : List Object) (institution : Institution) (extension : String) :
    Option Object :=
  ((bucket.filter fun o => settings.partnerFulls.toList <+: o.key.toList
    && fileFilter institution extension o.key).insertionSort
      fun a b => a.lastModified ≤ b.lastModified).getLast?

def listRecent (institution : Institution) (extension : String) :
    Stoppable State (Option Object) := fun s =>
  ([], some (recentFile settings s.bucket institution extension, s))

/-- `download_full_file`. -/
def downloadFullFile (institution : Institution) (extension : String) :
    Stoppable State String := do
  match ← listRecent settings institution extension with
  | none => raise
  | some object =>
    let dest := settings.updateDirectory ++ "/" ++ basename object.key
    setFile dest (some "")
    setFile dest (some object.text)
    return dest

def expectedCollections : String := "1*2*5*6"

/-- `ValidateCsvJob`; the CSV where it is as expected. -/
def validateCsv (institution : Institution) : Stoppable State String := do
  let file ← downloadFullFile settings institution "csv"
  let text ← readFile file
  let groupIds ← ofReader (readers.groupIds text)
  let destination := settings.scsbFileDir ++ "/" ++ basename file
  setFile destination (some text)
  setFile file none
  attachDumpFile destination .recapRecordsFullMetadata
  unlinkIfExists destination
  if groupIds = some expectedCollections then return text else raise

/-- The loop of `unzip_file`; a file that is there is left, and its number is not increased. -/
def extractEntries (file filePrefix : String) : ℕ → List String → Stoppable State (List String)
  | _, [] => pure []
  | fileIncrement, entry :: entries => do
    let path :=
      DownloadFullFileJob.targetPath settings.updateDirectory file filePrefix fileIncrement
    if ← exists? path then
      let xmlFiles ← extractEntries file filePrefix fileIncrement entries
      return path :: xmlFiles
    else
      setFile path (some "")
      setFile path (some entry)
      let xmlFiles ← extractEntries file filePrefix (fileIncrement + 1) entries
      return path :: xmlFiles

/-- `DownloadFullFileJob`, up to the batch for the files. -/
def downloadAndUnzip (institution : Institution) : Stoppable State Download := do
  let zipFile ← downloadFullFile settings institution "zip"
  let text ← readFile zipFile
  let entries ← ofReader (readers.entries text)
  let xmlFiles ← extractEntries settings zipFile institution.filePrefix 1 entries
  return { institution, zipFile, entries, xmlFiles := xmlFiles.eraseDups }

def recordsPath (file : String) : String := settings.scsbFileDir ++ "/" ++ basename file

def processXmlFile (file : String) : Stoppable State Unit := do
  let text ← readFile file
  setFile (recordsPath settings file) (some "")
  let records ← ofReader (readers.processRecords text)
  setFile (recordsPath settings file) (some records)
  attachDumpFile (recordsPath settings file) .recapRecordsFull
  unlinkIfExists file

end Jobs

section Batches

variable (settings : Settings) (readers : Readers)

/-- An attempt at a job or callback: it may stop after some of its steps, and where it does not,
it may be run again all the same. -/
structure Attempt where
  stop : Option ℕ := none
  again : Bool := false

/-- What an attempt at a job leaves, and what it returns if it comes to its end. -/
def attempt {α : Type} (p : Stoppable State α) (e : Attempt) (s : State) : State × Option α :=
  match e.stop with
  | some n => (p.stopAt n s, none)
  | none =>
    match p.run s with
    | some (a, s') => (s', some a)
    | none => (p.stopAt (p s).1.length s, none)

def validateBatch (institution : Institution) : Work :=
  .batch (.validateCsvSuccess institution) [.job (.validateCsv institution)]

def downloadBatch (institution : Institution) : Work :=
  .batch .downloadFileSuccess [.job (.downloadFullFile institution)]

def processBatch (d : Download) : Work :=
  .batch (.processXmlFileSuccess d.zipFile) (d.xmlFiles.map fun file => .job (.processXmlFile file))

def perform (s : State) (j : Job) (e : Attempt) : State × Option (List Work) :=
  match j with
  | .startWorkflow =>
    match e.stop with
    -- The batches are put there one by one.
    | some n => (s, some ((institutions.take n).map validateBatch ++ [.job j]))
    | none => (s, some (Batches.left e.again (.job j) (institutions.map validateBatch)))
  | .validateCsv institution =>
    match attempt (validateCsv settings readers institution) e s with
    | (s', some csv) =>
      ({ s' with validations := s'.validations ++ [⟨institution, csv⟩] },
        some (Batches.left e.again (.job j) []))
    | (s', none) => (s', none)
  | .downloadFullFile institution =>
    match attempt (downloadAndUnzip settings readers institution) e s with
    | (s', some d) =>
      ({ s' with downloads := s'.downloads ++ [d] },
        some (Batches.left e.again (.job j) [processBatch d]))
    | (s', none) => (s', none)
  | .processXmlFile file =>
    let r := attempt (processXmlFile settings readers file) e s
    (r.1, r.2.map fun _ => Batches.left e.again (.job j) [])

def callback (s : State) (c : Callback) (e : Attempt) : State × List Work :=
  match c with
  | .validateCsvSuccess institution =>
    (s, Batches.left e.again (.batch c []) [downloadBatch institution])
  | .downloadFileSuccess => (s, Batches.left e.again (.batch c []) [])
  | .processXmlFileSuccess zipFile =>
    ({ s with files := Function.update s.files zipFile none },
      Batches.left e.again (.batch c []) [])

def handlers : Batches.Handlers State Job Callback Attempt where
  perform s j e := some (perform settings readers s j e)
  callback s c e := some (callback s c e)

end Batches

section System

variable (settings : Settings) (readers : Readers) (parse : String → Option Time)

/-- An import, with what is left under its overall batch. -/
structure System where
  state : State
  work : List Work
  generatedDate : Option Time := none

inductive Act
  | attempt (path : List ℕ) (e : Attempt)
  | upload (object : Object)
  | overallSuccess

def fileDates (attached : List (String × DumpFileType)) : Option (List Time) :=
  attached.mapM fun f =>
    fileDate parse { id := 0, dumpId := none, dumpFileType := some f.2, path := f.1 }

def step (s : System) : Act → Option System
  | .attempt path e =>
    (Batches.stepAt (handlers settings readers) s.state e path s.work).map fun r =>
      { s with state := r.1, work := r.2 }
  | .upload object => some { s with state := { s.state with bucket := s.state.bucket ++ [object] } }
  | .overallSuccess =>
    if s.work.isEmpty then
      (fileDates parse s.state.attached).map fun dates =>
        { s with state := { s.state with success := true }, generatedDate := dates.min? }
    else none

/-- Whether `delete_stale_files` finds the path. -/
def isStale (path : String) : Bool :=
  path = settings.updateDirectory ++ "/" ++ basename path && !(basename path).startsWith "."
    && [".zip", ".xml", ".csv"].any (endsWith path)

/-- An import that has just begun. -/
def begun (bucket : List Object) (files : DownloadFullFileJob.Files) : System where
  state := { bucket, files := fun path => if isStale settings path then none else files path }
  work := [.job .startWorkflow]

end System

end PartnerFull

end Bibdata
