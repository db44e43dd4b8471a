import Bibdata.IncrementalFiles
import Bibdata.Workflow

/-!
# `Import::Alma`, step by step

For each remote file of the job a row is made, and a local file that is in its place is emptied.
Then the downloads are waited for, whose packets come in any order, and the rows are attached to the
dump one by one. Each change of a row or a file is a step. An execution that is stopped is run again
from the start.
-/

namespace Bibdata

namespace ImportAlma

abbrev Bytes := List UInt8

structure RemoteFile where
  name : String
  content : Bytes
  deriving DecidableEq

/-- What the server lists in one directory. -/
structure Listing where
  entries : List RemoteFile
  nodup_name : (entries.map (·.name)).Nodup
  notMem_name : ∀ entry ∈ entries, '/' ∉ entry.name.toList

/-- `sftp_alma_base_path` and `data_dir`. -/
structure Config where
  remoteBasePath : String
  dataDir : String

structure World extends Sys where
  disk : String → Option Bytes := fun _ => none

abbrev Job := Stoppable World

section Steps

open Stoppable

def setDb (change : Db → Db) : Job Unit :=
  op fun w => some ((), { w with db := change w.db })

def setFile (path : String) (content : Bytes) : Job Unit :=
  op fun w => some ((), { w with disk := Function.update w.disk path (some content) })

def exists? (path : String) : Job Bool := fun w => ([], some ((w.disk path).isSome, w))

def nextId : Job ℕ := fun w => ([], some (IncrementalFiles.newId w.db, w))

def raise {α : Type} : Job α := fun _ => ([], none)

/-- `Dump.find`. -/
def findDump (dumpId : ℕ) : Job Dump := fun w =>
  ([], (w.db.dumps.find? (·.id = dumpId)).map fun dump => (dump, w))

/-- The type that is configured for the job of the dump; it raises where none is. -/
def dumpFileTypeOf (dump : Dump) : Job DumpFileType :=
  match findDumpFileType dump with
  | some dumpFileType => pure dumpFileType
  | none => raise

/-- `IndexManager.for(url).index_remaining!`. -/
def indexRemaining (fuel : ℕ) : Job Unit :=
  op fun w => (w.toSys.callIndexRemaining w.manager fuel).map fun s => ((), { w with toSys := s })

end Steps

namespace AlmaDownloader

section Paths

variable (config : Config)

def parseJobId (name : String) : Option String := (split '_' name)[1]?

def remotePath (entry : RemoteFile) : String := config.remoteBasePath ++ "/" ++ entry.name

/-- The entries of the job. `remote_paths` are their paths. -/
def jobEntries (listing : Listing) (jobId : String) : List RemoteFile :=
  listing.entries.filter fun entry => parseJobId entry.name = some jobId

def dumpFilePath (remotePath : String) : String := config.dataDir ++ "/" ++ basename remotePath

end Paths

/-- A download: where to, what, and how much of it has been written since the file was opened. -/
structure Download where
  localPath : String
  content : Bytes
  received : Option ℕ := none

namespace Download

variable (download : Download)

/-- The answer to its next request: the file is opened, and then written piece by piece. -/
def receive (size : ℕ) : Download :=
  { download with received := some (match download.received with
      | none => 0
      | some n => min (n + size) download.content.length) }

def written : Bytes := download.content.take (download.received.getD 0)

def isDone : Bool := download.received = some download.content.length

end Download

/-- A packet that arrives: the number of its download, and its size. -/
structure Packet where
  download : ℕ
  size : ℕ

/-- `downloads.each(&:wait)`; it raises where the packets end before the downloads do. -/
def wait : List Packet → List Download → Job Unit
  | [], downloads => if downloads.all (·.isDone) then pure () else raise
  | packet :: packets, downloads =>
    match downloads[packet.download]? with
    | none => wait packets downloads
    | some download => do
      let received := download.receive packet.size
      setFile received.localPath received.written
      wait packets (downloads.set packet.download received)

variable (config : Config) (dumpFileType : DumpFileType)

/-- `transfer_file`, up to where the download is under way. -/
def transferFile (entry : RemoteFile) (localPath : String) : Job Download := do
  if ← exists? localPath then setFile localPath []
  return { localPath := localPath, content := entry.content }

/-- The loop over the remote paths: the ids of the rows, and the downloads. -/
def createFiles : List RemoteFile → Job (List ℕ × List Download)
  | [] => pure ([], [])
  | entry :: entries => do
    let path := dumpFilePath config (remotePath config entry)
    let id ← nextId
    setDb fun db => db.attach
      [{ id := id, dumpId := none, dumpFileType := some dumpFileType, path := path }]
    let download ← transferFile entry path
    let (ids, downloads) ← createFiles entries
    return (id :: ids, download :: downloads)

def filesFor (listing : Listing) (jobId : String) (packets : List Packet) : Job (List ℕ) := do
  let (ids, downloads) ← createFiles config dumpFileType (jobEntries listing jobId)
  wait packets downloads
  return ids

end AlmaDownloader

section Perform

/-- `dump.dump_files << file`. -/
def attachFile (dumpId id : ℕ) (db : Db) : Db :=
  IncrementalFiles.updateFile id (fun f => { f with dumpId := some dumpId }) db

def attachFiles (dumpId : ℕ) : List ℕ → Job Unit
  | [] => pure ()
  | id :: ids => do
    setDb (attachFile dumpId id)
    attachFiles dumpId ids

variable (config : Config) (listing : Listing) (dumpId : ℕ) (jobId : String)

/-- `perform` up to where `files_for` returns. -/
def download (packets : List AlmaDownloader.Packet) : Job (Dump × List ℕ) := do
  let dump ← findDump dumpId
  let dumpFileType ← dumpFileTypeOf dump
  let ids ← AlmaDownloader.filesFor config dumpFileType listing jobId packets
  return (dump, ids)

/-- `dump.save` finds nothing changed. -/
def perform (packets : List AlmaDownloader.Packet) (fuel : ℕ) : Job Unit := do
  let (dump, ids) ← download config listing dumpId jobId packets
  attachFiles dumpId ids
  if incrementalDump dump then indexRemaining fuel

/-- An execution that is stopped after so many steps. -/
structure Execution where
  packets : List AlmaDownloader.Packet
  fuel : ℕ
  steps : ℕ

/-- What the executions leave that are stopped one after the other. -/
def stopped : List Execution → World → World
  | [], w => w
  | execution :: executions, w =>
    stopped executions (Stoppable.stopAt
      (perform config listing dumpId jobId execution.packets execution.fuel) execution.steps w)

end Perform

end ImportAlma

end Bibdata
