import Bibdata.Library.Pages
import Bibdata.Scsb
import Mathlib.Data.List.Infix
import Mathlib.Data.String.Basic

/-!
# Incremental imports from the partners' bucket

`Dump.partner_update` takes the creation of the last incremental as its timestamp, creates a dump
of its own, and enqueues a job. The job lists the update files page by page and downloads those
modified after the timestamp, then the same with the delete files. Files appear in the bucket
meanwhile, jobs wait, overlap and start again, and the clock goes on.
-/

namespace Bibdata

/-- A file is visible from `lastModified` on. -/
structure S3Object where
  key : String
  lastModified : Time
  deriving DecidableEq

namespace S3Bucket

/-- `/CUL-NYPL-HL.*\.zip/`, anywhere in the key. -/
def fileFilter (key : String) : Bool :=
  key.toList.tails.any fun rest =>
    "CUL-NYPL-HL".toList <+: rest && ".zip".toList <:+: (rest.drop 11).takeWhile (· ≠ '\n')

variable (bucket : List S3Object) (folder : String)

/-- The objects whose keys begin with `folder`. -/
def inFolder : List S3Object := bucket.filter fun o => folder.toList <+: o.key.toList

/-- A page of at most `size` objects, and the `next_continuation_token`. -/
def listObjectsV2 (token : Option String) (size : ℕ) : List S3Object × Option String :=
  (Pages.page S3Object.key (inFolder bucket folder) token size,
    Pages.next S3Object.key (inFolder bucket folder) token size)

/-- What `download_files` selects. -/
def filesToDownload (files : List S3Object) (timestampFilter : Time) : List S3Object :=
  (files.filter fun o => fileFilter o.key).filter (timestampFilter < ·.lastModified)

end S3Bucket

section Timestamp

variable (db : Db)

/-- `Dump.partner_recap.last&.created_at`. -/
def lastIncrementalUpdate : Option Time := (db.partnerRecap.argmax (·.id)).map (·.createdAt)

/-- The string that `strftime` makes of it keeps the microseconds. -/
def incrementalUpdateTimestamp (timestamp : Option Time) (now : Time) : Time :=
  (timestamp <|> lastIncrementalUpdate db).getD (now - 24 * 60 * 60 * 1000000)

end Timestamp

namespace IncrementalImport

/-- `download_partner_updates` and `download_partner_deletes`. -/
inductive Source
  | updates | deletes
  deriving DecidableEq

def Source.folder (env : String → Option String) : Source → String
  | .updates => (env "SCSB_S3_PARTNER_UPDATES").getD "data-exports/PUL/MARCXml/Incremental"
  | .deletes => (env "SCSB_S3_PARTNER_DELETES").getD "data-exports/PUL/Json"

inductive Phase
  | listing (source : Source) (token : Option String) (files : List S3Object)
  | fetching (source : Source) (files : List S3Object)
  | done
  deriving DecidableEq

/-- Where a job begins, and where it begins again. -/
def Phase.start : Phase := .listing .updates none []

/-- `downloaded` is what all its executions fetched. -/
structure Job where
  dumpId : ℕ
  timestamp : Time
  phase : Phase := .start
  downloaded : List S3Object := []
  deriving DecidableEq

structure State where
  now : Time := 0
  bucket : List S3Object := []
  db : Db := {}
  jobs : List Job := []
  nodup_key : (bucket.map (·.key)).Nodup := by decide
  visible : ∀ o ∈ bucket, o.lastModified ≤ now := by simp

inductive Act
  | wait (t : Time)
  | upload (key : String)
  | partnerUpdate (dumpId eventId : ℕ)
  | page (job : ℕ) (size : ℕ)
  | fetch (job : ℕ)
  | restart (job : ℕ)
  deriving DecidableEq

variable (env : String → Option String) (s : State)

def wait (t : Time) (h : s.now ≤ t) : State :=
  { s with now := t, visible := fun o ho => (s.visible o ho).trans h }

def upload (key : String) (h : key ∉ s.bucket.map (·.key)) : State :=
  { s with
    bucket := ⟨key, s.now⟩ :: s.bucket
    nodup_key := List.nodup_cons.2 ⟨h, s.nodup_key⟩
    visible := List.forall_mem_cons.2 ⟨le_rfl, s.visible⟩ }

/-- The row that `Dump.partner_update` creates. -/
def newDump (dumpId eventId : ℕ) : Dump where
  id := dumpId
  dumpType := .partnerRecap
  event := { id := eventId, start := s.now }
  createdAt := s.now

def partnerUpdate (dumpId eventId : ℕ) (h : ∀ d ∈ s.db.dumps, d.id < dumpId) : State :=
  { s with
    db := s.db.create (newDump s dumpId eventId) fun hmem => by
      obtain ⟨d, hd, hid⟩ := List.mem_map.1 hmem
      exact (h d hd).ne hid
    jobs := s.jobs ++ [{ dumpId, timestamp := incrementalUpdateTimestamp s.db none s.now }] }

def setJob (i : ℕ) (job : Job) : State := { s with jobs := s.jobs.set i job }

/-- The phase after a response. -/
def listed (source : Source) (timestamp : Time) (files : List S3Object) : Option String → Phase
  | some token => .listing source (some token) files
  | none => .fetching source (S3Bucket.filesToDownload files timestamp)

def Job.page (bucket : List S3Object) (size : ℕ) (job : Job) : Option Job :=
  match job.phase with
  | .listing source token files =>
    let response := S3Bucket.listObjectsV2 bucket (source.folder env) token size
    some { job with phase := listed source job.timestamp (files ++ response.1) response.2 }
  | _ => none

/-- The next file is fetched; after the last the update files are processed, or the delete files
are. -/
def Job.fetch (job : Job) : Option Job :=
  match job.phase with
  | .fetching source (o :: files) =>
    some { job with phase := .fetching source files, downloaded := o :: job.downloaded }
  | .fetching .updates [] => some { job with phase := .listing .deletes none [] }
  | .fetching .deletes [] => some { job with phase := .done }
  | _ => none

/-- The dump's row is there since before now. -/
def Created (dumpId : ℕ) : Prop := ∃ d ∈ s.db.dumps, d.id = dumpId ∧ d.createdAt < s.now

instance (dumpId : ℕ) : Decidable (Created s dumpId) :=
  inferInstanceAs (Decidable (∃ d ∈ s.db.dumps, _))

def step : Act → Option State
  | .wait t => if h : s.now ≤ t then some (wait s t h) else none
  | .upload key => if h : key ∉ s.bucket.map (·.key) then some (upload s key h) else none
  | .partnerUpdate dumpId eventId =>
    if h : ∀ d ∈ s.db.dumps, d.id < dumpId then some (partnerUpdate s dumpId eventId h) else none
  | .page i size =>
    s.jobs[i]?.bind fun job =>
      if 0 < size ∧ Created s job.dumpId then (job.page env s.bucket size).map (setJob s i)
      else none
  | .fetch i => s.jobs[i]?.bind fun job => job.fetch.map (setJob s i)
  | .restart i => s.jobs[i]?.map fun job => setJob s i { job with phase := .start }

end IncrementalImport

end Bibdata
