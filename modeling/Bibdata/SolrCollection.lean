import Bibdata.Proofs.Overlap
import Bibdata.TrajectIndexer

/-!
# A Solr collection and what indexes it

The `DumpFileJob`s of a batch run `traject`, several of them at a time, on one collection: a job
once on each file in its dump file, of which only a tar has more than one. `index_file` raises
after a process that fails with a `FATAL`, and goes on after any other, also after one that was
killed. A job that raises or is killed runs again. `reindex!` wipes the collection before it starts
over. `content` are the records of the files in a dump file. What Solr makes of the requests of a
killed process it has made by the time that `index_file` goes on.
-/

namespace Bibdata

/-- A process that runs `traject` on the records of a file. -/
structure Process (ρ δ : Type*) where
  records : List ρ
  state : Traject.State ρ δ
  deriving DecidableEq

/-- What a process leaves as it is though its file says something about it; one that was killed
leaves all that it did not come to. -/
def Process.givenUp {ρ δ : Type*} (config : Traject.Configuration ρ δ) (q : Process ρ δ) :
    List String :=
  if Traject.Done q.state then Traject.givenUp config q.state
  else (Traject.mentioned config q.records).filter (¬ Traject.Settled config q.state q.records ·)

/-- A `DumpFileJob` that is running. `left` are the files in its dump file that it has not come
to. -/
structure FileRun (ρ δ : Type*) where
  file : DumpFile
  left : List (List ρ)
  ended : List (Process ρ δ) := []
  current : Option (Process ρ δ) := none
  deriving DecidableEq

namespace FileRun

variable {ρ δ : Type*} (p : FileRun ρ δ)

def processes : List (Process ρ δ) := p.ended ++ p.current.toList

/-- The next file, once no process runs. -/
def openEntry : Option (FileRun ρ δ) :=
  match p.current, p.left with
  | none, entry :: left => some { p with left, current := some ⟨entry, { unread := entry }⟩ }
  | _, _ => none

/-- The job once its process has got to `state`. -/
def withState (q : Process ρ δ) (state : Traject.State ρ δ) : FileRun ρ δ :=
  { p with current := some { q with state } }

def exited (q : Process ρ δ) : FileRun ρ δ := { p with ended := p.ended ++ [q], current := none }

end FileRun

/-- What `index_file` gets from a process at its end: whether its stderr has a `FATAL`, and whether
its status is a success. -/
structure Exit where
  fatal : Bool
  success : Bool
  deriving DecidableEq

def Exit.raises (e : Exit) : Bool := e.fatal && !e.success

/-- `applied` are the files of each dump that was given a batch since the collection was wiped, and
`givenUp` the ids that the jobs done since then leave as they were. -/
structure Collection (ρ δ : Type*) where
  sys : Sys
  solr : SolrStore δ := fun _ => none
  runs : List (FileRun ρ δ) := []
  applied : List (List DumpFile) := []
  givenUp : List String := []

namespace Collection

inductive Act
  /-- Anything that happens besides the jobs of a batch. -/
  | sys (a : Bibdata.Act)
  | start (d : Dump) (jobs : List DumpFile) (f : DumpFile)
  | entry (i : ℕ)
  | run (i : ℕ) (e : Traject.Event)
  | exit (i : ℕ) (e : Exit)
  | stop (i : ℕ)
  | finish (i : ℕ) (d : Dump) (jobs : List DumpFile)

variable {ρ δ : Type*} (config : Traject.Configuration ρ δ) (content : DumpFile → List (List ρ))
  (c : Collection ρ δ)

/-- The collection while the index manager goes on from `c.sys` to `s`. -/
def advance (s : Sys) : Collection ρ δ :=
  { c with
    sys := s
    applied := c.applied ++ (s.processed.drop c.sys.processed.length).map s.db.filesOf }

/-- `wipe!`. -/
def wiped : Collection ρ δ := { c with solr := fun _ => none, applied := [], givenUp := [] }

def stepSys (a : Bibdata.Act) : Option (Collection ρ δ) :=
  match a with
  | .dumpFileJob _ _ _ => none
  | .reindexed _ _ => (Bibdata.step c.sys a).map c.wiped.advance
  | _ => (Bibdata.step c.sys a).map c.advance

def step : Act → Option (Collection ρ δ)
  | .sys a => c.stepSys a
  | .start d jobs f =>
    if .indexing d jobs ∈ c.sys.batches ∧ f ∈ jobs ∧ f ∉ c.runs.map (·.file) then
      some { c with runs := c.runs ++ [⟨f, content f, [], none⟩] }
    else none
  | .entry i =>
    (c.runs[i]?.bind FileRun.openEntry).map fun p => { c with runs := c.runs.set i p }
  | .run i e =>
    c.runs[i]?.bind fun p => p.current.bind fun q =>
      (Traject.step config q.state e).map fun r =>
        { c with
          solr := KeyedStore.write c.solr r.2
          runs := c.runs.set i (p.withState q r.1) }
  | .exit i e =>
    c.runs[i]?.bind fun p => p.current.map fun q =>
      { c with runs := if e.raises then c.runs.eraseIdx i else c.runs.set i (p.exited q) }
  | .stop i => if i < c.runs.length then some { c with runs := c.runs.eraseIdx i } else none
  | .finish i d jobs =>
    c.runs[i]?.bind fun p =>
      if p.current.isNone ∧ p.left.isEmpty then
        (Bibdata.step c.sys (.dumpFileJob d jobs p.file)).map fun s =>
          { c with
            sys := s
            runs := c.runs.eraseIdx i
            givenUp := c.givenUp ++ p.ended.flatMap (Process.givenUp config) }
      else none

def fresh (db : Db) : Collection ρ δ := { sys := Sys.fresh db }

/-- Nothing is indexed. -/
def Idle : Prop := ∀ b ∈ c.sys.batches, b.dump = none

instance : Decidable c.Idle := inferInstanceAs (Decidable (∀ _ ∈ _, _))

/-- Catch-ups come one at a time, and the collection is wiped only between them. -/
def Orderly : Act → Prop
  | .sys (.reindexed copy fuel) =>
    OneAtATime c.sys (.reindexed copy fuel) ∧ ∀ b ∈ c.sys.batches, b = .finished
  | .sys a => OneAtATime c.sys a
  | _ => True

instance : ∀ a : Act, Decidable (c.Orderly a)
  | .sys (.reindexed _ _) => inferInstanceAs (Decidable (_ ∧ ∀ _ ∈ _, _))
  | .sys (.poll _ _ _) | .sys (.attach _ _) | .sys (.imported _ _) | .sys (.scan _)
  | .sys (.indexRemaining _) | .sys .reindex | .sys (.remainingDumpsJob _)
  | .sys (.dumpFileJob _ _ _) | .sys (.onSuccess _ _) | .sys .indexedRemaining =>
    inferInstanceAs (Decidable (OneAtATime _ _))
  | .start _ _ _ | .entry _ | .run _ _ | .exit _ _ | .stop _ | .finish _ _ _ => isTrue trivial

/-- A file in the files of a dump mentions the id. -/
def MentionedIn (files : List DumpFile) (id : String) : Prop :=
  ∃ f ∈ files, ∃ records ∈ content f, Traject.Mentions config records id

instance (files : List DumpFile) (id : String) : Decidable (MentionedIn config content files id) :=
  inferInstanceAs (Decidable (∃ _ ∈ _, ∃ _ ∈ _, _))

/-- A file in the files of a dump says that the id has `v`. -/
def SaidIn (files : List DumpFile) (id : String) (v : Option δ) : Prop :=
  ∃ f ∈ files, ∃ records ∈ content f, Traject.Mentions config records id
    ∧ Traject.Says config records id v

/-- What the files of some dumps, one dump after the other, may leave under an id. -/
inductive Leaves : List (List DumpFile) → String → Option δ → Prop
  | nothing (id : String) : Leaves [] id none
  | unmentioned {before : List (List DumpFile)} {files : List DumpFile} {id : String}
      {v : Option δ} (h : Leaves before id v) (hno : ¬ MentionedIn config content files id) :
      Leaves (before ++ [files]) id v
  | said {before : List (List DumpFile)} {files : List DumpFile} {id : String} {v : Option δ}
      (h : SaidIn config content files id v) : Leaves (before ++ [files]) id v

end Collection

end Bibdata
