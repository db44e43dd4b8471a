import Bibdata.Library.Disk

/-!
# Indexing a dump file in place

A dump file that is only gzipped is unzipped under another name, indexed from there and zipped
again; each time the old file is deleted and then the new path saved. Executions share the two
names and the row, and each takes one step on the disk or the row at a time. A step raises where
the source does, and any step may raise or be killed besides.
-/

namespace Bibdata

/-- The path of the dump file, with or without its `.gz`. -/
inductive FilePath
  | plain | gz
  deriving DecidableEq

/-- What 16 KiB of a file hold: a chunk, plain or compressed, or the end of an archive with the
checksum of its chunks. -/
inductive Block (χ : Type*)
  | chunk (c : χ)
  | footer (sum : List χ)
  | hole
  deriving DecidableEq

variable {χ : Type*}

structure Store (χ : Type*) where
  disk : Disk FilePath (Block χ)
  path : FilePath

/-- Where an execution of `index!` is. The chunks that it has read in its current loop, and those
that `index_file` has read, go along. -/
inductive Execution (χ : Type*)
  | found (path : FilePath)
  | unzip (src : ℕ)
  | unzipRead (src dst : ℕ) (got : List χ)
  | unzipWrite (src dst : ℕ) (got : List χ) (c : χ)
  | deleteGz
  | savePlain
  | openPlain
  | indexFile
  | indexRead (src : ℕ) (got : List χ)
  | zip (passed : List χ)
  | zipOpen (dst : ℕ) (passed : List χ)
  | zipRead (src dst : ℕ) (got : List χ) (passed : List χ)
  | zipWrite (src dst : ℕ) (got : List χ) (c : χ) (passed : List χ)
  | zipClose (dst : ℕ) (got : List χ) (passed : List χ)
  | deletePlain (passed : List χ)
  | saveGz (passed : List χ)
  | done (passed : List χ)
  | failed
  deriving DecidableEq

namespace Execution

def Ended : Execution χ → Prop
  | .done _ => True
  | .failed => True
  | _ => False

/-- Past its `DumpFile.find`, and not at its end. -/
def Underway : Execution χ → Prop
  | .found _ => False
  | e => ¬ e.Ended

/-- Between a `File.delete` and the `save` after it. -/
def Unsaved : Execution χ → Prop
  | .savePlain => True
  | .saveGz _ => True
  | _ => False

instance (e : Execution χ) : Decidable e.Ended := by
  cases e <;> unfold Ended <;> infer_instance

instance (e : Execution χ) : Decidable e.Underway := by
  cases e <;> unfold Underway <;> infer_instance

instance (e : Execution χ) : Decidable e.Unsaved := by
  cases e <;> unfold Unsaved <;> infer_instance

/-- An exception; leaving the block of `GzipWriter.open` closes the archive. -/
def raise (s : Store χ) : Execution χ → Store χ × Execution χ
  | .zipOpen dst _ => ({ s with disk := s.disk.write .hole dst 0 (.footer []) }, .failed)
  | .zipRead _ dst got _ =>
    ({ s with disk := s.disk.write .hole dst got.length (.footer got) }, .failed)
  | .zipWrite _ dst got _ _ =>
    ({ s with disk := s.disk.write .hole dst got.length (.footer got) }, .failed)
  | .zipClose dst got _ =>
    ({ s with disk := s.disk.write .hole dst got.length (.footer got) }, .failed)
  | _ => (s, .failed)

variable [DecidableEq χ] [Inhabited χ]

/-- What reading plain text finds; a hole reads as zeros. -/
def chunkOf : Block χ → χ
  | .chunk c => c
  | _ => default

/-- An archive has its header where it has any chunk, or its end. -/
def isHeader : Block χ → Bool
  | .hole => false
  | _ => true

def advance (s : Store χ) : Execution χ → Store χ × Execution χ
  -- `unzip`, where the path is that of a gzipped file
  | .found .gz =>
    match s.disk.names .gz with
    | some src => if (s.disk.read src 0).any isHeader then (s, .unzip src) else (s, .failed)
    | none => (s, .failed)
  | .found .plain => (s, .openPlain)
  | .unzip src =>
    ({ s with disk := (s.disk.openWrite .plain).2 },
      .unzipRead src (s.disk.openWrite .plain).1 [])
  | .unzipRead src dst got =>
    match s.disk.read src got.length with
    | some (.chunk c) => (s, .unzipWrite src dst got c)
    | some (.footer sum) => if sum = got then (s, .deleteGz) else (s, .failed)
    | _ => (s, .failed)
  | .unzipWrite src dst got c =>
    ({ s with disk := s.disk.write .hole dst got.length (.chunk c) },
      .unzipRead src dst (got ++ [c]))
  | .deleteGz =>
    if (s.disk.names .gz).isSome then ({ s with disk := s.disk.delete .gz }, .savePlain)
    else (s, .failed)
  | .savePlain => ({ s with path := .plain }, .openPlain)
  -- `File.open` and `index_file`, which opens the file by its path
  | .openPlain => if (s.disk.names .plain).isSome then (s, .indexFile) else (s, .failed)
  | .indexFile =>
    match s.disk.names .plain with
    | some src => (s, .indexRead src [])
    | none => (s, .failed)
  | .indexRead src got =>
    match s.disk.read src got.length with
    | some b => (s, .indexRead src (got ++ [chunkOf b]))
    | none => (s, .zip got)
  -- `zip`
  | .zip passed =>
    ({ s with disk := (s.disk.openWrite .gz).2 }, .zipOpen (s.disk.openWrite .gz).1 passed)
  | .zipOpen dst passed =>
    match s.disk.names .plain with
    | some src => (s, .zipRead src dst [] passed)
    | none => raise s (.zipOpen dst passed)
  | .zipRead src dst got passed =>
    match s.disk.read src got.length with
    | some b => (s, .zipWrite src dst got (chunkOf b) passed)
    | none => (s, .zipClose dst got passed)
  | .zipWrite src dst got c passed =>
    ({ s with disk := s.disk.write .hole dst got.length (.chunk c) },
      .zipRead src dst (got ++ [c]) passed)
  | .zipClose dst got passed =>
    ({ s with disk := s.disk.write .hole dst got.length (.footer got) }, .deletePlain passed)
  | .deletePlain passed =>
    if (s.disk.names .plain).isSome then ({ s with disk := s.disk.delete .plain }, .saveGz passed)
    else (s, .failed)
  | .saveGz passed => ({ s with path := .gz }, .done passed)
  | .done passed => (s, .done passed)
  | .failed => (s, .failed)

end Execution

structure Indexing (χ : Type*) where
  store : Store χ
  executions : List (Execution χ) := []

namespace Indexing

/-- A new execution (of another collection, or a retry), or what happens next in one. -/
inductive Act
  | start
  | advance (i : ℕ)
  | raise (i : ℕ)
  | kill (i : ℕ)
  deriving DecidableEq

variable [DecidableEq χ] [Inhabited χ]

/-- The execution at `i`, where it has not ended, and the disk and the row go over to `f`. -/
def change (s : Indexing χ) (i : ℕ) (f : Store χ → Execution χ → Store χ × Execution χ) :
    Option (Indexing χ) :=
  s.executions[i]?.bind fun e =>
    if e.Ended then none
    else some { store := (f s.store e).1, executions := s.executions.set i (f s.store e).2 }

def step (s : Indexing χ) : Act → Option (Indexing χ)
  | .start => some { s with executions := s.executions ++ [.found s.store.path] }
  | .advance i => s.change i fun st e => e.advance st
  | .raise i => s.change i fun st e => e.raise st
  | .kill i => s.change i fun st _ => (st, .failed)

end Indexing

/-- What the file of that name holds where it holds these chunks. -/
def blocks (content : List χ) : FilePath → List (Block χ)
  | .plain => content.map .chunk
  | .gz => content.map .chunk ++ [.footer content]

def Store.Holds (content : List χ) (s : Store χ) (path : FilePath) : Prop :=
  s.disk.file path = some (blocks content path)

def archived (content : List χ) : Disk FilePath (Block χ) where
  inodes := [blocks content .gz]
  names a := if a = .gz then some 0 else none
  named a i h := by
    split_ifs at h
    cases h
    simp
  unshared a b i ha hb := by
    split_ifs at ha hb with h h'
    rw [h, h']

/-- The dump file before any execution. -/
def onlyGzipped (content : List χ) : Indexing χ where
  store := { disk := archived content, path := .gz }

end Bibdata
