import Bibdata.IncrementalFiles

/-!
# Unzipping the full file of a partner

Each entry of the archive is extracted to a target whose name ends in a number. Where the target
exists the job has been here before, and goes on with the next entry.
-/

namespace Bibdata

namespace DownloadFullFileJob

/-- The files on disk by their paths. -/
abbrev Files := String → Option String

/-- `entry.extract`; `none` is `DestinationExistsError`. -/
def extract (path text : String) (files : Files) : Option Files :=
  if (files path).isSome then none else some (Function.update files path (some text))

variable (updateDirectory file filePrefix : String)

def target (fileIncrement : ℕ) : String :=
  filePrefix ++ updateFilename (IncrementalFiles.zipName (basename file)) ++ "_"
    ++ toString fileIncrement ++ ".xml"

def targetPath (fileIncrement : ℕ) : String :=
  updateDirectory ++ "/" ++ target file filePrefix fileIncrement

def unzipEntries : ℕ → List String → Files → List String × Files
  | _, [], files => ([], files)
  | fileIncrement, entry :: entries, files =>
    let path := targetPath updateDirectory file filePrefix fileIncrement
    let (fileIncrement, files) := match extract path entry files with
      | some files => (fileIncrement + 1, files)
      -- The rescue leaves the block before the number is increased.
      | none => (fileIncrement, files)
    let (xmlFiles, files) := unzipEntries fileIncrement entries files
    (path :: xmlFiles, files)

/-- `entries` are those of the archive. -/
def unzipFile (entries : List String) (files : Files) : List String × Files :=
  unzipEntries updateDirectory file filePrefix 1 entries files

end DownloadFullFileJob

end Bibdata
