import Mathlib.Data.Finmap
import ZManager.Foundation.Path
import ZManager.Safety.Policy

/-! # The directory an archive is created in

The objects around an archive's destination are a finite map from paths to
files and directories. New files are staged beside their destination under a
temporary name and moved to it when the archive is complete; an output that is
not moved removes its temporary file when it is dropped. An operation fails only
for a reason the map shows.
-/

namespace ZManager

/-- What a directory holds under a name. -/
inductive DirectoryEntry where
  | file (bytes : List UInt8)
  | directory
  deriving DecidableEq

/-- The objects of the directories in reach, by path. -/
abbrev Files := Finmap fun _ : PathBuf => DirectoryEntry

namespace Files

/-- The place a path names: a `.` stays in its directory. -/
def place (path : PathBuf) : PathBuf :=
  path.filter (· ≠ .curDir)

/-- `fs::symlink_metadata`, with `none` for an absent object. A path that does
not end in a name leads to a directory. -/
def symlinkMetadata (files : Files) (path : PathBuf) : Option DirectoryEntry :=
  if PathBuf.fileName path = none then some .directory else files.lookup (place path)

/-- `fs::remove_file` of an existing file. -/
def removeFile (files : Files) (path : PathBuf) : Files :=
  files.erase (place path)

/-- The object is written anew with the given bytes. -/
def writeFile (files : Files) (path : PathBuf) (bytes : List UInt8) : Files :=
  files.insert (place path) (.file bytes)

/-- The bytes are written behind what the file holds. -/
def appendFile (files : Files) (path : PathBuf) (bytes : List UInt8) : Files :=
  match files.lookup (place path) with
  | some (.file held) => files.insert (place path) (.file (held ++ bytes))
  | _ => files

/-- `fs::rename` to a place that holds nothing or a file. -/
def rename (files : Files) (source target : PathBuf) : Files :=
  match files.lookup (place source) with
  | some entry => (files.erase (place source)).insert (place target) entry
  | none => files

end Files

/-- The order in which `read_dir` lists the names of a directory, in each state
of the objects. -/
structure ReadOrder where
  names : Files → PathBuf → List Text
  nodup : ∀ files directory, (names files directory).Nodup
  mem_names : ∀ files directory name,
    name ∈ names files directory ↔ Files.place directory ++ [Component.normal name] ∈ files

/-- `fs::read_dir`: the empty path names no directory. -/
def ReadOrder.readDir (order : ReadOrder) (files : Files) (directory : PathBuf) :
    Option (List Text) :=
  if directory = [] then none else some (order.names files directory)

/-- The next step of a run that may fail, on what the last one returned and left. -/
def andThen {ε α β : Type} (outcome : Except ε α × Files)
    (next : α → Files → Except ε β × Files) : Except ε β × Files :=
  match outcome with
  | (.error failure, files) => (.error failure, files)
  | (.ok value, files) => next value files

/-! ## Destination checks -/

/-- An error when `path` exists and must not be replaced. -/
def ensureFileDestinationAvailable (files : Files) (replaceExisting : Bool) (path : PathBuf) :
    Except IoError Unit :=
  match files.symlinkMetadata path with
  | some .directory =>
    .error ⟨.isADirectory, "cannot replace directory " ++ PathBuf.display path⟩
  | some (.file _) =>
    if replaceExisting then .ok ()
    else .error ⟨.alreadyExists, "destination already exists: " ++ PathBuf.display path⟩
  | none => .ok ()

/-- Removes one existing file, refusing to remove a directory. -/
def removeFileDestinationForReplace (files : Files) (path : PathBuf) :
    Except IoError Unit × Files :=
  match files.symlinkMetadata path with
  | some .directory =>
    (.error ⟨.isADirectory, "cannot replace directory " ++ PathBuf.display path⟩, files)
  | some (.file _) => (.ok (), files.removeFile path)
  | none => (.ok (), files)

/-! ## Outputs staged under a temporary name -/

/-- The process id and the clock readings that the names of temporary files are
made from, by the path each stands for. -/
structure TempNames where
  processId : Nat
  now : PathBuf → Nat

/-- One output file, staged at its temporary path until it is committed. -/
structure AtomicOutputFile where
  finalPath : PathBuf
  tempPath : PathBuf

namespace AtomicOutputFile

def maxTempAttempts : Nat := 100

/-- The temporary name for a final path at one attempt. -/
def tempName (names : TempNames) (finalPath : PathBuf) (attempt : Nat) : Text :=
  ".zmanager-".toList ++ (PathBuf.fileName finalPath).getD "archive".toList ++ "-".toList ++
    Nat.toDigits 10 names.processId ++ "-".toList ++ Nat.toDigits 10 (names.now finalPath) ++
    "-".toList ++ Nat.toDigits 10 attempt ++ ".tmp".toList

def tempPathAt (names : TempNames) (finalPath : PathBuf) (attempt : Nat) : PathBuf :=
  (PathBuf.parent finalPath).getD [.curDir] ++ [Component.normal (tempName names finalPath attempt)]

/-- Creates the temporary file under the first name that is free. -/
def create (names : TempNames) (files : Files) (finalPath : PathBuf) :
    Except IoError (AtomicOutputFile × Files) :=
  match (List.range maxTempAttempts).find? fun attempt =>
      files.symlinkMetadata (tempPathAt names finalPath attempt) = none with
  | some attempt =>
    .ok (⟨finalPath, tempPathAt names finalPath attempt⟩,
      files.writeFile (tempPathAt names finalPath attempt) [])
  | none =>
    .error ⟨.alreadyExists,
      "could not allocate temporary output path for " ++ PathBuf.display finalPath⟩

/-- Dropping an output that was not committed removes its temporary file. -/
def drop (output : AtomicOutputFile) (files : Files) : Files :=
  files.removeFile output.tempPath

def dropAll (outputs : List AtomicOutputFile) (files : Files) : Files :=
  outputs.foldl (fun files output => output.drop files) files

/-- Moves the temporary file to its destination. Without `replaceExisting`
nothing that exists is moved over. -/
def commitWithFileReplace (output : AtomicOutputFile) (replaceExisting : Bool) (files : Files) :
    Except IoError Unit × Files :=
  if replaceExisting then
    match removeFileDestinationForReplace files output.finalPath with
    | (.error source, files) => (.error source, output.drop files)
    | (.ok (), files) => (.ok (), files.rename output.tempPath output.finalPath)
  else
    match files.symlinkMetadata output.finalPath with
    | some _ => (.error ⟨.alreadyExists, "File exists (os error 17)"⟩, output.drop files)
    | none => (.ok (), files.rename output.tempPath output.finalPath)

/-- Commits one output after the other; at the first failure the others are
dropped. -/
def commitAll (replaceExisting : Bool) :
    List AtomicOutputFile → Files → Except (PathBuf × IoError) Unit × Files
  | [], files => (.ok (), files)
  | output :: rest, files =>
    match output.commitWithFileReplace replaceExisting files with
    | (.error source, files) => (.error (output.finalPath, source), dropAll rest files)
    | (.ok (), files) => commitAll replaceExisting rest files

end AtomicOutputFile

/-! ## Split destinations -/

/-- The number of volumes needed for `archiveSize` bytes at `volumeSize` each. -/
def splitVolumeCount (archiveSize volumeSize : Nat) : Nat :=
  (max archiveSize 1 + volumeSize - 1) / volumeSize

/-- Checks the destination, then every volume that is to be written or exists. -/
def ensureSplitDestinationsAvailable (files : Files) (destination : PathBuf)
    (volumePaths existingVolumePaths : List PathBuf) (replaceExisting : Bool) :
    Except (PathBuf × IoError) Unit :=
  (destination :: (volumePaths ++ existingVolumePaths).eraseDups).forM fun path =>
    (ensureFileDestinationAvailable files replaceExisting path).mapError (path, ·)

/-- Removes every existing volume and then the destination before an overwrite. -/
def removeSplitDestinationsForReplace (destination : PathBuf) :
    List PathBuf → Files → Except (PathBuf × IoError) Unit × Files
  | [], files =>
    ((removeFileDestinationForReplace files destination).1.mapError (destination, ·),
      (removeFileDestinationForReplace files destination).2)
  | path :: rest, files =>
    match removeFileDestinationForReplace files path with
    | (.error source, files) => (.error (path, source), files)
    | (.ok (), files) => removeSplitDestinationsForReplace destination rest files

/-- The last step of a creation: old volumes are removed when they may be
replaced, then the outputs are committed. `blamed` is the path that an error of
the removal names. -/
def commitSplitVolumes (blamed : PathBuf → PathBuf) (destination : PathBuf)
    (existing : List PathBuf) (replaceExisting : Bool) (outputs : List AtomicOutputFile)
    (files : Files) : Except (PathBuf × IoError) Unit × Files :=
  match (if replaceExisting then removeSplitDestinationsForReplace destination existing files
    else (.ok (), files)) with
  | (.error (path, source), files) =>
    (.error (blamed path, source), AtomicOutputFile.dropAll outputs files)
  | (.ok (), files) => AtomicOutputFile.commitAll replaceExisting outputs files

end ZManager
