import ZManager.Create.VolumeNames

/-! # Writing a TZAP archive to its volumes

The archive writer hands its bytes to a sink, volume by volume. The sink stages
one output for each volume, keeps the bootstrap sidecar in memory, and on commit
moves the volumes into place and then writes the sidecar beside them. The names
of volumes are those of the archive library.
-/

namespace ZManager

/-- What the sink takes from the archive library: the base name of a set, the path
of one volume, and the volumes of a base name in a directory. -/
structure TzapVolumeFiles where
  multiVolumeBaseName : Text → Text
  volumeOutputPath : PathBuf → Nat → PathBuf
  discoverSiblingVolumePaths : Files → PathBuf → Text → Except IoError (List PathBuf)

/-- Failures of writing a TZAP archive; `write` is one that the archive writer
passes on without a path. -/
inductive TzapError where
  | cancelled
  | format (message : String)
  | io (path : PathBuf) (source : IoError)
  | write (source : IoError)
  deriving DecidableEq

/-- Writes the volumes and the sidecar of a TZAP archive. -/
structure TzapArchiveFileSink where
  destination : PathBuf
  replaceExisting : Bool
  emitBootstrapSidecar : Bool
  existingVolumePaths : List PathBuf
  volumePaths : List PathBuf
  outputs : List AtomicOutputFile
  bootstrapSidecar : Option (List UInt8)

section

variable (core : TzapVolumeFiles)

def tzapOutputVolumePaths (destination : PathBuf) (count : Nat) : List PathBuf :=
  if count = 1 then [destination] else (List.range count).map (core.volumeOutputPath destination)

/-- The volumes that stand under the name. -/
def existingTzapVolumePaths (files : Files) (destination : PathBuf) :
    Except TzapError (List PathBuf) :=
  match PathBuf.fileName destination with
  | none => .ok []
  | some name =>
    (core.discoverSiblingVolumePaths files (directoryOrCurrent destination)
      (core.multiVolumeBaseName name)).mapError (.io (directoryOrCurrent destination))

/-- Path of the bootstrap sidecar beside a destination archive. -/
def tzapBootstrapSidecarPath (destination : PathBuf) : PathBuf :=
  match PathBuf.fileName destination with
  | none => PathBuf.withExtension destination "sidecar".toList
  | some name =>
    (PathBuf.parent destination).getD [] ++
      [.normal (core.multiVolumeBaseName name ++ ".sidecar".toList)]

namespace TzapArchiveFileSink

def new (files : Files) (destination : PathBuf) (replaceExisting emitBootstrapSidecar : Bool) :
    Except TzapError TzapArchiveFileSink := do
  let existing ← existingTzapVolumePaths core files destination
  return ⟨destination, replaceExisting, emitBootstrapSidecar, existing, [], [], none⟩

/-- Stages an output for each volume path. -/
def createOutputs (names : TempNames) :
    List PathBuf → List AtomicOutputFile → Files →
      Except TzapError (List AtomicOutputFile) × Files
  | [], outputs, files => (.ok outputs, files)
  | path :: rest, outputs, files =>
    match AtomicOutputFile.create names files path with
    | .error source =>
      (.error (.write ⟨source.kind, "failed to create TZAP output volume " ++
        PathBuf.display path ++ ": " ++ source.message⟩),
        AtomicOutputFile.dropAll outputs files)
    | .ok (output, files) => createOutputs names rest (outputs ++ [output]) files

/-- Checks the destinations and stages the volumes. -/
def beginArchive (names : TempNames) (cancelled : Bool) (volumeCount : Nat)
    (sink : TzapArchiveFileSink) (files : Files) : Except TzapError TzapArchiveFileSink × Files :=
  if cancelled then (.error (.write ⟨.other, "job cancelled"⟩), files)
  else if volumeCount = 0 then (.error (.format "no TZAP volumes emitted"), files)
  else
    let volumePaths := tzapOutputVolumePaths core sink.destination volumeCount
    match ensureSplitDestinationsAvailable files sink.destination volumePaths
        sink.existingVolumePaths sink.replaceExisting with
    | .error (_, source) => (.error (.write source), files)
    | .ok () =>
      andThen (createOutputs names volumePaths [] files) fun outputs files =>
        (.ok { sink with volumePaths := volumePaths, outputs := outputs }, files)

/-- Appends bytes to one volume. A failure drops the sink and its outputs. -/
def writeVolume (cancelled : Bool) (volumeIndex : Nat) (bytes : List UInt8)
    (sink : TzapArchiveFileSink) (files : Files) : Except TzapError TzapArchiveFileSink × Files :=
  if cancelled then
    (.error (.write ⟨.other, "job cancelled"⟩), AtomicOutputFile.dropAll sink.outputs files)
  else
    match sink.volumePaths[volumeIndex]?, sink.outputs[volumeIndex]? with
    | none, _ =>
      (.error (.format "TZAP volume path index is out of bounds"),
        AtomicOutputFile.dropAll sink.outputs files)
    | some _, none =>
      (.error (.format "TZAP volume sink index is out of bounds"),
        AtomicOutputFile.dropAll sink.outputs files)
    | some _, some output => (.ok sink, files.appendFile output.tempPath bytes)

def writeBootstrapSidecar (cancelled : Bool) (bytes : List UInt8) (sink : TzapArchiveFileSink)
    (files : Files) : Except TzapError TzapArchiveFileSink × Files :=
  if cancelled then
    (.error (.write ⟨.other, "job cancelled"⟩), AtomicOutputFile.dropAll sink.outputs files)
  else (.ok { sink with bootstrapSidecar := some bytes }, files)

/-- Commits the bootstrap sidecar next to the destination archive. -/
def commitBootstrapSidecar (names : TempNames) (destination : PathBuf) (bytes : List UInt8)
    (replaceExisting : Bool) (files : Files) : Except TzapError Unit × Files :=
  let sidecarPath := tzapBootstrapSidecarPath core destination
  let cleared : Except IoError Unit × Files :=
    if replaceExisting then removeFileDestinationForReplace files sidecarPath
    else (ensureFileDestinationAvailable files false sidecarPath, files)
  match cleared with
  | (.error source, files) => (.error (.io sidecarPath source), files)
  | (.ok (), files) =>
    match AtomicOutputFile.create names files sidecarPath with
    | .error source => (.error (.io sidecarPath source), files)
    | .ok (output, files) =>
      match output.commitWithFileReplace replaceExisting
          (files.writeFile output.tempPath bytes) with
      | (.error source, files) => (.error (.io sidecarPath source), files)
      | (.ok (), files) => (.ok (), files)

/-- The sidecar that a commit writes: one that is wanted and not empty. -/
def wantedSidecar (sink : TzapArchiveFileSink) : Option (List UInt8) :=
  if sink.emitBootstrapSidecar then sink.bootstrapSidecar.filter (· ≠ []) else none

/-- Moves the volumes into place, then writes the sidecar. -/
def commit (names : TempNames) (cancelled : Bool) (sink : TzapArchiveFileSink) (files : Files) :
    Except TzapError Nat × Files :=
  if cancelled then (.error .cancelled, AtomicOutputFile.dropAll sink.outputs files)
  else if sink.volumePaths.length = 0 then
    (.error (.format "no TZAP volumes emitted"), AtomicOutputFile.dropAll sink.outputs files)
  else if sink.outputs.length ≠ sink.volumePaths.length then
    (.error (.format "TZAP output sink did not open every planned volume"),
      AtomicOutputFile.dropAll sink.outputs files)
  else
    match commitSplitVolumes id sink.destination sink.existingVolumePaths sink.replaceExisting
        sink.outputs files with
    | (.error (path, source), files) => (.error (.io path source), files)
    | (.ok (), files) =>
      match sink.wantedSidecar with
      | none => (.ok sink.volumePaths.length, files)
      | some bytes =>
        andThen (commitBootstrapSidecar core names sink.destination bytes sink.replaceExisting
          files) fun _ files => (.ok sink.volumePaths.length, files)

end TzapArchiveFileSink

/-- The calls of one run, each with what its cancellation check sees. -/
structure TzapRun where
  destination : PathBuf
  replaceExisting : Bool
  emitBootstrapSidecar : Bool
  volumeCount : Nat
  beginCancelled : Bool
  writes : List (Bool × Nat × List UInt8)
  sidecar : Option (Bool × List UInt8)
  commitCancelled : Bool

namespace TzapRun

open TzapArchiveFileSink

def writeVolumes : List (Bool × Nat × List UInt8) → TzapArchiveFileSink → Files →
    Except TzapError TzapArchiveFileSink × Files
  | [], sink, files => (.ok sink, files)
  | (cancelled, index, bytes) :: rest, sink, files =>
    andThen (sink.writeVolume cancelled index bytes files) (writeVolumes rest)

def writeSidecar (sidecar : Option (Bool × List UInt8)) (sink : TzapArchiveFileSink)
    (files : Files) : Except TzapError TzapArchiveFileSink × Files :=
  match sidecar with
  | none => (.ok sink, files)
  | some (cancelled, bytes) => sink.writeBootstrapSidecar cancelled bytes files

/-- A run of the sink from its creation to its commit. -/
def run (names : TempNames) (run : TzapRun) (files : Files) : Except TzapError Nat × Files :=
  match TzapArchiveFileSink.new core files run.destination run.replaceExisting
      run.emitBootstrapSidecar with
  | .error failure => (.error failure, files)
  | .ok sink =>
    andThen (sink.beginArchive core names run.beginCancelled run.volumeCount files)
      fun sink files =>
    andThen (writeVolumes run.writes sink files) fun sink files =>
    andThen (writeSidecar run.sidecar sink files) fun sink files =>
    sink.commit core names run.commitCancelled files

end TzapRun

end

end ZManager
