import ZManager.Extract.DeferredLinks
import ZManager.Extract.Materialize
import ZManager.Foundation.Triple

/-! # Extracting entries as they are read

TAR and ZIP archives are extracted entry by entry: each entry is validated
against the disk as it is, and written before the next one is looked at. The
size an entry declares is what the planner is told; what its reader delivers is
what `copy_file_entry` writes.
-/

namespace ZManager

/-- What the successive reads of an entry return, and the error they end with,
if any. A read that returns nothing ends the data. -/
structure EntryReader where
  chunks : List (List UInt8)
  failure : Option IoError := none

/-- The bytes an entry's reads deliver before they end. -/
def EntryReader.content (reader : EntryReader) : List UInt8 :=
  (reader.chunks.takeWhile (· ≠ [])).flatten

/-- Failure of a streaming extraction. -/
inductive StreamError where
  | safety (source : ExtractionSafetyError)
  | io (path : PathBuf) (source : IoError)
  | missingLinkTarget (archivePath : Text)
  | cancelled

/-- The counters and warnings of an extraction. -/
structure StreamReport where
  writtenEntries : Nat := 0
  skippedEntries : Nat := 0
  writtenBytes : Nat := 0
  warnings : List String := []

/-- Answers to cancellation checks and outcomes of writes, by the time they are
made at; a failing write has written some of its bytes. -/
structure StreamEnvironment where
  cancelled : Nat → Bool := fun _ => false
  writeFails : Nat → Option Nat := fun _ => none

/-- The state of a streaming extraction. -/
structure StreamState where
  fs : FileSystem (List UInt8)
  planner : Planner
  time : Nat := 0
  /-- The file bytes written so far, to temporary output files as well. -/
  writtenFileBytes : Nat := 0
  deferredHardlinks : List (PathBuf × PathBuf) := []
  report : StreamReport := {}

/-- Computations of an extraction. -/
abbrev StreamM := StepM StreamError StreamState

/-- A step of the file system. -/
def changeDisk (path : PathBuf)
    (operation : FileSystem (List UInt8) → Except IoErrorKind (FileSystem (List UInt8))) :
    StreamM Unit := do
  let state ← get
  match operation state.fs with
  | .ok fs => set { state with fs := fs }
  | .error kind => throw (.io path kind.toIoError)

def skipEntry (warning : String) : StreamM Unit :=
  modify fun state => { state with
    report := { state.report with
      skippedEntries := state.report.skippedEntries + 1
      warnings := state.report.warnings ++ [warning] } }

def countWritten (bytes : Nat) : StreamM Unit :=
  modify fun state => { state with
    report := { state.report with
      writtenEntries := state.report.writtenEntries + 1
      writtenBytes := state.report.writtenBytes + bytes } }

/-- Whether an entry is the archive's root directory: its path is empty or `.`
between slashes. -/
def isArchiveRootDirectory (entry : ExtractionEntry) : Bool :=
  let trimmed := ((entry.archivePath.dropWhile (· = '/')).reverse.dropWhile (· = '/')).reverse
  entry.kind.isDirectory && (trimmed = [] || trimmed = ['.'])

section

variable (environment : StreamEnvironment)

/-- Stops when the caller has cancelled. -/
def checkCancelled : StreamM Unit := do
  let state ← get
  set { state with time := state.time + 1 }
  if environment.cancelled state.time then throw .cancelled

/-- `write_all` of one chunk to the temporary output file. -/
def writeChunk (path : PathBuf) (chunk : List UInt8) : StreamM Unit := do
  let state ← get
  match environment.writeFails state.time with
  | none => set { state with
      time := state.time + 1
      writtenFileBytes := state.writtenFileBytes + chunk.length }
  | some written => do
      set { state with
        time := state.time + 1
        writtenFileBytes := state.writtenFileBytes + min written chunk.length }
      throw (.io path ⟨.other, "write failed"⟩)

/-- The copy loop: reads until the data ends. -/
def copyChunks (path : PathBuf) (failure : Option IoError) : List (List UInt8) → StreamM Unit
  | [] => do
      checkCancelled environment
      match failure with
      | none => return ()
      | some source => throw (.io path source)
  | chunk :: rest => do
      checkCancelled environment
      if chunk = [] then return ()
      else do
        writeChunk environment path chunk
        copyChunks path failure rest

/-- Copies an entry's data into an output file and commits the file. -/
def streamFileEntry (plan : PlannedWrite) (reader : EntryReader) : StreamM Unit := do
  changeDisk plan.destinationPath (ensureParentDir · plan.destinationPath)
  copyChunks environment plan.destinationPath reader.failure reader.chunks
  changeDisk plan.destinationPath (commitWithReplace · plan reader.content)

/-- Removes the destination of a replacing entry that is no file; a file's is
removed when the file is committed. -/
def prepareDestination (entry : ExtractionEntry) (plan : PlannedWrite) : StreamM Unit :=
  if entry.kind = .file then return ()
  else changeDisk plan.destinationPath (clearDestination · plan)

/-- What the TAR backend does with a write decision. -/
def writeTarEntry (entry : ExtractionEntry) (plan : PlannedWrite) (reader : EntryReader) :
    StreamM Unit := do
  prepareDestination entry plan
  match entry.kind with
  | .directory => do
      changeDisk plan.destinationPath (·.createDirAll plan.destinationPath)
      countWritten 0
  | .file => do
      streamFileEntry environment plan reader
      countWritten reader.content.length
  | .symlink target => do
      changeDisk plan.destinationPath (writeSymlink · target plan.destinationPath)
      countWritten 0
  | .hardlink _ =>
    match plan.linkTargetPath with
    | none => throw (.missingLinkTarget entry.archivePath)
    | some source => modify fun state => { state with
        deferredHardlinks := state.deferredHardlinks ++ [(source, plan.destinationPath)] }
  | .device | .special => throw (.io plan.destinationPath
      ⟨.other, "special tar entry reached materialization after safety planning"⟩)

/-- What the ZIP backend does with a write decision. -/
def writeZipEntry (entry : ExtractionEntry) (plan : PlannedWrite) (reader : EntryReader) :
    StreamM Unit := do
  prepareDestination entry plan
  match entry.kind with
  | .directory => do
      changeDisk plan.destinationPath (·.createDirAll plan.destinationPath)
      countWritten 0
  | .file => do
      streamFileEntry environment plan reader
      countWritten reader.content.length
  | .symlink target => do
      changeDisk plan.destinationPath (writeSymlink · target plan.destinationPath)
      countWritten 0
  | .hardlink _ =>
    match plan.linkTargetPath with
    | none => throw (.io plan.destinationPath
        ⟨.invalidData, "hardlink target was not resolved by extraction safety planning"⟩)
    | some source => do
        changeDisk plan.destinationPath (writeHardlink · source plan.destinationPath)
        countWritten 0
  | .device | .special =>
    skipEntry ("skipped unsupported ZIP entry kind for " ++ String.ofList entry.archivePath)

variable (fold : CaseFolding) (resolver : Option OverwriteResolver)

/-- Asks the planner, which looks at the disk as it is now. -/
def planStreamEntry (entry : ExtractionEntry) : StreamM ExtractionDecision := do
  let state ← get
  let outcome := (Planner.validateEntry fold state.fs.probe resolver entry).exec state.planner
  set { state with planner := outcome.2 }
  match outcome.1 with
  | .ok decision => return decision
  | .error failure => throw (.safety failure)

/-- The shared protocol of one entry; `write` is the backend's own part. -/
def processExtractionEntry (write : ExtractionEntry → PlannedWrite → EntryReader → StreamM Unit)
    (entry : ExtractionEntry) (reader : EntryReader) : StreamM Unit := do
  if isArchiveRootDirectory entry then skipEntry "skipped archive root directory entry"
  else do
    let decision ← planStreamEntry fold resolver entry
    checkCancelled environment
    match decision with
    | .write plan => write entry plan reader
    | .skip _ reason =>
      skipEntry ("skipped " ++ String.ofList entry.archivePath ++ ": " ++ reason)

end

/-! ## TAR -/

/-- A TAR entry as it is iterated. Its kind fails when a link has no target. -/
structure TarEntry where
  path : Text
  kind : Except StreamError ExtractionEntryKind
  /-- `header().size()`, which no extension record overrides. -/
  headerSize : Option UInt64
  reader : EntryReader

/-- The entries a caller asks for. -/
inductive TarSelection where
  | index (selected : Nat)
  | pathOccurrence (path : Text) (occurrence : Nat)
  | multipleSelectors (selectors : List (Text × Nat))

def TarSelection.selects (index : Nat) (path : Text) (occurrence : Nat) :
    Option TarSelection → Bool
  | none => true
  | some (.index selected) => selected = index
  | some (.pathOccurrence selected number) => path = selected && occurrence = number
  | some (.multipleSelectors selectors) =>
    selectors.any fun selector => selector.1 = path && selector.2 = occurrence

/-- The entry the planner is given. -/
def TarEntry.safetyEntry (entry : TarEntry) (kind : ExtractionEntryKind) : ExtractionEntry :=
  ⟨entry.path, kind, some (entry.headerSize.getD 0), none⟩

def materializeDeferredHardlinks : StreamM Unit := do
  let state ← get
  let first := (state.deferredHardlinks.head?.map Prod.snd).getD []
  match deferredLinkDependencyOrder state.fs state.deferredHardlinks with
  | .error failure => throw (.io first failure)
  | .ok order =>
    (order.filterMap (state.deferredHardlinks[·]?)).forM fun link =>
      changeDisk first (writeHardlink · link.1 link.2)

section

variable (environment : StreamEnvironment) (fold : CaseFolding)
  (resolver : Option OverwriteResolver)

/-- The loop over the entries of a TAR archive, of which reading one may fail.
`seen` holds the paths passed so far. -/
def extractTarEntries (selection : Option TarSelection) :
    List Text → List (Except IoError TarEntry) → StreamM Unit
  | _, [] => return ()
  | seen, item :: rest => do
      checkCancelled environment
      match item with
      | .error failure => throw (.io [] failure)
      | .ok entry => do
          if TarSelection.selects seen.length entry.path (seen.count entry.path) selection then do
            let kind ← liftM entry.kind
            processExtractionEntry environment fold resolver (writeTarEntry environment)
              (entry.safetyEntry kind) entry.reader
          else modify fun state => { state with
            report := { state.report with skippedEntries := state.report.skippedEntries + 1 } }
          extractTarEntries selection (seen ++ [entry.path]) rest

/-- `extract_with_selector` from a prepared destination root on. -/
def extractWithSelector (selection : Option TarSelection)
    (archive : List (Except IoError TarEntry)) : StreamM Unit := do
  extractTarEntries environment fold resolver selection [] archive
  materializeDeferredHardlinks

/-! ## ZIP -/

/-- A ZIP entry as `by_index` returns it. -/
structure ZipEntry where
  name : Text
  kind : Except StreamError ExtractionEntryKind
  size : UInt64
  compressedSize : UInt64
  reader : EntryReader

def ZipEntry.safetyEntry (entry : ZipEntry) (kind : ExtractionEntryKind) : ExtractionEntry :=
  ⟨entry.name, kind, some entry.size, some entry.compressedSize⟩

/-- Extracts the entry at one index. -/
def extractZipEntry (archive : List (Except IoError ZipEntry)) (index : Nat) : StreamM Unit := do
  checkCancelled environment
  match archive[index]? with
  | none => throw (.io [] ⟨.notFound, "file not found in archive"⟩)
  | some (.error failure) => throw (.io [] failure)
  | some (.ok entry) => do
      let kind ← liftM entry.kind
      processExtractionEntry environment fold resolver (writeZipEntry environment)
        (entry.safetyEntry kind) entry.reader

/-- `extract_zip_archive` from a prepared destination root on. -/
def extractZipArchive (selectedIndices : Option (List Nat))
    (archive : List (Except IoError ZipEntry)) : StreamM Unit :=
  if (selectedIndices.getD []).any (archive.length ≤ ·) then
    throw (.io [] ⟨.notFound, "retained ZIP entry ID is not present in this archive"⟩)
  else (selectedIndices.getD (List.range archive.length)).forM
    (extractZipEntry environment fold resolver archive)

end

/-- The state an extraction starts from. -/
def StreamState.start (fs : FileSystem (List UInt8)) (root : PathBuf) (policy : ExtractionPolicy) :
    StreamState where
  fs := fs
  planner := Planner.new root policy

end ZManager
