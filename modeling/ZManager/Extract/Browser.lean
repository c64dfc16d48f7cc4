import ZManager.Engine.PathNormalizers
import ZManager.Extract.Stream

/-! # Extraction from the archive browser

The browser selects rows of a listing, has them extracted together, and reports for each of
them where it went. The reports are made from the listing and the selector after the
extraction. An extraction plans each selected entry with one planner, on the disk as it is
then, and writes it at the planned destination.
-/

namespace ZManager

namespace Browser

/-- A row of a listing, with the bytes that its member holds. -/
structure EngineEntry where
  path : Text
  kind : ExtractionEntryKind
  size : Option UInt64
  compressedSize : Option UInt64
  data : List UInt8
  deriving DecidableEq

/-- The entry the planner is given. -/
def EngineEntry.safetyEntry (entry : EngineEntry) : ExtractionEntry :=
  ⟨entry.path, entry.kind, entry.size, entry.compressedSize⟩

/-- The regular file bytes that are written for an entry. -/
def EngineEntry.fileBytes (entry : EngineEntry) : Nat :=
  if entry.kind = .file then entry.data.length else 0

/-- What a browser extraction is asked for. -/
structure BrowserExtractOptions where
  overwrite : OverwritePolicy := .refuse
  stripComponents : Nat := 0
  ignoreSymlinks : Bool := false
  limits : Option ExtractionLimits := none

def extractionPolicy (options : BrowserExtractOptions) : ExtractionPolicy where
  overwrite := options.overwrite
  stripComponents := options.stripComponents
  ignoreSymlinks := options.ignoreSymlinks
  limits := options.limits.getD {}

/-- Failures of a browser extraction. -/
inductive ArchiveBrowserError where
  | engine (source : StreamError)
  | safety (source : ExtractionSafetyError)
  | entryNotFound (path : Text)

/-- The report on one extracted entry. -/
structure EntryExtractReport where
  destinationPath : PathBuf
  writtenBytes : Nat
  metadataDiagnostics : List String

/-- The report on a preview. -/
structure PreviewExtractReport where
  cleanupRoot : PathBuf
  previewPath : PathBuf
  writtenBytes : Nat

/-- What an extraction did for one entry, and the disk it found. -/
structure Extraction where
  before : FileSystem (List UInt8)
  entry : EngineEntry
  decision : ExtractionDecision

abbrev BrowserM := StepM ArchiveBrowserError (FileSystem (List UInt8))

section

variable (fold : CaseFolding)

/-! ## Extracting selected entries -/

/-- Plans and writes one entry. -/
def extractEntry (entry : EngineEntry) : StreamM Extraction := do
  let before := (← get).fs
  let decision ← planStreamEntry fold none entry.safetyEntry
  match decision with
  | .write plan => do
      changeDisk plan.destinationPath
        (materialize (fun _ => entry.data) · (entry.safetyEntry, plan))
      countWritten entry.fileBytes
  | .skip _ reason => skipEntry ("skipped " ++ String.ofList entry.path ++ ": " ++ reason)
  return ⟨before, entry, decision⟩

/-- Plans and writes the entries in their order. -/
def extractEntries : List EngineEntry → StreamM (List Extraction)
  | [] => return []
  | entry :: rest => do
      let extraction ← extractEntry fold entry
      let extractions ← extractEntries rest
      return extraction :: extractions

/-- The engine's batch call, with the report of the batch. -/
def extractSelectedMany (root : PathBuf) (policy : ExtractionPolicy) (entries : List EngineEntry) :
    BrowserM (List Extraction × StreamReport) := do
  let (result, state) := (extractEntries fold entries).exec (.start (← get) root policy)
  set state.fs
  match result with
  | .ok extractions => return (extractions, state.report)
  | .error failure => throw (.engine failure)

/-! ## Selections of several paths -/

/-- Collisions of the listed paths, and the size that the listing declares. -/
def checkSelectedEntries (overwrite : OverwritePolicy) (limits : ExtractionLimits) :
    (seenPaths : Text → Option Text) → (plannedExpandedBytes : UInt64) → List EngineEntry →
    Except ArchiveBrowserError Unit
  | _, _, [] => .ok ()
  | seenPaths, plannedExpandedBytes, entry :: rest => do
      let collisionKey := caseCollisionKey fold entry.path
      if overwrite ≠ .replace then
        match seenPaths collisionKey with
        | some previous => throw (.safety (.nameCollision entry.path previous))
        | none => pure ()
      let attempted := match entry.size with
        | some size => saturatingAdd plannedExpandedBytes size
        | none => plannedExpandedBytes
      match entry.size, limits.maxExpandedBytes with
      | some _, some maxBytes =>
        if maxBytes < attempted then
          throw (.safety (.expandedSizeLimitExceeded entry.path attempted maxBytes))
      | _, _ => pure ()
      checkSelectedEntries overwrite limits
        (if overwrite ≠ .replace then Function.update seenPaths collisionKey (some entry.path)
          else seenPaths) attempted rest

/-- `extract_selected_entries_from_engine_handle_with_job` from a prepared destination root on,
with what was done behind the reports. -/
def extractSelectedEntriesFromEngineHandleWithJob (listing : List EngineEntry)
    (entryPaths : List Text) (destinationRoot : PathBuf) (options : BrowserExtractOptions) :
    BrowserM (List (Text × EntryExtractReport) × List Extraction) := do
  let policy := extractionPolicy options
  let normSelectors := entryPaths.map normalizeSelector
  let selectedEntries := listing.filter fun entry => normSelectors.any fun selector =>
    normalizedEntryMatchesNormalizedSelector (normalizeSelector entry.path) selector
  let unmatched := entryPaths.find? fun path => !listing.any fun entry =>
    normalizedEntryMatchesNormalizedSelector (normalizeSelector entry.path)
      (normalizeSelector path)
  if entryPaths = [] then return ([], [])
  else
    match unmatched with
    | some path => throw (.entryNotFound path)
    | none =>
      if selectedEntries = [] then throw (.entryNotFound (entryPaths.headD []))
      else do
        liftM (checkSelectedEntries fold options.overwrite policy.limits (fun _ => none) 0
          selectedEntries)
        let (extractions, batch) ←
          extractSelectedMany fold destinationRoot policy selectedEntries
        let reports := selectedEntries.map fun entry => (entry.path,
          { destinationPath := destinationRoot.join entry.path
            writtenBytes := (entry.size.getD 0).toNat
            metadataDiagnostics := batch.warnings })
        return (reports, extractions)

/-! ## One path, and its preview -/

/-- The entries a path selects; of an Apple archive the first one only. -/
def matchingEntries (listing : List EngineEntry) (entryPath : Text) (appleArchive : Bool) :
    List EngineEntry :=
  let matching := listing.filter fun entry => archiveEntryMatchesSelected entry.path entryPath
  if appleArchive then matching.take 1 else matching

def extractEntryViaEngine (listing : List EngineEntry) (appleArchive : Bool) (entryPath : Text)
    (destination : PathBuf) (policy : ExtractionPolicy) :
    BrowserM (EntryExtractReport × List Extraction) := do
  let matching := matchingEntries listing entryPath appleArchive
  if matching = [] then throw (.entryNotFound entryPath)
  else do
    let (extractions, report) ← extractSelectedMany fold destination policy matching
    return ({
      destinationPath := destination.join (trimSlashes (replaceBackslash entryPath))
      writtenBytes := report.writtenBytes
      metadataDiagnostics := report.warnings }, extractions)

/-- `extract_entry_with_options` from a prepared destination root on. -/
def extractEntryWithOptions (listing : List EngineEntry) (appleArchive : Bool) (entryPath : Text)
    (destinationRoot : PathBuf) (options : BrowserExtractOptions) :
    BrowserM (EntryExtractReport × List Extraction) :=
  extractEntryViaEngine fold listing appleArchive entryPath destinationRoot
    (extractionPolicy options)

/-- `preview_entry_with_options` from the new preview root on, which is removed when the
extraction fails. -/
def previewEntryWithOptions (listing : List EngineEntry) (appleArchive : Bool) (entryPath : Text)
    (cleanupRoot : PathBuf) (options : BrowserExtractOptions) : BrowserM PreviewExtractReport := do
  let (result, fs) := (extractEntryWithOptions fold listing appleArchive entryPath cleanupRoot
    { options with overwrite := .replace }).exec (← get)
  match result with
  | .ok (report, _) => do
      set fs
      return ⟨cleanupRoot, report.destinationPath, report.writtenBytes⟩
  | .error failure => do
      set ((fs.removeDirAll cleanupRoot).toOption.getD fs)
      throw failure

end

end Browser

end ZManager
