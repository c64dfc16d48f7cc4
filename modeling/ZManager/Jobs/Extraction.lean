import ZManager.Jobs.Batches

/-! # Extraction and its progress

The extraction loops of the engine's ZIP and TAR sessions with the calls that they make of a job
context, and the batches that run one entry after the other. What the safety planner, the file
system and the clock do to an entry is a parameter.
-/

namespace ZManager

namespace Jobs

variable {Identity Error : Type}

/-- An entry of an archive. -/
structure Member where
  path : Text
  size : Nat

/-- What an entry meets on its way. -/
inductive Treatment (Error : Type) where
  /-- The selection leaves it out. -/
  | unselected
  | rootDirectory
  /-- The planner fails, or the job is cancelled. -/
  | rejected (error : Error)
  | skipped (reason : Text)
  /-- Nothing is written, with a warning. -/
  | unsupported (warning : Text)
  /-- A directory or a link. -/
  | made
  /-- The sizes of the chunks of a file, each with the time behind it. -/
  | file (chunks : List (Nat × Nat))
  | failed (chunks : List (Nat × Nat)) (error : Error)

/-- An entry with its treatment and the time at its end. -/
structure Visit (Error : Type) where
  member : Member
  treatment : Treatment Error
  finished : Nat

/-- What was written, counted without bound. -/
structure ExtractReport where
  writtenEntries : Nat := 0
  skippedEntries : Nat := 0
  writtenBytes : Nat := 0
  warnings : List Text := []

/-- The bytes of chunks. -/
def chunkBytes (chunks : List (Nat × Nat)) : Nat := (chunks.map Prod.fst).sum

section

variable [DecidableEq Identity] (pathIdentity : Text → Identity)

/-! ## The shared loop -/

def skipEntry (report : ExtractReport) (context : JobContext Identity) (warning : Text) :
    ExtractReport × JobContext Identity :=
  ({ report with
      skippedEntries := report.skippedEntries + 1
      warnings := report.warnings ++ [warning] },
    context.warning warning)

/-- The progress of a file's chunks. -/
def copyFileEntry (context : JobContext Identity) (path : Text) (chunks : List (Nat × Nat)) :
    JobContext Identity :=
  chunks.foldl (fun context chunk =>
    context.bytesProcessed pathIdentity (some path) chunk.1 chunk.2) context

/-- One entry, with the bytes that were materialized. -/
def processExtractionEntry (report : ExtractReport) (context : JobContext Identity)
    (visit : Visit Error) : Except Error ExtractReport × JobContext Identity :=
  let path := visit.member.path
  let started := context.entryStarted path (some visit.member.size)
  match visit.treatment with
  | .unselected =>
    (.ok { report with skippedEntries := report.skippedEntries + 1 }, context)
  | .rootDirectory =>
    let skipped := skipEntry report context "skipped archive root directory entry".toList
    (.ok skipped.1, skipped.2)
  | .rejected error => (.error error, context)
  | .skipped reason =>
    let skipped := skipEntry report started
      ("skipped ".toList ++ path ++ ": ".toList ++ reason)
    (.ok skipped.1, skipped.2.entryFinished pathIdentity path 0 visit.finished)
  | .unsupported warning =>
    let skipped := skipEntry report started warning
    (.ok skipped.1, skipped.2.entryFinished pathIdentity path 0 visit.finished)
  | .made =>
    (.ok { report with writtenEntries := report.writtenEntries + 1 },
      started.entryFinished pathIdentity path 0 visit.finished)
  | .file chunks =>
    (.ok { report with
        writtenEntries := report.writtenEntries + 1
        writtenBytes := report.writtenBytes + chunkBytes chunks },
      (copyFileEntry pathIdentity started path chunks).entryFinished pathIdentity path
        (chunkBytes chunks) visit.finished)
  | .failed chunks error => (.error error, copyFileEntry pathIdentity started path chunks)

/-- The entries one after the other. -/
def extractLoop (report : ExtractReport) (context : JobContext Identity) :
    List (Visit Error) → Except Error ExtractReport × JobContext Identity
  | [] => (.ok report, context)
  | visit :: rest =>
    match processExtractionEntry pathIdentity report context visit with
    | (.error error, context) => (.error error, context)
    | (.ok report, context) => extractLoop report context rest

/-! ## The sessions -/

/-- An operation of a read session, with the ids of entries. -/
inductive Operation where
  | extract
  | selectedExtract (entryId : Nat)
  | selectedExtractMany (entryIds : List Nat)

/-- Failures of an extraction. -/
inductive EngineError (Error : Type) where
  | notPresent (entryId : Nat)
  | backend (error : Error)

/-- What surrounds an operation. -/
structure World (Error : Type) where
  start : Nat
  /-- A failure before the first entry. -/
  opening : Option Error
  /-- The treatment of each visited entry and the time at its end. -/
  treat : Nat → Member → Treatment Error × Nat
  /-- A failure of the deferred links and metadata. -/
  closing : Option Error
  finish : Nat

/-- The loop between what may fail before and behind it. -/
def World.surround (world : World Error) (context : JobContext Identity)
    (visits : List (Visit Error)) : Except Error ExtractReport × JobContext Identity :=
  match world.opening with
  | some error => (.error error, context)
  | none =>
    match extractLoop pathIdentity {} context visits, world.closing with
    | (.ok _, context), some error => (.error error, context)
    | outcome, _ => outcome

/-- What the caller has and what its sink has received. -/
abbrev Outcome (Identity Error : Type) :=
  Except (EngineError Error) ExtractReport × List (JobEvent Identity)

/-- An opened ZIP archive. -/
structure ZipReadSession where
  members : List Member
  /-- The ids of the listing with the places in the archive. -/
  retainedEntries : List (Nat × Nat)

namespace ZipReadSession

def retainedIndex (session : ZipReadSession) (entryId : Nat) :
    Except (EngineError Error) Nat :=
  match session.retainedEntries.find? (fun retained => retained.1 = entryId) with
  | some retained => .ok retained.2
  | none => .error (.notPresent entryId)

/-- The places that an operation selects, or all. -/
def selectedIndices (session : ZipReadSession) :
    Operation → Except (EngineError Error) (Option (List Nat))
  | .extract => .ok none
  | .selectedExtract entryId => (session.retainedIndex entryId).map fun index => some [index]
  | .selectedExtractMany entryIds => (entryIds.mapM session.retainedIndex).map some

/-- The entries at the places, in the order of the selection. -/
def visits (session : ZipReadSession) (selected : Option (List Nat)) (world : World Error) :
    List (Visit Error) :=
  ((selected.getD (List.range session.members.length)).filterMap
    (session.members[·]?)).zipIdx.map fun visited =>
      let treated := world.treat visited.2 visited.1
      ⟨visited.1, treated.1, treated.2⟩

/-- The backend: a selected place must be in the archive. -/
def extractZipArchive (session : ZipReadSession) (notFound : Error) (world : World Error)
    (context : JobContext Identity) (selected : Option (List Nat)) :
    Except Error ExtractReport × JobContext Identity :=
  if world.opening.isNone ∧
      (selected.getD []).any fun index => decide (session.members.length ≤ index) then
    (.error notFound, context)
  else world.surround pathIdentity context (session.visits selected world)

/-- Each operation makes a job context of its own. -/
def run (session : ZipReadSession) (notFound : Error) (operation : Operation)
    (world : World Error) : Outcome Identity Error :=
  match session.selectedIndices operation with
  | .error error => (.error error, [])
  | .ok selected =>
    let extracted := session.extractZipArchive pathIdentity notFound world
      (.newWithProgressTotal none world.start) selected
    (extracted.1.mapError .backend, extracted.2.events)

end ZipReadSession

/-- Runs with a job context that is flushed in the end. -/
def withJobContext {Result : Type} (start finish : Nat)
    (run : JobContext Identity → Result × JobContext Identity) :
    Result × List (JobEvent Identity) :=
  let result := run (.newWithProgressTotal none start)
  (result.1, (result.2.flushProgress finish).events)

/-- A path and which of the entries with it. -/
structure TarEntrySelector where
  path : Text
  occurrence : Nat
  deriving DecidableEq

/-- Which members of a TAR are asked for. -/
inductive TarSelection where
  | pathOccurrence (selector : TarEntrySelector)
  | multipleSelectors (selectors : List TarEntrySelector)

def TarSelection.selects : Option TarSelection → TarEntrySelector → Bool
  | none, _ => true
  | some (.pathOccurrence selector), entry => decide (entry = selector)
  | some (.multipleSelectors selectors), entry => decide (entry ∈ selectors)

/-- An opened TAR archive. -/
structure TarReadSession where
  members : List Member
  retainedEntry : Nat → Option TarEntrySelector

namespace TarReadSession

def retained (session : TarReadSession) (entryId : Nat) :
    Except (EngineError Error) TarEntrySelector :=
  match session.retainedEntry entryId with
  | some selector => .ok selector
  | none => .error (.notPresent entryId)

def selection (session : TarReadSession) :
    Operation → Except (EngineError Error) (Option TarSelection)
  | .extract => .ok none
  | .selectedExtract entryId =>
    (session.retained entryId).map fun selector => some (.pathOccurrence selector)
  | .selectedExtractMany entryIds =>
    (entryIds.mapM session.retained).map fun selectors => some (.multipleSelectors selectors)

/-- All entries in the order of the archive, those behind the paths seen so far. -/
def visitsFrom (selection : Option TarSelection) (world : World Error) :
    List Text → List Member → List (Visit Error)
  | _, [] => []
  | seen, member :: rest =>
    let treated := world.treat seen.length member
    let visit : Visit Error :=
      if TarSelection.selects selection ⟨member.path, seen.count member.path⟩ then
        ⟨member, treated.1, treated.2⟩
      else ⟨member, .unselected, treated.2⟩
    visit :: visitsFrom selection world (seen ++ [member.path]) rest

def visits (session : TarReadSession) (selection : Option TarSelection) (world : World Error) :
    List (Visit Error) :=
  visitsFrom selection world [] session.members

def run (session : TarReadSession) (operation : Operation) (world : World Error) :
    Outcome Identity Error :=
  match session.selection operation with
  | .error error => (.error error, [])
  | .ok selection =>
    let extracted := withJobContext world.start world.finish fun context =>
      world.surround pathIdentity context (session.visits selection world)
    (extracted.1.mapError .backend, extracted.2)

end TarReadSession

/-! ## Batches of single entries -/

/-- Adds the finished entries' totals back in. -/
structure BatchProgressSink (Identity : Type) where
  inner : List (JobEvent Identity) := []
  finishedBytes : Nat := 0
  finishedEntries : Nat := 0
  currentBytes : Nat := 0
  currentEntries : Nat := 0

namespace BatchProgressSink

omit [DecidableEq Identity] in
def emit (sink : BatchProgressSink Identity) : JobEvent Identity → BatchProgressSink Identity
  | .bytesProcessed path recent identities bytes totalBytes entries totalEntries truncated =>
    { sink with
      currentBytes := totalBytes
      currentEntries := totalEntries
      inner := sink.inner ++ [.bytesProcessed path recent identities bytes
        (saturatingAdd totalBytes sink.finishedBytes) entries
        (saturatingAdd totalEntries sink.finishedEntries) truncated] }
  | event => { sink with inner := sink.inner ++ [event] }

/-- Folds the entry that just finished into the batch totals. -/
def finishEntry (sink : BatchProgressSink Identity) : BatchProgressSink Identity :=
  { sink with
    finishedBytes := saturatingAdd sink.finishedBytes sink.currentBytes
    finishedEntries := saturatingAdd sink.finishedEntries sink.currentEntries
    currentBytes := 0
    currentEntries := 0 }

end BatchProgressSink

/-- The extraction of one entry: its calls of a job context and how it ends. -/
structure OneExtraction (Identity Error : Type) where
  start : Nat
  calls : Timed Identity
  finish : Nat
  result : Except Error ExtractReport

/-- As adapters run it. -/
def OneExtraction.run (one : OneExtraction Identity Error) :
    Except Error ExtractReport × List (JobEvent Identity) :=
  withJobContext one.start one.finish fun context =>
    (one.result, context.run pathIdentity one.calls)

def ExtractReport.add (report item : ExtractReport) : ExtractReport :=
  { writtenEntries := saturatingAdd report.writtenEntries item.writtenEntries
    skippedEntries := saturatingAdd report.skippedEntries item.skippedEntries
    writtenBytes := saturatingAdd report.writtenBytes item.writtenBytes
    warnings := report.warnings ++ item.warnings }

/-- One entry after the other, as one job. -/
def selectedExtractEach (report : ExtractReport) (sink : BatchProgressSink Identity) :
    List (OneExtraction Identity Error) → Except Error ExtractReport × BatchProgressSink Identity
  | [] => (.ok report, sink)
  | one :: rest =>
    let ran := one.run pathIdentity
    let sink := ran.2.foldl BatchProgressSink.emit sink
    match ran.1 with
    | .error error => (.error error, sink)
    | .ok item => selectedExtractEach (report.add item) sink.finishEntry rest

end

end Jobs

end ZManager
