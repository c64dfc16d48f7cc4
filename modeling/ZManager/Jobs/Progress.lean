import Mathlib.Logic.Function.Basic
import ZManager.Safety.ArchivePath

/-! # Progress of jobs

A job context collects bytes and entries in a coalescer and hands them on in batches, decided by
bytes, by entries and by time. A progress state is what a consumer folds the events into. Paths
are told apart by an identity of the path as the producer has it, since the copies that are shown
are cut.
-/

namespace ZManager

namespace Jobs

/-- `u64::saturating_add`. -/
def saturatingAdd (one two : Nat) : Nat := min (one + two) (2 ^ 64 - 1)

theorem saturatingAdd_of_lt {one two : Nat} (fits : one + two < 2 ^ 64) :
    saturatingAdd one two = one + two := by
  unfold saturatingAdd
  omega

/-- In nanoseconds. -/
def progressInterval : Nat := 1000000000

def progressMinByteStep : Nat := 4 * 1024 * 1024

def progressRecentPathLimit : Nat := 10

def progressRecentPathBytesLimit : Nat := 4 * 1024

def progressPathDisplayBytesLimit : Nat := progressRecentPathBytesLimit / progressRecentPathLimit

def progressEntryStep : Nat := 128

/-! ## Cutting paths -/

/-- `str::is_char_boundary`. -/
def isCharBoundary : Text → Nat → Bool
  | _, 0 => true
  | [], _ + 1 => false
  | char :: rest, index + 1 =>
    if index + 1 < char.utf8Size then false
    else isCharBoundary rest (index + 1 - char.utf8Size)

/-- The characters in front of a boundary. -/
def upTo : Text → Nat → Text
  | _, 0 => []
  | [], _ + 1 => []
  | char :: rest, index + 1 => char :: upTo rest (index + 1 - char.utf8Size)

/-- The last boundary that is not behind an index. -/
def boundaryBefore (value : Text) : Nat → Nat
  | 0 => 0
  | index + 1 =>
    if isCharBoundary value (index + 1) then index + 1 else boundaryBefore value index

def truncateUtf8 (value : Text) (limit : Nat) : Text :=
  if utf8Length value ≤ limit then value else upTo value (boundaryBefore value limit)

/-- The bytes of the paths together. -/
def pathBytes (paths : List Text) : Nat := (paths.map utf8Length).sum

/-! ## Events -/

/-- The phases of a job. -/
inductive JobPhase where
  | planningPayload
  | planningMetadata
  | emittingPayload
  | emittingMetadata
  | committingOutput
  deriving Repr, DecidableEq

/-- How a job ends. -/
inductive JobOutcome where
  | completed
  | failed
  | cancelled
  deriving Repr, DecidableEq

/-- Progress and lifecycle event emitted by archive jobs. -/
inductive JobEvent (Identity : Type) where
  | started (totalBytes : Option Nat)
  | entryStarted (path : Text) (bytes : Option Nat)
  | bytesProcessed (path : Option Text) (recentPaths : List Text)
      (recentPathIdentities : List Identity) (bytes totalBytesProcessed : Nat)
      (entries totalEntriesProcessed : Nat) (recentPathsTruncated : Bool)
  | phaseStarted (phase : JobPhase) (totalBytes : Option Nat)
  | phaseBytesProcessed (phase : JobPhase) (path : Option Text) (recentPaths : List Text)
      (recentPathIdentities : List Identity) (bytes totalBytesProcessed : Nat)
      (totalBytes : Option Nat) (recentPathsTruncated : Bool)
  | entryFinished (path : Text) (bytes : Nat)
  | warning (message : Text)
  | completed (entries bytes : Nat)
  | failed (message : Text)
  | cancelled (message : Text)

/-! ## The state of a consumer -/

/-- Runtime-neutral projection of the latest raw progress facts. -/
structure JobProgressState (Identity : Type) where
  processedBytes : Nat := 0
  totalBytes : Option Nat := none
  processedEntries : Nat := 0
  currentPath : Option Text := none
  recentPaths : List Text := []
  activePhase : Option JobPhase := none
  phaseProcessedBytes : Nat := 0
  phaseTotalBytes : Option Nat := none
  warningCount : Nat := 0
  outcome : Option JobOutcome := none
  recentPathIdentities : List Identity := []

variable {Identity : Type} [DecidableEq Identity] (pathIdentity : Text → Identity)

/-- Recent paths and identities without those of an identity. -/
def withoutIdentity (paths : List Text) (identities : List Identity) (identity : Identity) :
    List Text × List Identity :=
  match identities.findIdx? (· = identity) with
  | some index => (paths.eraseIdx index, identities.eraseIdx index)
  | none => (paths, identities)

/-- The oldest path goes when there are too many. -/
def dropOldest (paths : List Text) (identities : List Identity) : List Text × List Identity :=
  if progressRecentPathLimit < paths.length then (paths.drop 1, identities.drop 1)
  else (paths, identities)

/-- Oldest paths go while all together are too long. -/
def evictLong : List Text → List Identity → List Text × List Identity
  | [], identities => ([], identities)
  | path :: paths, identities =>
    if progressRecentPathBytesLimit < pathBytes (path :: paths) then
      evictLong paths (identities.drop 1)
    else (path :: paths, identities)

namespace JobProgressState

def recordPathWithIdentity (state : JobProgressState Identity) (path : Text)
    (identity : Identity) : JobProgressState Identity :=
  let path := truncateUtf8 path progressPathDisplayBytesLimit
  let others := withoutIdentity state.recentPaths state.recentPathIdentities identity
  let bounded := dropOldest (others.1 ++ [path]) (others.2 ++ [identity])
  let kept := evictLong bounded.1 bounded.2
  { state with
    recentPaths := kept.1
    recentPathIdentities := kept.2
    currentPath := some path }

def recordPath (state : JobProgressState Identity) (path : Text) : JobProgressState Identity :=
  state.recordPathWithIdentity path (pathIdentity path)

/-- The paths of an event with the identities that it has for them. -/
def recordRecent (state : JobProgressState Identity) :
    List Text → List Identity → JobProgressState Identity
  | [], _ => state
  | path :: recent, identities =>
    recordRecent
      (state.recordPathWithIdentity path (identities.head?.getD (pathIdentity path)))
      recent (identities.drop 1)

def recordPaths (state : JobProgressState Identity) (current : Option Text)
    (recent : List Text) (identities : List Identity) : JobProgressState Identity :=
  let state := state.recordRecent pathIdentity recent identities
  match current with
  | none => state
  | some path =>
    -- `rposition`
    let last := (recent.reverse.findIdx? (· = path)).map (recent.length - 1 - ·)
    let identity := (last.bind fun index => identities[index]?).getD (pathIdentity path)
    state.recordPathWithIdentity path identity

/-- Applies one semantic event. The first terminal outcome is immutable. -/
def apply (state : JobProgressState Identity) (event : JobEvent Identity) :
    JobProgressState Identity :=
  if state.outcome.isSome then state
  else
    match event with
    | .started totalBytes => { state with totalBytes := totalBytes }
    | .entryStarted path _ => state.recordPath pathIdentity path
    | .bytesProcessed path recentPaths identities _ totalBytes _ totalEntries _ =>
      recordPaths pathIdentity
        { state with
          processedBytes := max state.processedBytes totalBytes
          processedEntries := max state.processedEntries totalEntries }
        path recentPaths identities
    | .phaseStarted phase totalBytes =>
      { state with
        activePhase := some phase
        phaseProcessedBytes := 0
        phaseTotalBytes := totalBytes }
    | .phaseBytesProcessed phase path recentPaths identities _ processed totalBytes _ =>
      let before := if state.activePhase ≠ some phase then 0 else state.phaseProcessedBytes
      recordPaths pathIdentity
        { state with
          activePhase := some phase
          phaseProcessedBytes := max before processed
          phaseTotalBytes := totalBytes }
        path recentPaths identities
    | .entryFinished path _ =>
      recordPath pathIdentity
        { state with processedEntries := saturatingAdd state.processedEntries 1 } path
    | .warning _ => { state with warningCount := saturatingAdd state.warningCount 1 }
    | .completed entries bytes =>
      { state with
        processedEntries := max state.processedEntries entries
        processedBytes := max state.processedBytes bytes
        outcome := some .completed }
    | .failed _ => { state with outcome := some .failed }
    | .cancelled _ => { state with outcome := some .cancelled }

/-- What a consumer has after the events. -/
def after (events : List (JobEvent Identity)) : JobProgressState Identity :=
  events.foldl (apply pathIdentity) {}

end JobProgressState

/-! ## The coalescer -/

/-- Progress that is reported at once. -/
structure ProgressBatch (Identity : Type) where
  path : Option Text
  recentPaths : List Text
  recentPathIdentities : List Identity
  bytes : Nat
  entries : Nat
  recentPathsTruncated : Bool

/-- Progress that waits to be reported. -/
structure ProgressCoalescer (Identity : Type) where
  totalBytes : Option Nat
  pendingBytes : Nat := 0
  pendingEntries : Nat := 0
  latestPath : Option Text := none
  lastRawPath : Option Text := none
  recentPaths : List (Identity × Text) := []
  lastEmitted : Nat
  emittedOnce : Bool := false
  recentPathsTruncated : Bool := false

/-- Oldest paths go while all together are too long, and whether any went. -/
def evictPaths : List (Identity × Text) → List (Identity × Text) × Bool
  | [] => ([], false)
  | first :: rest =>
    if progressRecentPathBytesLimit < pathBytes ((first :: rest).map Prod.snd) then
      ((evictPaths rest).1, true)
    else (first :: rest, false)

namespace ProgressCoalescer

/-- The windows of paths, when the path is not the last one again. -/
def recordPath (coalescer : ProgressCoalescer Identity) (path : Text) :
    ProgressCoalescer Identity :=
  if coalescer.lastRawPath = some path then coalescer
  else
    let identity := pathIdentity path
    let display := truncateUtf8 path progressPathDisplayBytesLimit
    let truncated := coalescer.recentPathsTruncated ||
      decide (progressPathDisplayBytesLimit < utf8Length path)
    let coalescer : ProgressCoalescer Identity := { coalescer with
      lastRawPath := some path
      recentPathsTruncated := truncated
      latestPath := some display }
    if coalescer.recentPaths.getLast?.all fun last => last.1 ≠ identity then
      let others := coalescer.recentPaths.eraseP fun recent => recent.1 = identity
      let pushed := others ++ [(identity, display)]
      let bounded := if progressRecentPathLimit < pushed.length then pushed.drop 1 else pushed
      let (kept, evicted) := evictPaths bounded
      { coalescer with
        recentPaths := kept
        recentPathsTruncated := coalescer.recentPathsTruncated || evicted }
    else coalescer

def flushAt (coalescer : ProgressCoalescer Identity) (now : Nat) :
    Option (ProgressBatch Identity) × ProgressCoalescer Identity :=
  if coalescer.pendingBytes = 0 ∧ coalescer.pendingEntries = 0 then (none, coalescer)
  else
    (some
      { path := coalescer.latestPath
        recentPaths := coalescer.recentPaths.map Prod.snd
        recentPathIdentities := coalescer.recentPaths.map Prod.fst
        bytes := coalescer.pendingBytes
        entries := coalescer.pendingEntries
        recentPathsTruncated := coalescer.recentPathsTruncated },
      { coalescer with
        emittedOnce := true
        lastEmitted := now
        latestPath := none
        recentPaths := []
        pendingBytes := 0
        pendingEntries := 0
        recentPathsTruncated := false })

def byteStep (coalescer : ProgressCoalescer Identity) : Nat :=
  max progressMinByteStep ((coalescer.totalBytes.getD 0 + 99) / 100)

/-- A batch is due the first time, by bytes, by entries and by time. -/
def IsDue (coalescer : ProgressCoalescer Identity) (now : Nat) : Prop :=
  ¬ coalescer.emittedOnce ∨ coalescer.byteStep ≤ coalescer.pendingBytes ∨
    progressEntryStep ≤ coalescer.pendingEntries ∨
    progressInterval ≤ now - coalescer.lastEmitted

instance (coalescer : ProgressCoalescer Identity) (now : Nat) : Decidable (coalescer.IsDue now) :=
  inferInstanceAs (Decidable (_ ∨ _))

/-- Bytes and entries become pending. -/
def addPending (coalescer : ProgressCoalescer Identity) (bytes entries : Nat) :
    ProgressCoalescer Identity :=
  { coalescer with
    pendingBytes := saturatingAdd coalescer.pendingBytes bytes
    pendingEntries := saturatingAdd coalescer.pendingEntries entries }

def recordOptionalPath (coalescer : ProgressCoalescer Identity) :
    Option Text → ProgressCoalescer Identity
  | some path => coalescer.recordPath pathIdentity path
  | none => coalescer

def recordActivityAt (coalescer : ProgressCoalescer Identity) (path : Option Text)
    (bytes entries now : Nat) : Option (ProgressBatch Identity) × ProgressCoalescer Identity :=
  if bytes = 0 ∧ entries = 0 then (none, coalescer)
  else
    let coalescer := (coalescer.addPending bytes entries).recordOptionalPath pathIdentity path
    if coalescer.IsDue now then coalescer.flushAt now else (none, coalescer)

end ProgressCoalescer

/-! ## The job context -/

/-- A job context with the events that its sink has received. -/
structure JobContext (Identity : Type) where
  events : List (JobEvent Identity) := []
  totalBytesProcessed : Nat := 0
  totalEntriesProcessed : Nat := 0
  progress : ProgressCoalescer Identity
  phaseBytesProcessed : JobPhase → Option Nat := fun _ => none

namespace JobContext

variable (context : JobContext Identity)

/-- A context with a known logical byte total, made at a time. -/
def newWithProgressTotal (totalBytes : Option Nat) (now : Nat) : JobContext Identity :=
  { progress := { totalBytes := totalBytes, lastEmitted := now } }

def emit (event : JobEvent Identity) : JobContext Identity :=
  { context with events := context.events ++ [event] }

def emitBytesProcessedBatch (batch : ProgressBatch Identity) : JobContext Identity :=
  context.emit (.bytesProcessed batch.path batch.recentPaths batch.recentPathIdentities
    batch.bytes context.totalBytesProcessed batch.entries context.totalEntriesProcessed
    batch.recentPathsTruncated)

/-- What the coalescer gives, if anything, is emitted. -/
def handOn (batch : Option (ProgressBatch Identity) × ProgressCoalescer Identity) :
    JobContext Identity :=
  let context := { context with progress := batch.2 }
  match batch.1 with
  | some batch => context.emitBytesProcessedBatch batch
  | none => context

def entryStarted (path : Text) (bytes : Option Nat) : JobContext Identity :=
  context.emit (.entryStarted path bytes)

def entryFinished (path : Text) (bytes now : Nat) : JobContext Identity :=
  let context := { context with
    totalEntriesProcessed := saturatingAdd context.totalEntriesProcessed 1 }
  let context := context.emit (.entryFinished path bytes)
  context.handOn (context.progress.recordActivityAt pathIdentity (some path) 0 1 now)

def warning (message : Text) : JobContext Identity := context.emit (.warning message)

def bytesProcessed (path : Option Text) (bytes now : Nat) : JobContext Identity :=
  let context := { context with
    totalBytesProcessed := saturatingAdd context.totalBytesProcessed bytes }
  context.handOn (context.progress.recordActivityAt pathIdentity path bytes 0 now)

def flushProgress (now : Nat) : JobContext Identity :=
  context.handOn (context.progress.flushAt now)

def phaseStarted (phase : JobPhase) (totalBytes : Option Nat) (now : Nat) : JobContext Identity :=
  let context := context.flushProgress now
  let context := { context with
    phaseBytesProcessed := Function.update context.phaseBytesProcessed phase (some 0) }
  context.emit (.phaseStarted phase totalBytes)

def phaseBytesProcessedWithPathIdentities (phase : JobPhase) (path : Option Text)
    (recentPaths : List Text) (recentPathIdentities : List Identity) (bytes : Nat)
    (totalBytes : Option Nat) (recentPathsTruncated : Bool) : JobContext Identity :=
  let processed := saturatingAdd ((context.phaseBytesProcessed phase).getD 0) bytes
  let context := { context with
    phaseBytesProcessed := Function.update context.phaseBytesProcessed phase (some processed) }
  context.emit (.phaseBytesProcessed phase path recentPaths recentPathIdentities bytes processed
    totalBytes recentPathsTruncated)

end JobContext

end Jobs

end ZManager
