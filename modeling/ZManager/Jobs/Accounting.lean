import ZManager.Jobs.Windows

/-! # What progress adds up to

Every byte and entry is either pending in the coalescer or in one of the batches that were
emitted, and the totals of a batch are those of all batches so far.
-/

namespace ZManager

namespace Jobs

/-- The calls that a backend makes of its job context. -/
inductive Call (Identity : Type) where
  | entryStarted (path : Text) (bytes : Option Nat)
  | entryFinished (path : Text) (bytes : Nat)
  | warning (message : Text)
  | bytesProcessed (path : Option Text) (bytes : Nat)
  | phaseStarted (phase : JobPhase) (totalBytes : Option Nat)
  | phaseBytes (phase : JobPhase) (path : Option Text) (recentPaths : List Text)
      (recentPathIdentities : List Identity) (bytes : Nat) (totalBytes : Option Nat)
      (recentPathsTruncated : Bool)
  | flushProgress

variable {Identity : Type}

namespace Call

def bytes : Call Identity → Nat
  | bytesProcessed _ bytes => bytes
  | _ => 0

def entries : Call Identity → Nat
  | entryFinished .. => 1
  | _ => 0

end Call

/-- Calls with the time that the clock reads at each. -/
abbrev Timed (Identity : Type) := List (Call Identity × Nat)

def recordedBytes (calls : Timed Identity) : Nat := (calls.map (·.1.bytes)).sum

/-- The number of `entry_finished` calls. -/
def recordedEntries (calls : Timed Identity) : Nat := (calls.map (·.1.entries)).sum

namespace JobEvent

/-- The bytes of a batch. -/
def batchBytes : JobEvent Identity → Nat
  | bytesProcessed _ _ _ bytes .. => bytes
  | _ => 0

def batchEntries : JobEvent Identity → Nat
  | bytesProcessed _ _ _ _ _ entries .. => entries
  | _ => 0

def IsTerminal : JobEvent Identity → Prop
  | completed .. => True
  | failed .. => True
  | cancelled .. => True
  | _ => False

end JobEvent

def emittedBytes (events : List (JobEvent Identity)) : Nat := (events.map JobEvent.batchBytes).sum

def emittedEntries (events : List (JobEvent Identity)) : Nat :=
  (events.map JobEvent.batchEntries).sum

@[simp] theorem emittedBytes_append (events more : List (JobEvent Identity)) :
    emittedBytes (events ++ more) = emittedBytes events + emittedBytes more := by
  simp [emittedBytes]

@[simp] theorem emittedEntries_append (events more : List (JobEvent Identity)) :
    emittedEntries (events ++ more) = emittedEntries events + emittedEntries more := by
  simp [emittedEntries]

section

variable [DecidableEq Identity] (pathIdentity : Text → Identity)

namespace JobContext

/-- One call. -/
def call (context : JobContext Identity) (now : Nat) : Call Identity → JobContext Identity
  | .entryStarted path bytes => context.entryStarted path bytes
  | .entryFinished path bytes => context.entryFinished pathIdentity path bytes now
  | .warning message => context.warning message
  | .bytesProcessed path bytes => context.bytesProcessed pathIdentity path bytes now
  | .phaseStarted phase totalBytes => context.phaseStarted phase totalBytes now
  | .phaseBytes phase path recentPaths identities bytes totalBytes truncated =>
    context.phaseBytesProcessedWithPathIdentities phase path recentPaths identities bytes
      totalBytes truncated
  | .flushProgress => context.flushProgress now

/-- The calls one after the other. -/
def run (context : JobContext Identity) (calls : Timed Identity) : JobContext Identity :=
  calls.foldl (fun context timed => context.call pathIdentity timed.2 timed.1) context

end JobContext

/-! ## The numbers of a state -/

namespace JobProgressState

variable (state : JobProgressState Identity)

variable {event : JobEvent Identity}

/-- The parts of a state that paths do not touch. -/
structure SameNumbers (state other : JobProgressState Identity) : Prop where
  processedBytes : other.processedBytes = state.processedBytes
  processedEntries : other.processedEntries = state.processedEntries
  outcome : other.outcome = state.outcome

omit [DecidableEq Identity] in
theorem SameNumbers.trans {one two three : JobProgressState Identity} (first : SameNumbers one two)
    (second : SameNumbers two three) : SameNumbers one three :=
  ⟨second.1.trans first.1, second.2.trans first.2, second.3.trans first.3⟩

theorem sameNumbers_recordRecent (recent : List Text) (identities : List Identity) :
    SameNumbers state (state.recordRecent pathIdentity recent identities) := by
  induction recent generalizing state identities with
  | nil => exact ⟨rfl, rfl, rfl⟩
  | cons path recent ih =>
    have first : SameNumbers state (state.recordPathWithIdentity path
        (identities.head?.getD (pathIdentity path))) := ⟨rfl, rfl, rfl⟩
    exact first.trans (ih _ _)

theorem sameNumbers_recordPaths (current : Option Text) (recent : List Text)
    (identities : List Identity) :
    SameNumbers state (state.recordPaths pathIdentity current recent identities) := by
  have recorded := state.sameNumbers_recordRecent pathIdentity recent identities
  cases current with
  | none => exact recorded
  | some path => exact recorded.trans ⟨rfl, rfl, rfl⟩

theorem after_concat (events : List (JobEvent Identity)) (event : JobEvent Identity) :
    after pathIdentity (events ++ [event]) =
      (after pathIdentity events).apply pathIdentity event := by
  simp [after]

/-- Nothing changes behind an outcome. -/
theorem apply_of_outcome {state : JobProgressState Identity} (ended : state.outcome.isSome)
    (event : JobEvent Identity) : state.apply pathIdentity event = state :=
  if_pos ended

theorem foldl_of_outcome {state : JobProgressState Identity} (ended : state.outcome.isSome)
    (events : List (JobEvent Identity)) :
    events.foldl (apply pathIdentity) state = state := by
  induction events with
  | nil => rfl
  | cons event events ih => rw [List.foldl_cons, apply_of_outcome pathIdentity ended, ih]

theorem outcome_of_terminal (terminal : event.IsTerminal) :
    (state.apply pathIdentity event).outcome.isSome := by
  unfold apply
  split
  · assumption
  · cases event with
    | completed => rfl
    | failed => rfl
    | cancelled => rfl
    | _ => exact terminal.elim

/-- What the events of a job context do to the numbers. -/
def counted (state : JobProgressState Identity) : JobEvent Identity → JobProgressState Identity
  | .bytesProcessed _ _ _ _ totalBytes _ totalEntries _ =>
    { state with
      processedBytes := max state.processedBytes totalBytes
      processedEntries := max state.processedEntries totalEntries }
  | .entryFinished .. =>
    { state with processedEntries := saturatingAdd state.processedEntries 1 }
  | _ => state

theorem sameNumbers_apply (going : state.outcome = none) (onward : ¬ event.IsTerminal) :
    SameNumbers (state.counted event) (state.apply pathIdentity event) := by
  unfold apply
  rw [if_neg (by rw [going]; simp)]
  cases event with
  | bytesProcessed => exact sameNumbers_recordPaths ..
  | phaseBytesProcessed =>
    obtain ⟨bytes, entries, outcome⟩ := sameNumbers_recordPaths pathIdentity _ _ _ _
    exact ⟨bytes, entries, outcome⟩
  | completed => exact absurd trivial onward
  | failed => exact absurd trivial onward
  | cancelled => exact absurd trivial onward
  | _ => exact ⟨rfl, rfl, rfl⟩

theorem processedBytes_le_apply (event : JobEvent Identity) :
    state.processedBytes ≤ (state.apply pathIdentity event).processedBytes := by
  unfold apply
  split
  · exact Nat.le_refl _
  · cases event with
    | bytesProcessed =>
      dsimp only
      rw [(sameNumbers_recordPaths pathIdentity _ _ _ _).processedBytes]
      exact Nat.le_max_left ..
    | phaseBytesProcessed =>
      dsimp only
      rw [(sameNumbers_recordPaths pathIdentity _ _ _ _).processedBytes]
    | completed => exact Nat.le_max_left ..
    | _ => exact Nat.le_refl _

end JobProgressState

/-! ## The coalescer's numbers -/

/-- Bytes and entries are either in the batch that is given or still pending. -/
def Gives (bytes entries : Nat)
    (result : Option (ProgressBatch Identity) × ProgressCoalescer Identity) : Prop :=
  match result.1 with
  | none => result.2.pendingBytes = bytes ∧ result.2.pendingEntries = entries
  | some batch =>
    batch.bytes = bytes ∧ batch.entries = entries ∧ result.2.pendingBytes = 0 ∧
      result.2.pendingEntries = 0

namespace ProgressCoalescer

variable {coalescer : ProgressCoalescer Identity}

omit [DecidableEq Identity] in
theorem gives_flushAt (coalescer : ProgressCoalescer Identity) (now : Nat) :
    Gives coalescer.pendingBytes coalescer.pendingEntries (coalescer.flushAt now) := by
  unfold flushAt
  split
  · exact ⟨rfl, rfl⟩
  · exact ⟨rfl, rfl, rfl, rfl⟩

omit [DecidableEq Identity] in
/-- Nothing is pending behind a flush. -/
theorem pending_flushAt (coalescer : ProgressCoalescer Identity) (now : Nat) :
    (coalescer.flushAt now).2.pendingBytes = 0 ∧ (coalescer.flushAt now).2.pendingEntries = 0 := by
  unfold flushAt
  split
  · assumption
  · exact ⟨rfl, rfl⟩

theorem pending_recordPath (coalescer : ProgressCoalescer Identity) (path : Text) :
    (coalescer.recordPath pathIdentity path).pendingBytes = coalescer.pendingBytes ∧
      (coalescer.recordPath pathIdentity path).pendingEntries = coalescer.pendingEntries := by
  unfold recordPath
  split
  · exact ⟨rfl, rfl⟩
  · dsimp only
    split <;> exact ⟨rfl, rfl⟩

theorem pending_recordOptionalPath (coalescer : ProgressCoalescer Identity) (path : Option Text) :
    (coalescer.recordOptionalPath pathIdentity path).pendingBytes = coalescer.pendingBytes ∧
      (coalescer.recordOptionalPath pathIdentity path).pendingEntries =
        coalescer.pendingEntries := by
  cases path with
  | none => exact ⟨rfl, rfl⟩
  | some path => exact pending_recordPath pathIdentity coalescer path

theorem gives_recordActivityAt (path : Option Text) {bytes entries : Nat} (now : Nat)
    (small : coalescer.pendingBytes + bytes < 2 ^ 64)
    (few : coalescer.pendingEntries + entries < 2 ^ 64) :
    Gives (coalescer.pendingBytes + bytes) (coalescer.pendingEntries + entries)
      (coalescer.recordActivityAt pathIdentity path bytes entries now) := by
  have pending := pending_recordOptionalPath pathIdentity (coalescer.addPending bytes entries) path
  rw [show (coalescer.addPending bytes entries).pendingBytes = coalescer.pendingBytes + bytes from
    saturatingAdd_of_lt small, show (coalescer.addPending bytes entries).pendingEntries =
      coalescer.pendingEntries + entries from saturatingAdd_of_lt few] at pending
  unfold recordActivityAt
  split
  · next none_ =>
    rw [none_.1, none_.2]
    exact ⟨rfl, rfl⟩
  · dsimp only
    split
    · rw [← pending.1, ← pending.2]
      exact gives_flushAt _ now
    · exact pending

omit [DecidableEq Identity] in
theorem HasWindow.flushAt (window : coalescer.HasWindow) (now : Nat) :
    (coalescer.flushAt now).2.HasWindow := by
  unfold ProgressCoalescer.flushAt
  split
  · exact window
  · exact Window.empty

theorem HasWindow.recordActivityAt (window : coalescer.HasWindow) (path : Option Text)
    (bytes entries now : Nat) :
    (coalescer.recordActivityAt pathIdentity path bytes entries now).2.HasWindow := by
  have recorded : ((coalescer.addPending bytes entries).recordOptionalPath pathIdentity
      path).HasWindow := by
    cases path with
    | none => exact window
    | some path =>
      have pending : (coalescer.addPending bytes entries).HasWindow := window
      exact pending.recordPath pathIdentity path
  unfold ProgressCoalescer.recordActivityAt
  split
  · exact window
  · dsimp only
    split
    · exact recorded.flushAt now
    · exact recorded

end ProgressCoalescer

/-! ## One call -/

namespace JobContext

open JobProgressState ProgressCoalescer

variable {bytes entries : Nat}

/-- Bytes and entries that are counted are emitted or still owed, and a consumer has what was
emitted. -/
structure Owes (context : JobContext Identity) (bytes entries : Nat) : Prop where
  bytes : emittedBytes context.events + bytes = context.totalBytesProcessed
  entries : emittedEntries context.events + entries = context.totalEntriesProcessed
  processedBytes : (after pathIdentity context.events).processedBytes = emittedBytes context.events
  processedEntries : (after pathIdentity context.events).processedEntries =
    context.totalEntriesProcessed
  going : (after pathIdentity context.events).outcome = none
  window : context.progress.HasWindow

/-- What is pending is owed. -/
def Accounts (context : JobContext Identity) : Prop :=
  context.Owes pathIdentity context.progress.pendingBytes context.progress.pendingEntries

variable {pathIdentity} {context : JobContext Identity}

/-- Events without a batch and without an entry change no number. -/
theorem Owes.emit (owes : context.Owes pathIdentity bytes entries) (event : JobEvent Identity)
    (onward : ¬ event.IsTerminal) (noBytes : event.batchBytes = 0)
    (noEntries : event.batchEntries = 0)
    (same : ∀ state : JobProgressState Identity, state.counted event = state) :
    (context.emit event).Owes pathIdentity bytes entries := by
  have numbers := sameNumbers_apply pathIdentity (after pathIdentity context.events) owes.going
    onward
  rw [← after_concat, same] at numbers
  have emitted : emittedBytes [event] = 0 := by simp [emittedBytes, noBytes]
  have emittedToo : emittedEntries [event] = 0 := by simp [emittedEntries, noEntries]
  refine ⟨?_, ?_, ?_, ?_, numbers.outcome.trans owes.going, owes.window⟩
  · show emittedBytes (context.events ++ [event]) + bytes = _
    rw [emittedBytes_append, emitted]
    exact owes.bytes
  · show emittedEntries (context.events ++ [event]) + entries = _
    rw [emittedEntries_append, emittedToo]
    exact owes.entries
  · show (after pathIdentity (context.events ++ [event])).processedBytes =
      emittedBytes (context.events ++ [event])
    rw [emittedBytes_append, emitted]
    exact numbers.processedBytes.trans owes.processedBytes
  · exact numbers.processedEntries.trans owes.processedEntries

/-- The bytes of phases are counted apart. -/
theorem Owes.phases (owes : context.Owes pathIdentity bytes entries)
    (phaseBytesProcessed : JobPhase → Option Nat) :
    ({ context with phaseBytesProcessed := phaseBytesProcessed } : JobContext Identity).Owes
      pathIdentity bytes entries :=
  ⟨owes.bytes, owes.entries, owes.processedBytes, owes.processedEntries, owes.going, owes.window⟩

/-- A batch pays what is owed. -/
theorem Owes.emitBatch {batch : ProgressBatch Identity}
    (owes : context.Owes pathIdentity batch.bytes batch.entries) :
    (context.emitBytesProcessedBatch batch).Owes pathIdentity 0 0 := by
  have numbers := sameNumbers_apply pathIdentity (after pathIdentity context.events) owes.going
    (id : ¬ (JobEvent.bytesProcessed batch.path batch.recentPaths batch.recentPathIdentities
      batch.bytes context.totalBytesProcessed batch.entries context.totalEntriesProcessed
      batch.recentPathsTruncated).IsTerminal)
  rw [← after_concat] at numbers
  have bytes := owes.bytes
  have total : emittedBytes (context.emitBytesProcessedBatch batch).events =
      context.totalBytesProcessed := by
    unfold emitBytesProcessedBatch JobContext.emit
    rw [emittedBytes_append, ← bytes]
    simp [emittedBytes, JobEvent.batchBytes]
  have totalEntries : emittedEntries (context.emitBytesProcessedBatch batch).events =
      context.totalEntriesProcessed := by
    unfold emitBytesProcessedBatch JobContext.emit
    rw [emittedEntries_append, ← owes.entries]
    simp [emittedEntries, JobEvent.batchEntries]
  refine ⟨total, totalEntries, ?_, ?_, numbers.outcome.trans owes.going, owes.window⟩
  · rw [total]
    refine numbers.processedBytes.trans (Nat.max_eq_right ?_)
    rw [owes.processedBytes, ← bytes]
    exact Nat.le_add_right ..
  · refine numbers.processedEntries.trans (Nat.max_eq_right ?_)
    rw [owes.processedEntries]

/-- What the coalescer gives of what is owed. -/
theorem Owes.handOn (owes : context.Owes pathIdentity bytes entries)
    {result : Option (ProgressBatch Identity) × ProgressCoalescer Identity}
    (gives : Gives bytes entries result) (window : result.2.HasWindow) :
    (context.handOn result).Accounts pathIdentity := by
  have moved : ({ context with progress := result.2 } : JobContext Identity).Owes pathIdentity
      bytes entries :=
    ⟨owes.bytes, owes.entries, owes.processedBytes, owes.processedEntries, owes.going, window⟩
  obtain ⟨batch, progress⟩ := result
  cases batch with
  | none =>
    obtain ⟨rfl, rfl⟩ := gives
    exact moved
  | some batch =>
    obtain ⟨rfl, rfl, noBytes, noEntries⟩ := gives
    have paid := moved.emitBatch
    unfold Accounts
    rw [show (context.handOn (some batch, progress)).progress.pendingBytes = 0 from noBytes,
      show (context.handOn (some batch, progress)).progress.pendingEntries = 0 from noEntries]
    exact paid

/-- A flush leaves nothing pending. -/
theorem Accounts.flushProgress (accounts : context.Accounts pathIdentity) (now : Nat) :
    (context.flushProgress now).Accounts pathIdentity :=
  Owes.handOn accounts (gives_flushAt _ now) (HasWindow.flushAt accounts.window now)

theorem Accounts.bytesProcessed (accounts : context.Accounts pathIdentity) (path : Option Text)
    (now : Nat) (small : context.totalBytesProcessed + bytes < 2 ^ 64)
    (few : context.totalEntriesProcessed < 2 ^ 64) :
    (context.bytesProcessed pathIdentity path bytes now).Accounts pathIdentity := by
  have total := saturatingAdd_of_lt small
  have counted := accounts.bytes
  have counted' := accounts.entries
  refine Owes.handOn ?_ (gives_recordActivityAt pathIdentity path now
    (show context.progress.pendingBytes + bytes < 2 ^ 64 by omega)
    (show context.progress.pendingEntries + 0 < 2 ^ 64 by omega))
    (HasWindow.recordActivityAt pathIdentity accounts.window ..)
  refine ⟨?_, counted', accounts.processedBytes, accounts.processedEntries, accounts.going,
    accounts.window⟩
  show emittedBytes context.events + (context.progress.pendingBytes + bytes) = saturatingAdd _ _
  omega

theorem Accounts.entryFinished (accounts : context.Accounts pathIdentity) (path : Text)
    (bytes now : Nat) (small : context.totalBytesProcessed < 2 ^ 64)
    (few : context.totalEntriesProcessed + 1 < 2 ^ 64) :
    (context.entryFinished pathIdentity path bytes now).Accounts pathIdentity := by
  have counted := accounts.bytes
  have counted' := accounts.entries
  have total := saturatingAdd_of_lt few
  have numbers := sameNumbers_apply pathIdentity (after pathIdentity context.events)
    accounts.going (id : ¬ (JobEvent.entryFinished path bytes : JobEvent Identity).IsTerminal)
  rw [← after_concat] at numbers
  have emitted : emittedBytes (context.events ++ [.entryFinished path bytes]) =
      emittedBytes context.events := by
    simp [emittedBytes, JobEvent.batchBytes]
  have emittedToo : emittedEntries (context.events ++ [.entryFinished path bytes]) =
      emittedEntries context.events := by
    simp [emittedEntries, JobEvent.batchEntries]
  refine Owes.handOn ?_ (gives_recordActivityAt pathIdentity (some path) now
    (show context.progress.pendingBytes + 0 < 2 ^ 64 by omega)
    (show context.progress.pendingEntries + 1 < 2 ^ 64 by omega))
    (HasWindow.recordActivityAt pathIdentity accounts.window ..)
  refine ⟨?_, ?_, ?_, ?_, numbers.outcome.trans accounts.going, accounts.window⟩
  · exact (congrArg (· + context.progress.pendingBytes) emitted).trans counted
  · show emittedEntries (context.events ++ [.entryFinished path bytes]) +
      (context.progress.pendingEntries + 1) = saturatingAdd _ _
    omega
  · exact numbers.processedBytes.trans (accounts.processedBytes.trans emitted.symm)
  · refine numbers.processedEntries.trans ?_
    show saturatingAdd _ 1 = saturatingAdd _ 1
    rw [accounts.processedEntries]

/-! ## Whole runs -/

omit [DecidableEq Identity] in
theorem totals_handOn (context : JobContext Identity)
    (result : Option (ProgressBatch Identity) × ProgressCoalescer Identity) :
    (context.handOn result).totalBytesProcessed = context.totalBytesProcessed ∧
      (context.handOn result).totalEntriesProcessed = context.totalEntriesProcessed := by
  obtain ⟨batch, progress⟩ := result
  cases batch <;> exact ⟨rfl, rfl⟩

/-- What a call counts. -/
theorem totals_call (pathIdentity : Text → Identity) (context : JobContext Identity) (now : Nat)
    (call : Call Identity) (small : context.totalBytesProcessed + call.bytes < 2 ^ 64)
    (few : context.totalEntriesProcessed + call.entries < 2 ^ 64) :
    (context.call pathIdentity now call).totalBytesProcessed =
        context.totalBytesProcessed + call.bytes ∧
      (context.call pathIdentity now call).totalEntriesProcessed =
        context.totalEntriesProcessed + call.entries := by
  cases call with
  | bytesProcessed path bytes =>
    have totals := totals_handOn { context with
      totalBytesProcessed := saturatingAdd context.totalBytesProcessed bytes }
      (context.progress.recordActivityAt pathIdentity path bytes 0 now)
    exact ⟨totals.1.trans (saturatingAdd_of_lt small), totals.2⟩
  | entryFinished path bytes =>
    have totals := totals_handOn
      (({ context with
        totalEntriesProcessed := saturatingAdd context.totalEntriesProcessed 1 } :
          JobContext Identity).emit (.entryFinished path bytes))
      (context.progress.recordActivityAt pathIdentity (some path) 0 1 now)
    exact ⟨totals.1, totals.2.trans (saturatingAdd_of_lt few)⟩
  | flushProgress => exact totals_handOn _ _
  | phaseStarted => exact totals_handOn _ _
  | _ => exact ⟨rfl, rfl⟩

theorem Accounts.call (accounts : context.Accounts pathIdentity) (now : Nat)
    (call : Call Identity) (small : context.totalBytesProcessed + call.bytes < 2 ^ 64)
    (few : context.totalEntriesProcessed + call.entries < 2 ^ 64) :
    (context.call pathIdentity now call).Accounts pathIdentity := by
  cases call with
  | entryStarted path bytes =>
    exact Owes.emit accounts (.entryStarted path bytes) id rfl rfl fun _ => rfl
  | entryFinished path bytes => exact accounts.entryFinished path bytes now small few
  | warning message => exact Owes.emit accounts (.warning message) id rfl rfl fun _ => rfl
  | bytesProcessed path bytes => exact accounts.bytesProcessed path now small few
  | phaseStarted phase totalBytes =>
    have flushed := Owes.phases (accounts.flushProgress now)
    exact Owes.emit (flushed _) (.phaseStarted phase totalBytes) id rfl rfl fun _ => rfl
  | phaseBytes phase path recentPaths identities bytes totalBytes truncated =>
    exact Owes.emit (Owes.phases accounts _) (.phaseBytesProcessed phase path recentPaths
      identities bytes _ totalBytes truncated) id rfl rfl fun _ => rfl
  | flushProgress => exact accounts.flushProgress now

theorem Accounts.run (accounts : context.Accounts pathIdentity) {calls : Timed Identity}
    (small : context.totalBytesProcessed + recordedBytes calls < 2 ^ 64)
    (few : context.totalEntriesProcessed + recordedEntries calls < 2 ^ 64) :
    (context.run pathIdentity calls).Accounts pathIdentity ∧
      (context.run pathIdentity calls).totalBytesProcessed =
        context.totalBytesProcessed + recordedBytes calls ∧
      (context.run pathIdentity calls).totalEntriesProcessed =
        context.totalEntriesProcessed + recordedEntries calls := by
  induction calls generalizing context with
  | nil => exact ⟨accounts, rfl, rfl⟩
  | cons timed rest ih =>
    obtain ⟨call, now⟩ := timed
    have bytes : recordedBytes ((call, now) :: rest) = call.bytes + recordedBytes rest := by
      simp [recordedBytes]
    have entries : recordedEntries ((call, now) :: rest) = call.entries + recordedEntries rest := by
      simp [recordedEntries]
    rw [bytes] at small
    rw [entries] at few
    obtain ⟨total, totalEntries⟩ := totals_call pathIdentity context now call (by omega)
      (by omega)
    have one := accounts.call now call (by omega) (by omega)
    obtain ⟨all, allBytes, allEntries⟩ := ih one (by omega) (by omega)
    exact ⟨all, by rw [bytes]; exact allBytes.trans (by omega),
      by rw [entries]; exact allEntries.trans (by omega)⟩

theorem accounts_new (totalBytes : Option Nat) (now : Nat) :
    (newWithProgressTotal totalBytes now).Accounts pathIdentity :=
  ⟨rfl, rfl, rfl, rfl, rfl, Window.empty⟩

/-- A consumer has all bytes behind a flush. -/
theorem Accounts.flushed (accounts : context.Accounts pathIdentity) (now : Nat) :
    (after pathIdentity (context.flushProgress now).events).processedBytes =
      context.totalBytesProcessed := by
  have flushed := accounts.flushProgress now
  have pending : (context.flushProgress now).progress.pendingBytes = 0 := by
    have none_ := (pending_flushAt context.progress now).1
    unfold JobContext.flushProgress JobContext.handOn
    split <;> exact none_
  have bytes := flushed.bytes
  rw [pending] at bytes
  exact (flushed.processedBytes.trans bytes).trans (totals_handOn context _).1

end JobContext

/-- What a run of calls has put out, is holding back and makes a consumer believe. -/
structure Accounted (pathIdentity : Text → Identity) (context : JobContext Identity)
    (calls : Timed Identity) : Prop where
  bytes : emittedBytes context.events + context.progress.pendingBytes = recordedBytes calls
  entries : emittedEntries context.events + context.progress.pendingEntries =
    recordedEntries calls
  processedEntries : (JobProgressState.after pathIdentity context.events).processedEntries =
    recordedEntries calls
  /-- After a flush the consumer has all bytes. -/
  flushed : ∀ now, (JobProgressState.after pathIdentity
    (context.flushProgress now).events).processedBytes = recordedBytes calls
  window : context.progress.HasWindow

/-- What a consumer can rely on, whatever the events are. -/
structure Reliable (pathIdentity : Text → Identity) : Prop where
  monotone : ∀ (events : List (JobEvent Identity)) (event : JobEvent Identity),
    (JobProgressState.after pathIdentity events).processedBytes ≤
      (JobProgressState.after pathIdentity (events ++ [event])).processedBytes
  window : ∀ events : List (JobEvent Identity),
    (JobProgressState.after pathIdentity events).HasWindow
  /-- Nothing changes behind a terminal event. -/
  terminal : ∀ (events rest : List (JobEvent Identity)) (event : JobEvent Identity),
    event.IsTerminal → JobProgressState.after pathIdentity (events ++ event :: rest) =
      JobProgressState.after pathIdentity (events ++ [event])

theorem reliable : Reliable pathIdentity where
  monotone events event := by
    rw [JobProgressState.after_concat]
    exact JobProgressState.processedBytes_le_apply ..
  window := JobProgressState.hasWindow_after pathIdentity
  terminal events rest event terminal := by
    have ended := JobProgressState.outcome_of_terminal pathIdentity
      (JobProgressState.after pathIdentity events) terminal
    rw [JobProgressState.after_concat, List.append_cons]
    unfold JobProgressState.after
    rw [List.foldl_append, List.foldl_append]
    exact JobProgressState.foldl_of_outcome pathIdentity ended rest

/-- **Progress accounting loses nothing**, after every prefix of the calls and at any times. -/
theorem progress_accounts (totalBytes : Option Nat) (start : Nat) {calls : Timed Identity}
    (small : recordedBytes calls < 2 ^ 64) (few : recordedEntries calls < 2 ^ 64) :
    (∀ done, done <+: calls → Accounted pathIdentity
      ((JobContext.newWithProgressTotal totalBytes start).run pathIdentity done) done) ∧
    Reliable pathIdentity := by
  refine ⟨?_, reliable pathIdentity⟩
  rintro done ⟨rest, rfl⟩
  have bytes : recordedBytes (done ++ rest) = recordedBytes done + recordedBytes rest := by
    simp [recordedBytes]
  have entries : recordedEntries (done ++ rest) = recordedEntries done + recordedEntries rest := by
    simp [recordedEntries]
  obtain ⟨accounts, total, totalEntries⟩ := JobContext.Accounts.run
    (@JobContext.accounts_new _ _ pathIdentity totalBytes start)
    (show 0 + recordedBytes done < _ by omega) (show 0 + recordedEntries done < _ by omega)
  have total := total.trans (Nat.zero_add _)
  have totalEntries := totalEntries.trans (Nat.zero_add _)
  exact ⟨accounts.bytes.trans total, accounts.entries.trans totalEntries,
    accounts.processedEntries.trans totalEntries, fun now => (accounts.flushed now).trans total,
    accounts.window⟩

/-- An entry of three bytes with the clock standing still. -/
theorem progress_accounts_entry :
    (∀ done, done <+: ([(.entryStarted ['a'] (some 3), 0), (.bytesProcessed (some ['a']) 3, 0),
        (.entryFinished ['a'] 3, 0)] : Timed Text) →
      Accounted id ((JobContext.newWithProgressTotal (some 3) 0).run id done) done) ∧
    Reliable (id : Text → Text) :=
  progress_accounts id (some 3) 0 (by decide) (by decide)

end

end Jobs

end ZManager
