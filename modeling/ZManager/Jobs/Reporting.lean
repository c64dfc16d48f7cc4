import ZManager.Jobs.Extraction

/-! # Who reports all progress

TAR sessions and batches flush their job contexts, so that the last batch tells what was written.
ZIP sessions do not: there it depends on the last entry making a batch of its own.
-/

namespace ZManager

namespace Jobs

variable {Identity Error : Type}

/-- Whether an entry is announced. -/
def JobEvent.isStart : JobEvent Identity → Bool
  | .entryStarted .. => true
  | _ => false

/-- The number of entries that an operation started. -/
def startedEntries (events : List (JobEvent Identity)) : Nat := events.countP JobEvent.isStart

/-- The calls for the chunks of a file. -/
def chunkCalls (path : Text) (chunks : List (Nat × Nat)) : Timed Identity :=
  chunks.map fun chunk => (.bytesProcessed (some path) chunk.1, chunk.2)

/-- The calls that a visit makes. -/
def Visit.calls (Identity : Type) (visit : Visit Error) : Timed Identity :=
  let path := visit.member.path
  let started : Call Identity × Nat := (.entryStarted path (some visit.member.size), 0)
  match visit.treatment with
  | .unselected => []
  | .rootDirectory => [(.warning "skipped archive root directory entry".toList, 0)]
  | .rejected _ => []
  | .skipped reason =>
    [started, (.warning ("skipped ".toList ++ path ++ ": ".toList ++ reason), 0),
      (.entryFinished path 0, visit.finished)]
  | .unsupported warning =>
    [started, (.warning warning, 0), (.entryFinished path 0, visit.finished)]
  | .made => [started, (.entryFinished path 0, visit.finished)]
  | .file chunks =>
    started :: chunkCalls path chunks ++
      [(.entryFinished path (chunkBytes chunks), visit.finished)]
  | .failed chunks _ => started :: chunkCalls path chunks

/-- The calls of visits one after the other. -/
def callsOf (Identity : Type) (visits : List (Visit Error)) : Timed Identity :=
  visits.flatMap (Visit.calls Identity)

/-- Starts among calls. -/
def startsIn (calls : Timed Identity) : Nat :=
  calls.countP fun timed => match timed.1 with
    | .entryStarted .. => true
    | _ => false

theorem recordedBytes_append (calls more : Timed Identity) :
    recordedBytes (calls ++ more) = recordedBytes calls + recordedBytes more := by
  simp [recordedBytes]

theorem recordedEntries_append (calls more : Timed Identity) :
    recordedEntries (calls ++ more) = recordedEntries calls + recordedEntries more := by
  simp [recordedEntries]

theorem startsIn_append (calls more : Timed Identity) :
    startsIn (calls ++ more) = startsIn calls + startsIn more :=
  List.countP_append

theorem activities_append (calls more : Timed Identity) :
    activities (calls ++ more) = activities calls ++ activities more :=
  List.filterMap_append

/-- Calls of whole visits: what is started is finished, and an entry's end is the last activity. -/
structure Whole (calls : Timed Identity) : Prop where
  starts : startsIn calls = recordedEntries calls
  records : ∀ timed ∈ calls, timed.1.Records
  ended : ∀ activity ∈ (activities calls).getLast?, activity.entries = 1

theorem Whole.append {calls more : Timed Identity} (whole : Whole calls) (next : Whole more) :
    Whole (calls ++ more) where
  starts := by rw [startsIn_append, recordedEntries_append, whole.starts, next.starts]
  records timed member :=
    (List.mem_append.mp member).elim (whole.records timed) (next.records timed)
  ended activity last := by
    rw [activities_append, List.getLast?_append] at last
    cases tail : (activities more).getLast? with
    | none =>
      rw [tail, Option.none_or] at last
      exact whole.ended activity last
    | some other =>
      rw [tail, Option.some_or] at last
      exact Option.some.inj last ▸ next.ended other tail

/-- Calls without an activity and without a start. -/
theorem Whole.silent (message : Text) :
    Whole ([(.warning message, 0)] : Timed Identity) where
  starts := rfl
  records := by
    intro timed member
    rw [List.mem_singleton.mp member]
    trivial
  ended _ last := nomatch last

theorem Whole.nil : Whole ([] : Timed Identity) where
  starts := rfl
  records _ member := nomatch member
  ended _ last := nomatch last

/-- An entry from its start over calls in between to its end. -/
theorem Whole.entry (path : Text) (size bytes finished : Nat) (between : Timed Identity)
    (starts : startsIn between = 0) (entries : recordedEntries between = 0)
    (records : ∀ timed ∈ between, timed.1.Records) :
    Whole ((.entryStarted path (some size), 0) :: between ++
      [(.entryFinished path bytes, finished)]) where
  starts := by
    rw [List.cons_append, ← List.singleton_append, startsIn_append, startsIn_append,
      recordedEntries_append, recordedEntries_append, starts, entries]
    rfl
  records timed member := by
    rcases List.mem_append.mp member with front | last
    · rcases List.mem_cons.mp front with rfl | inside
      · trivial
      · exact records timed inside
    · rw [List.mem_singleton.mp last]
      trivial
  ended activity last := by
    rw [activities_append] at last
    rw [show activities [((.entryFinished path bytes : Call Identity), finished)] =
      [⟨0, 1, finished⟩] from rfl, List.getLast?_concat] at last
    exact Option.some.inj last ▸ rfl

theorem recordedBytes_chunkCalls (path : Text) (chunks : List (Nat × Nat)) :
    recordedBytes (chunkCalls path chunks : Timed Identity) = chunkBytes chunks := by
  induction chunks with
  | nil => rfl
  | cons chunk chunks ih => exact congrArg (chunk.1 + ·) ih

theorem chunkCalls_between (path : Text) (chunks : List (Nat × Nat)) :
    startsIn (chunkCalls path chunks : Timed Identity) = 0 ∧
      recordedEntries (chunkCalls path chunks : Timed Identity) = 0 ∧
      ∀ timed ∈ (chunkCalls path chunks : Timed Identity), timed.1.Records := by
  induction chunks with
  | nil => exact ⟨rfl, rfl, fun _ member => nomatch member⟩
  | cons chunk chunks ih =>
    obtain ⟨starts, entries, records⟩ := ih
    refine ⟨starts, (Nat.zero_add _).trans entries, fun timed member => ?_⟩
    rcases List.mem_cons.mp member with rfl | rest
    · trivial
    · exact records timed rest

section

variable [DecidableEq Identity] {pathIdentity : Text → Identity}

variable {report out : ExtractReport} {context after : JobContext Identity}
  {visits : List (Visit Error)} {world : World Error} {calls : Timed Identity}
  {session : ZipReadSession} {operation : Operation} {batch : List (OneExtraction Identity Error)}

theorem JobContext.run_append (context : JobContext Identity) (calls more : Timed Identity) :
    context.run pathIdentity (calls ++ more) =
      (context.run pathIdentity calls).run pathIdentity more :=
  List.foldl_append

theorem copyFileEntry_eq_run (context : JobContext Identity) (path : Text)
    (chunks : List (Nat × Nat)) :
    copyFileEntry pathIdentity context path chunks =
      context.run pathIdentity (chunkCalls path chunks) := by
  induction chunks generalizing context with
  | nil => rfl
  | cons chunk chunks ih => exact ih _

/-- A visit that succeeds makes its calls. -/
theorem processExtractionEntry_ok {visit : Visit Error}
    (done : processExtractionEntry pathIdentity report context visit = (.ok out, after)) :
    after = context.run pathIdentity (visit.calls Identity) ∧
      out.writtenBytes = report.writtenBytes + recordedBytes (visit.calls Identity) ∧
      Whole (visit.calls Identity) := by
  unfold processExtractionEntry at done
  unfold Visit.calls
  cases kind : visit.treatment with
  | unselected =>
    rw [kind] at done
    cases done
    exact ⟨rfl, rfl, .nil⟩
  | rootDirectory =>
    rw [kind] at done
    cases done
    exact ⟨rfl, rfl, .silent _⟩
  | rejected error =>
    rw [kind] at done
    cases done
  | skipped reason =>
    rw [kind] at done
    cases done
    exact ⟨rfl, rfl, .entry _ _ _ _ [(.warning _, 0)] rfl rfl (Whole.silent _).records⟩
  | unsupported warning =>
    rw [kind] at done
    cases done
    exact ⟨rfl, rfl, .entry _ _ _ _ [(.warning _, 0)] rfl rfl (Whole.silent _).records⟩
  | made =>
    rw [kind] at done
    cases done
    exact ⟨rfl, rfl, .entry _ _ _ _ [] rfl rfl Whole.nil.records⟩
  | file chunks =>
    rw [kind] at done
    cases done
    obtain ⟨starts, entries, records⟩ := @chunkCalls_between Identity visit.member.path
      chunks
    refine ⟨?_, ?_, .entry _ _ _ _ _ starts entries records⟩
    · rw [JobContext.run_append, copyFileEntry_eq_run]
      rfl
    · rw [recordedBytes_append, ← List.singleton_append, recordedBytes_append,
        recordedBytes_chunkCalls]
      exact congrArg (report.writtenBytes + ·) (Nat.zero_add _).symm
  | failed chunks error =>
    rw [kind] at done
    cases done

/-- A loop that succeeds makes the calls of its visits. -/
theorem extractLoop_ok (done : extractLoop pathIdentity report context visits = (.ok out, after)) :
    after = context.run pathIdentity (callsOf Identity visits) ∧
      out.writtenBytes = report.writtenBytes + recordedBytes (callsOf Identity visits) ∧
      Whole (callsOf Identity visits) := by
  induction visits generalizing report context with
  | nil =>
    cases done
    exact ⟨rfl, rfl, .nil⟩
  | cons visit rest ih =>
    rw [extractLoop] at done
    cases processed : processExtractionEntry pathIdentity report context visit with
    | mk result middle =>
      rw [processed] at done
      cases result with
      | error error => cases done
      | ok between =>
        obtain ⟨first, bytes, whole⟩ := processExtractionEntry_ok processed
        obtain ⟨last, moreBytes, wholeRest⟩ := ih done
        have calls : callsOf Identity (visit :: rest) =
            visit.calls Identity ++ callsOf Identity rest := rfl
        rw [calls]
        refine ⟨?_, ?_, whole.append wholeRest⟩
        · rw [JobContext.run_append, last, first]
        · rw [recordedBytes_append, moreBytes, bytes, Nat.add_assoc]

theorem surround_ok (done : world.surround pathIdentity context visits = (.ok report, after)) :
    extractLoop pathIdentity {} context visits = (.ok report, after) := by
  unfold World.surround at done
  split at done
  · cases done
  · split at done
    · cases done
    · exact done

omit [DecidableEq Identity] in
theorem startedEntries_emit (context : JobContext Identity) (event : JobEvent Identity) :
    startedEntries (context.emit event).events =
      startedEntries context.events + if event.isStart then 1 else 0 := by
  show startedEntries (context.events ++ [event]) = _
  unfold startedEntries
  rw [List.countP_append, List.countP_singleton]

omit [DecidableEq Identity] in
/-- Batches start nothing. -/
theorem startedEntries_handOn (context : JobContext Identity)
    (result : Option (ProgressBatch Identity) × ProgressCoalescer Identity) :
    startedEntries (context.handOn result).events = startedEntries context.events := by
  obtain ⟨batch, progress⟩ := result
  cases batch with
  | none => rfl
  | some batch => exact startedEntries_emit { context with progress := progress } _

/-- Calls start as many entries as the events show. -/
theorem startedEntries_run (context : JobContext Identity) (calls : Timed Identity) :
    startedEntries (context.run pathIdentity calls).events =
      startedEntries context.events + startsIn calls := by
  induction calls generalizing context with
  | nil => rfl
  | cons timed rest ih =>
    obtain ⟨call, now⟩ := timed
    have one : startedEntries (context.call pathIdentity now call).events =
        startedEntries context.events + startsIn [(call, now)] := by
      cases call with
      | bytesProcessed path bytes => exact startedEntries_handOn ..
      | entryFinished path bytes =>
        exact (startedEntries_handOn ..).trans (startedEntries_emit ..)
      | flushProgress => exact startedEntries_handOn ..
      | phaseStarted phase totalBytes =>
        have flushed : startedEntries (context.flushProgress now).events =
            startedEntries context.events := startedEntries_handOn ..
        exact (startedEntries_emit ..).trans flushed
      | _ => exact startedEntries_emit ..
    rw [← List.singleton_append, startsIn_append, ← Nat.add_assoc, ← one]
    exact ih _

/-! ## One job context -/

/-- The counters hold everything that is recorded. -/
def Fits (calls : Timed Identity) : Prop :=
  recordedBytes calls < 2 ^ 64 ∧ recordedEntries calls < 2 ^ 64

/-- A context with its calls behind it. -/
abbrev ranAt (pathIdentity : Text → Identity) (start : Nat) (calls : Timed Identity) :
    JobContext Identity :=
  (JobContext.newWithProgressTotal none start).run pathIdentity calls

omit [DecidableEq Identity] in
/-- What is told fits the counters. -/
theorem fits_of_told (ascends : context.Ascends) {totals : Totals}
    (told : lastTotals context.events = some totals) :
    totals.bytes < 2 ^ 64 ∧ totals.entries < 2 ^ 64 := by
  obtain ⟨bytes, entries⟩ :=
    (ascends.reached totals (List.mem_of_getLast? told)).trans ascends.fits
  exact ⟨Nat.lt_of_le_of_lt bytes (by decide), Nat.lt_of_le_of_lt entries (by decide)⟩

theorem accounted {calls : Timed Identity} (fits : Fits calls) (start : Nat) :
    (ranAt pathIdentity start calls).Accounts pathIdentity ∧
      (ranAt pathIdentity start calls).Tells ∧
      (ranAt pathIdentity start calls).totals = ⟨recordedBytes calls, recordedEntries calls⟩ := by
  obtain ⟨small, few⟩ := fits
  have new := @JobContext.accounts_new Identity _ pathIdentity none start
  have small : 0 + recordedBytes calls < 2 ^ 64 := by omega
  have few : 0 + recordedEntries calls < 2 ^ 64 := by omega
  obtain ⟨accounts, bytes, entries⟩ := new.run small few
  have silent : (JobContext.newWithProgressTotal none start : JobContext Identity).Tells := rfl
  refine ⟨accounts, silent.run pathIdentity new small few, ?_⟩
  exact congrArg₂ Totals.mk (bytes.trans (Nat.zero_add _)) (entries.trans (Nat.zero_add _))

/-- With nothing pending the last batch tells everything. -/
theorem told_of_nothing_pending (accounts : context.Accounts pathIdentity) (tells : context.Tells)
    (noBytes : context.progress.pendingBytes = 0)
    (noEntries : context.progress.pendingEntries = 0) :
    (lastTotals context.events).getD ⟨0, 0⟩ = context.totals := by
  have bytes := accounts.bytes
  have entries := accounts.entries
  rw [noBytes] at bytes
  rw [noEntries] at entries
  exact tells.trans (congrArg₂ Totals.mk bytes entries)

/-- Something is told where there is something to tell. -/
theorem some_of_told {told : Option Totals} {totals : Totals} (equal : told.getD ⟨0, 0⟩ = totals)
    (some_ : totals.entries ≠ 0) : told = some totals := by
  cases told with
  | none => exact absurd (congrArg Totals.entries equal).symm some_
  | some other => exact congrArg some equal

/-- **Without a flush** the last batch tells everything iff no activity is held back. -/
theorem told_iff (whole : Whole calls) (some_ : startsIn calls ≠ 0) (start : Nat) :
    lastTotals (ranAt pathIdentity start calls).events =
        some ⟨recordedBytes calls, startsIn calls⟩ ↔
      Fits calls ∧ (Held.after (activities calls)).kept = [] := by
  rw [whole.starts] at some_ ⊢
  have holds : Fits calls → (ranAt pathIdentity start calls).progress.Holds
      (Held.after (activities calls)) := by
    rintro ⟨small, few⟩
    exact JobContext.holds_run pathIdentity (ProgressCoalescer.holds_new start)
      (JobContext.accounts_new none start) whole.records (show 0 + recordedBytes calls < _ by omega)
      (show 0 + recordedEntries calls < _ by omega)
  constructor
  · intro told
    have fits : Fits calls := fits_of_told
      ((JobContext.ascends_new none start).run pathIdentity calls) told
    obtain ⟨accounts, tells, totals⟩ := @accounted _ _ pathIdentity _ fits start
    refine ⟨fits, ?_⟩
    have emitted : emittedEntries (ranAt pathIdentity start calls).events =
        recordedEntries calls := by
      unfold JobContext.Tells at tells
      rw [told] at tells
      exact (congrArg Totals.entries tells).symm
    have pending := accounts.entries
    rw [show (ranAt pathIdentity start calls).totalEntriesProcessed = recordedEntries calls from
      congrArg Totals.entries totals, emitted, (holds fits).entries] at pending
    have nothing : Held.entries (Held.after (activities calls)).kept = 0 := by omega
    -- an activity that is held back would be the end of an entry
    obtain none_ | ⟨front, last, equal⟩ :=
      List.eq_nil_or_concat (Held.after (activities calls)).kept
    · exact none_
    · obtain ⟨done, all⟩ := Held.kept_suffix (activities calls)
      have end_ : (activities calls).getLast? = some last := by
        rw [← all, equal, List.concat_eq_append, ← List.append_assoc, List.getLast?_concat]
      have one := whole.ended last end_
      rw [equal] at nothing
      simp [Held.entries, one] at nothing
  · rintro ⟨fits, kept⟩
    obtain ⟨accounts, tells, totals⟩ := @accounted _ _ pathIdentity _ fits start
    have noBytes := (holds fits).bytes
    have noEntries := (holds fits).entries
    rw [kept] at noBytes noEntries
    exact some_of_told ((told_of_nothing_pending accounts tells noBytes noEntries).trans totals)
      some_

/-- A flushed context tells what was recorded. -/
theorem told_flushed (fits : Fits calls) (start finish : Nat) :
    (lastTotals ((ranAt pathIdentity start calls).flushProgress finish).events).getD ⟨0, 0⟩ =
      ⟨recordedBytes calls, recordedEntries calls⟩ := by
  obtain ⟨accounts, tells, totals⟩ := @accounted _ _ pathIdentity _ fits start
  have flushed := accounts.flushProgress finish
  obtain ⟨bytes, entries⟩ := JobContext.totals_handOn (ranAt pathIdentity start calls)
    ((ranAt pathIdentity start calls).progress.flushAt finish)
  obtain ⟨noBytes, noEntries⟩ := ProgressCoalescer.pending_flushAt
    (ranAt pathIdentity start calls).progress finish
  rw [← JobContext.progress_handOn (ranAt pathIdentity start calls)
    ((ranAt pathIdentity start calls).progress.flushAt finish)] at noBytes noEntries
  have told := told_of_nothing_pending flushed (tells.flushProgress pathIdentity flushed) noBytes
    noEntries
  exact told.trans ((congrArg₂ Totals.mk bytes entries).trans totals)

/-- **With a flush** it does whenever the counters hold it. -/
theorem told_flushed_iff (some_ : recordedEntries calls ≠ 0) (start finish : Nat) :
    lastTotals ((ranAt pathIdentity start calls).flushProgress finish).events =
        some ⟨recordedBytes calls, recordedEntries calls⟩ ↔ Fits calls := by
  constructor
  · intro told
    have ascends : ((ranAt pathIdentity start calls).flushProgress finish).Ascends :=
      ((JobContext.ascends_new none start).run pathIdentity calls).handOn _
    exact fits_of_told ascends told
  · intro fits
    exact some_of_told (told_flushed fits start finish) some_

/-! ## Operations -/

/-- The caller's sink has been told what the operation wrote and started. -/
def ReportsAll (outcome : Outcome Identity Error) : Prop :=
  ∃ report, outcome.1 = .ok report ∧
    lastTotals outcome.2 = some ⟨report.writtenBytes, startedEntries outcome.2⟩

omit [DecidableEq Identity] in
theorem reportsAll_iff {outcome : Outcome Identity Error} (succeeded : outcome.1 = .ok report)
    (written : report.writtenBytes = recordedBytes calls)
    (started : startedEntries outcome.2 = startsIn calls) :
    ReportsAll outcome ↔
      lastTotals outcome.2 = some ⟨recordedBytes calls, startsIn calls⟩ := by
  unfold ReportsAll
  rw [succeeded, started]
  constructor
  · rintro ⟨same, equal, told⟩
    rw [← written, Except.ok.inj equal]
    exact told
  · intro told
    exact ⟨report, rfl, written ▸ told⟩

/-- The entries that an operation visits, with what they meet. -/
def ZipReadSession.visited (session : ZipReadSession) (operation : Operation)
    (world : World Error) : List (Visit Error) :=
  match @ZipReadSession.selectedIndices Error session operation with
  | .error _ => []
  | .ok selected => session.visits selected world

def TarReadSession.visited (session : TarReadSession) (operation : Operation)
    (world : World Error) : List (Visit Error) :=
  match @TarReadSession.selection Error session operation with
  | .error _ => []
  | .ok selection => session.visits selection world

omit [DecidableEq Identity] in
theorem mapError_ok {Failure Other Value : Type} {result : Except Failure Value}
    {rename : Failure → Other} {value : Value} (done : result.mapError rename = .ok value) :
    result = .ok value := by
  cases result with
  | error failure => cases done
  | ok other =>
    cases done
    rfl

/-- A ZIP operation that succeeds has run its visits. -/
theorem ZipReadSession.run_ok {notFound : Error}
    (succeeded : (session.run pathIdentity notFound operation world).1 = .ok report) :
    ∃ after : JobContext Identity,
      extractLoop pathIdentity {} (.newWithProgressTotal none world.start)
        (session.visited operation world) = (.ok report, after) ∧
      (session.run pathIdentity notFound operation world).2 = after.events := by
  unfold ZipReadSession.run at succeeded ⊢
  unfold ZipReadSession.visited
  cases selection : @ZipReadSession.selectedIndices Error session operation with
  | error error =>
    rw [selection] at succeeded
    cases succeeded
  | ok selected =>
    rw [selection] at succeeded
    dsimp only at succeeded ⊢
    unfold ZipReadSession.extractZipArchive at succeeded ⊢
    split at succeeded
    · cases succeeded
    · rw [if_neg ‹_›]
      have done := mapError_ok succeeded
      exact ⟨_, surround_ok (Prod.ext done rfl), rfl⟩

/-- A TAR operation that succeeds has run its visits and flushed. -/
theorem TarReadSession.run_ok {session : TarReadSession}
    (succeeded : (session.run pathIdentity operation world).1 = .ok report) :
    ∃ after : JobContext Identity,
      extractLoop pathIdentity {} (.newWithProgressTotal none world.start)
        (session.visited operation world) = (.ok report, after) ∧
      (session.run pathIdentity operation world).2 =
        (after.flushProgress world.finish).events := by
  unfold TarReadSession.run at succeeded ⊢
  unfold TarReadSession.visited
  cases selection : @TarReadSession.selection Error session operation with
  | error error =>
    rw [selection] at succeeded
    cases succeeded
  | ok selected =>
    rw [selection] at succeeded
    have done := mapError_ok succeeded
    exact ⟨_, surround_ok (Prod.ext done rfl), rfl⟩

theorem ZipReadSession.reportsAll_iff {notFound : Error}
    (succeeded : (session.run pathIdentity notFound operation world).1 = .ok report)
    (processed : startedEntries (session.run pathIdentity notFound operation world).2 ≠ 0) :
    ReportsAll (session.run pathIdentity notFound operation world) ↔
      Fits (callsOf Identity (session.visited operation world)) ∧
        (Held.after (activities (callsOf Identity (session.visited operation world)))).kept =
          [] := by
  obtain ⟨after, looped, events⟩ := ZipReadSession.run_ok succeeded
  obtain ⟨ran, written, whole⟩ := extractLoop_ok looped
  have started := @startedEntries_run _ _ pathIdentity
    (JobContext.newWithProgressTotal none world.start)
    (callsOf Identity (session.visited operation world))
  rw [← ran, ← events] at started
  have started := started.trans (Nat.zero_add _)
  rw [Jobs.reportsAll_iff succeeded (written.trans (Nat.zero_add _)) started, events, ran]
  exact told_iff whole (started ▸ processed) world.start

theorem TarReadSession.reportsAll_iff {session : TarReadSession}
    (succeeded : (session.run pathIdentity operation world).1 = .ok report)
    (processed : startedEntries (session.run pathIdentity operation world).2 ≠ 0) :
    ReportsAll (session.run pathIdentity operation world) ↔
      Fits (callsOf Identity (session.visited operation world)) := by
  obtain ⟨after, looped, events⟩ := TarReadSession.run_ok succeeded
  obtain ⟨ran, written, whole⟩ := extractLoop_ok looped
  have started := @startedEntries_run _ _ pathIdentity
    (JobContext.newWithProgressTotal none world.start)
    (callsOf Identity (session.visited operation world))
  rw [← ran, ← startedEntries_handOn after (after.progress.flushAt world.finish)] at started
  have started : startedEntries (session.run pathIdentity operation world).2 =
      startsIn (callsOf Identity (session.visited operation world)) :=
    (congrArg startedEntries events).trans (started.trans (Nat.zero_add _))
  rw [Jobs.reportsAll_iff succeeded (written.trans (Nat.zero_add _)) started, events, ran,
    whole.starts]
  exact told_flushed_iff (whole.starts ▸ started ▸ processed) world.start world.finish

/-! ## Batches -/

namespace BatchProgressSink

variable {sink : BatchProgressSink Identity}

variable {events : List (JobEvent Identity)} {after : BatchProgressSink Identity}

def finished (sink : BatchProgressSink Identity) : Totals :=
  ⟨sink.finishedBytes, sink.finishedEntries⟩

def current (sink : BatchProgressSink Identity) : Totals :=
  ⟨sink.currentBytes, sink.currentEntries⟩

/-- Totals with those of the finished entries. -/
def raise (sink : BatchProgressSink Identity) (totals : Totals) : Totals :=
  ⟨saturatingAdd totals.bytes sink.finishedBytes, saturatingAdd totals.entries sink.finishedEntries⟩

/-- What a sink tells of the events of one job context. -/
structure Forwards (before after : BatchProgressSink Identity)
    (events : List (JobEvent Identity)) : Prop where
  told : toldTotals after.inner = toldTotals before.inner ++ (toldTotals events).map before.raise
  finished : after.finished = before.finished
  current : after.current = (lastTotals events).getD before.current

omit [DecidableEq Identity] in
theorem forwards_emit (sink : BatchProgressSink Identity) (event : JobEvent Identity) :
    sink.Forwards (sink.emit event) [event] := by
  cases event with
  | bytesProcessed => exact ⟨toldTotals_append _ _, rfl, rfl⟩
  | _ => exact ⟨toldTotals_append _ _, rfl, rfl⟩

omit [DecidableEq Identity] in
theorem Forwards.trans {one two three : BatchProgressSink Identity}
    {more : List (JobEvent Identity)} (first : one.Forwards two events)
    (second : two.Forwards three more) : one.Forwards three (events ++ more) where
  told := by
    have same : two.raise = one.raise := by
      funext totals
      unfold raise
      rw [show two.finishedBytes = one.finishedBytes from congrArg Totals.bytes first.finished,
        show two.finishedEntries = one.finishedEntries from congrArg Totals.entries first.finished]
    rw [second.told, first.told, same, toldTotals_append, List.map_append, List.append_assoc]
  finished := second.finished.trans first.finished
  current := by
    rw [second.current, first.current]
    unfold lastTotals
    rw [toldTotals_append, List.getLast?_append]
    cases (toldTotals more).getLast? <;> rfl

omit [DecidableEq Identity] in
theorem forwards_foldl (sink : BatchProgressSink Identity) (events : List (JobEvent Identity)) :
    sink.Forwards (events.foldl emit sink) events := by
  induction events generalizing sink with
  | nil => exact ⟨(List.append_nil _).symm, rfl, rfl⟩
  | cons event events ih => exact (forwards_emit sink event).trans (ih _)

/-- Between two entries: totals have gone up to those of the finished entries. -/
structure Ascends (sink : BatchProgressSink Identity) : Prop where
  told : NeverDecrease (toldTotals sink.inner)
  reached : ∀ totals ∈ toldTotals sink.inner, totals.Le sink.finished
  fits : sink.finished.Le ⟨2 ^ 64 - 1, 2 ^ 64 - 1⟩
  idle : sink.current = ⟨0, 0⟩

omit [DecidableEq Identity] in
theorem raise_mono (sink : BatchProgressSink Identity) {one two : Totals} (less : one.Le two) :
    (sink.raise one).Le (sink.raise two) := by
  obtain ⟨bytes, entries⟩ := less
  unfold raise saturatingAdd
  constructor
  · show min _ _ ≤ min _ _
    omega
  · show min _ _ ≤ min _ _
    omega

omit [DecidableEq Identity] in
theorem finished_le_raise (fits : sink.finished.Le ⟨2 ^ 64 - 1, 2 ^ 64 - 1⟩) (totals : Totals) :
    sink.finished.Le (sink.raise totals) := by
  have bytes : sink.finishedBytes ≤ 2 ^ 64 - 1 := fits.1
  have entries : sink.finishedEntries ≤ 2 ^ 64 - 1 := fits.2
  unfold raise saturatingAdd
  constructor
  · show sink.finishedBytes ≤ min _ _
    omega
  · show sink.finishedEntries ≤ min _ _
    omega

omit [DecidableEq Identity] in
/-- A finished entry adds its last totals. -/
theorem finished_finishEntry (after : BatchProgressSink Identity)
    (same : after.finished = sink.finished) :
    after.finishEntry.finished = sink.raise after.current := by
  unfold raise
  rw [show sink.finishedBytes = after.finishedBytes from (congrArg Totals.bytes same).symm,
    show sink.finishedEntries = after.finishedEntries from (congrArg Totals.entries same).symm]
  unfold saturatingAdd
  rw [Nat.add_comm after.current.bytes, Nat.add_comm after.current.entries]
  rfl

omit [DecidableEq Identity] in
/-- The last totals are the greatest. -/
theorem le_lastTotals (told : NeverDecrease (toldTotals events)) (otherwise : Totals)
    {totals : Totals} (member : totals ∈ toldTotals events) :
    totals.Le ((lastTotals events).getD otherwise) := by
  cases last : lastTotals events with
  | none =>
    rw [List.getLast?_eq_none_iff.mp last] at member
    exact (List.not_mem_nil member).elim
  | some greatest =>
    obtain ⟨front, equal⟩ := List.getLast?_eq_some_iff.mp last
    unfold NeverDecrease at told
    rw [equal] at told member
    rcases List.mem_append.mp member with earlier | same
    · exact (List.pairwise_append.mp told).2.2 totals earlier greatest (.head _)
    · rw [List.mem_singleton.mp same]
      exact Totals.Le.refl _

omit [DecidableEq Identity] in
/-- One more entry, whose own totals never decrease. -/
theorem Ascends.finishEntry (ascends : sink.Ascends) (forwards : sink.Forwards after events)
    (told : NeverDecrease (toldTotals events)) : after.finishEntry.Ascends := by
  have finish := finished_finishEntry after forwards.finished
  have inner : toldTotals after.finishEntry.inner =
      toldTotals sink.inner ++ (toldTotals events).map sink.raise := forwards.told
  refine ⟨?_, ?_, ?_, rfl⟩
  · rw [inner]
    refine List.pairwise_append.mpr ⟨ascends.told, ?_, ?_⟩
    · exact List.pairwise_map.mpr (told.imp fun less => raise_mono sink less)
    · intro totals member raised found
      obtain ⟨own, -, rfl⟩ := List.mem_map.mp found
      exact (ascends.reached totals member).trans (finished_le_raise ascends.fits own)
  · rw [inner, finish]
    intro totals member
    rcases List.mem_append.mp member with earlier | raised
    · exact (ascends.reached totals earlier).trans (finished_le_raise ascends.fits _)
    · obtain ⟨own, found, rfl⟩ := List.mem_map.mp raised
      rw [forwards.current]
      exact raise_mono sink (le_lastTotals told _ found)
  · rw [finish]
    exact ⟨Nat.min_le_right .., Nat.min_le_right ..⟩

omit [DecidableEq Identity] in
/-- What one entry adds. -/
theorem Ascends.finished_add (ascends : sink.Ascends) (forwards : sink.Forwards after events)
    {bytes entries : Nat} (own : (lastTotals events).getD ⟨0, 0⟩ = ⟨bytes, entries⟩)
    (small : bytes + sink.finishedBytes < 2 ^ 64) (few : entries + sink.finishedEntries < 2 ^ 64) :
    after.finishEntry.finishedBytes = bytes + sink.finishedBytes ∧
      after.finishEntry.finishedEntries = entries + sink.finishedEntries := by
  have finished := finished_finishEntry after forwards.finished
  rw [forwards.current, ascends.idle, own] at finished
  exact ⟨(congrArg Totals.bytes finished).trans (saturatingAdd_of_lt small),
    (congrArg Totals.entries finished).trans (saturatingAdd_of_lt few)⟩

omit [DecidableEq Identity] in
/-- The totals of the finished entries are what was told last. -/
theorem Ascends.told_finishEntry (ascends : sink.Ascends) (forwards : sink.Forwards after events)
    (told : (lastTotals sink.inner).getD ⟨0, 0⟩ = sink.finished) :
    (lastTotals after.finishEntry.inner).getD ⟨0, 0⟩ = after.finishEntry.finished := by
  rw [finished_finishEntry after forwards.finished, forwards.current, ascends.idle]
  have inner : toldTotals after.finishEntry.inner =
      toldTotals sink.inner ++ (toldTotals events).map sink.raise := forwards.told
  unfold lastTotals at told ⊢
  rw [inner, List.getLast?_append, List.getLast?_map]
  cases (toldTotals events).getLast? with
  | none =>
    have bytes : sink.finishedBytes ≤ 2 ^ 64 - 1 := ascends.fits.1
    have entries : sink.finishedEntries ≤ 2 ^ 64 - 1 := ascends.fits.2
    refine told.trans (congrArg₂ Totals.mk ?_ ?_)
    · show sink.finishedBytes = saturatingAdd 0 sink.finishedBytes
      rw [saturatingAdd_of_lt (by omega), Nat.zero_add]
    · show sink.finishedEntries = saturatingAdd 0 sink.finishedEntries
      rw [saturatingAdd_of_lt (by omega), Nat.zero_add]
  | some last => rfl

end BatchProgressSink

namespace OneExtraction

variable (pathIdentity)

theorem neverDecrease_run (one : OneExtraction Identity Error) :
    NeverDecrease (toldTotals (one.run pathIdentity).2) := by
  have ascends : ((ranAt pathIdentity one.start one.calls).flushProgress one.finish).Ascends :=
    ((JobContext.ascends_new none one.start).run pathIdentity one.calls).handOn _
  exact ascends.told

end OneExtraction

/-- What a batch of extractions records. -/
def batchTotals (batch : List (OneExtraction Identity Error)) : Totals :=
  ⟨(batch.map fun one => recordedBytes one.calls).sum,
    (batch.map fun one => recordedEntries one.calls).sum⟩

omit [DecidableEq Identity] in
theorem batchTotals_cons (one : OneExtraction Identity Error)
    (rest : List (OneExtraction Identity Error)) :
    batchTotals (one :: rest) =
      ⟨recordedBytes one.calls + (batchTotals rest).bytes,
        recordedEntries one.calls + (batchTotals rest).entries⟩ := by
  simp [batchTotals]

/-- What the sink has been told in the end, and that it never goes down. -/
theorem selectedExtractEach_ok {sink : BatchProgressSink Identity} (ascends : sink.Ascends)
    (succeeded : (selectedExtractEach pathIdentity report sink batch).1 = .ok out) :
    (selectedExtractEach pathIdentity report sink batch).2.Ascends := by
  induction batch generalizing report sink with
  | nil => exact ascends
  | cons one rest ih =>
    rw [selectedExtractEach] at succeeded ⊢
    cases result : (one.run pathIdentity).1 with
    | error error =>
      rw [result] at succeeded
      cases succeeded
    | ok item =>
      rw [result] at succeeded
      have forwards := BatchProgressSink.forwards_foldl sink (one.run pathIdentity).2
      exact ih (ascends.finishEntry forwards (one.neverDecrease_run pathIdentity)) succeeded

/-- The sums, as long as the counters hold them. -/
theorem selectedExtractEach_sums {sink : BatchProgressSink Identity} (ascends : sink.Ascends)
    (told : (lastTotals sink.inner).getD ⟨0, 0⟩ = sink.finished)
    (small : sink.finishedBytes + (batchTotals batch).bytes < 2 ^ 64)
    (few : sink.finishedEntries + (batchTotals batch).entries < 2 ^ 64)
    (succeeded : (selectedExtractEach pathIdentity report sink batch).1 = .ok out) :
    (lastTotals (selectedExtractEach pathIdentity report sink batch).2.inner).getD ⟨0, 0⟩ =
      ⟨sink.finishedBytes + (batchTotals batch).bytes,
        sink.finishedEntries + (batchTotals batch).entries⟩ := by
  induction batch generalizing report sink with
  | nil => exact told
  | cons one rest ih =>
    rw [batchTotals_cons] at small few ⊢
    rw [selectedExtractEach] at succeeded ⊢
    dsimp only at small few ⊢
    cases result : (one.run pathIdentity).1 with
    | error error =>
      rw [result] at succeeded
      cases succeeded
    | ok item =>
      rw [result] at succeeded
      have forwards := BatchProgressSink.forwards_foldl sink (one.run pathIdentity).2
      have next := ascends.finishEntry forwards (one.neverDecrease_run pathIdentity)
      have own : (lastTotals (one.run pathIdentity).2).getD ⟨0, 0⟩ =
          ⟨recordedBytes one.calls, recordedEntries one.calls⟩ :=
        told_flushed ⟨by omega, by omega⟩ one.start one.finish
      obtain ⟨bytes, entries⟩ := ascends.finished_add forwards own (by omega) (by omega)
      have sums := ih next (ascends.told_finishEntry forwards told) (by rw [bytes]; omega)
        (by rw [entries]; omega) succeeded
      rw [bytes, entries] at sums
      refine sums.trans (congrArg₂ Totals.mk ?_ ?_) <;> omega

/-- The sink of a whole batch has been told the sums, and never less than before. -/
def ReportsBatch (batch : List (OneExtraction Identity Error))
    (events : List (JobEvent Identity)) : Prop :=
  lastTotals events = some (batchTotals batch) ∧ NeverDecrease (toldTotals events)

theorem reportsBatch_iff (succeeded : (selectedExtractEach pathIdentity {} {} batch).1 = .ok out)
    (processed : (batchTotals batch).entries ≠ 0) :
    ReportsBatch batch (selectedExtractEach pathIdentity {} {} batch).2.inner ↔
      (batchTotals batch).bytes < 2 ^ 64 ∧ (batchTotals batch).entries < 2 ^ 64 := by
  have new : ({} : BatchProgressSink Identity).Ascends :=
    ⟨List.Pairwise.nil, fun _ member => (List.not_mem_nil member).elim,
      ⟨Nat.zero_le _, Nat.zero_le _⟩, rfl⟩
  have ascends := selectedExtractEach_ok new succeeded
  constructor
  · rintro ⟨told, -⟩
    obtain ⟨bytes, entries⟩ :=
      (ascends.reached _ (List.mem_of_getLast? told)).trans ascends.fits
    exact ⟨Nat.lt_of_le_of_lt bytes (by decide), Nat.lt_of_le_of_lt entries (by decide)⟩
  · rintro ⟨small, few⟩
    have sums := selectedExtractEach_sums new rfl (show 0 + (batchTotals batch).bytes < _ by omega)
      (show 0 + (batchTotals batch).entries < _ by omega) succeeded
    refine ⟨some_of_told (sums.trans ?_) processed, ascends.told⟩
    exact congrArg₂ Totals.mk (Nat.zero_add _) (Nat.zero_add _)

/-- **All progress is reported** exactly where the counters hold it and, for ZIP sessions, the last
activity makes a batch. -/
theorem engine_reports_progress (pathIdentity : Text → Identity) :
    (∀ (session : ZipReadSession) (notFound : Error) (operation : Operation)
        (world : World Error) (report : ExtractReport),
      (session.run pathIdentity notFound operation world).1 = .ok report →
      startedEntries (session.run pathIdentity notFound operation world).2 ≠ 0 →
      (ReportsAll (session.run pathIdentity notFound operation world) ↔
        Fits (callsOf Identity (session.visited operation world)) ∧
          (Held.after (activities (callsOf Identity (session.visited operation world)))).kept =
            [])) ∧
    (∀ (session : TarReadSession) (operation : Operation) (world : World Error)
        (report : ExtractReport),
      (session.run pathIdentity operation world).1 = .ok report →
      startedEntries (session.run pathIdentity operation world).2 ≠ 0 →
      (ReportsAll (session.run pathIdentity operation world) ↔
        Fits (callsOf Identity (session.visited operation world)))) ∧
    ∀ (batch : List (OneExtraction Identity Error)) (report : ExtractReport),
      (selectedExtractEach pathIdentity {} {} batch).1 = .ok report →
      (batchTotals batch).entries ≠ 0 →
      (ReportsBatch batch (selectedExtractEach pathIdentity {} {} batch).2.inner ↔
        (batchTotals batch).bytes < 2 ^ 64 ∧ (batchTotals batch).entries < 2 ^ 64) :=
  ⟨fun _ _ _ _ _ succeeded processed => ZipReadSession.reportsAll_iff succeeded processed,
    fun _ _ _ _ succeeded processed => TarReadSession.reportsAll_iff succeeded processed,
    fun _ _ succeeded processed => reportsBatch_iff succeeded processed⟩

end

/-- An archive of one file of three bytes. -/
def oneFile : ZipReadSession where
  members := [⟨['a'], 3⟩]
  retainedEntries := []

/-- The file is written at once, and its entry ends at a time. -/
def writing (finished : Nat) : World Unit where
  start := 0
  opening := none
  treat _ _ := (.file [(3, 0)], finished)
  closing := none
  finish := finished

/-- An entry that ends a second later makes a batch of its own. -/
theorem engine_reports_slow_file :
    ReportsAll (oneFile.run (id : Text → Text) () .extract (writing progressInterval)) :=
  ((engine_reports_progress id).1 oneFile () .extract (writing progressInterval) ⟨1, 0, 3, []⟩ rfl
    (by decide)).mpr ⟨⟨by decide, by decide⟩, by decide⟩

/-- The end of a file that is written at once is never reported. -/
theorem fast_file_is_not_reported :
    (∃ report, (oneFile.run (id : Text → Text) () .extract (writing 0)).1 = .ok report) ∧
      startedEntries (oneFile.run (id : Text → Text) () .extract (writing 0)).2 ≠ 0 ∧
      ¬ ReportsAll (oneFile.run (id : Text → Text) () .extract (writing 0)) := by
  have started : startedEntries (oneFile.run (id : Text → Text) () .extract (writing 0)).2 = 1 := by
    decide
  refine ⟨⟨_, rfl⟩, by rw [started]; decide, ?_⟩
  rintro ⟨report, -, told⟩
  have reported : lastTotals (oneFile.run (id : Text → Text) () .extract (writing 0)).2 =
      some ⟨3, 0⟩ := by decide
  rw [reported, started] at told
  exact absurd (congrArg Totals.entries (Option.some.inj told)) Nat.zero_ne_one

end Jobs

end ZManager
