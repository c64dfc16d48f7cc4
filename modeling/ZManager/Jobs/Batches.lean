import Mathlib.Order.Basic
import ZManager.Jobs.Accounting

/-! # Which batches come out

The totals that the last batch of a context tells, and a description of the batches by the
recorded activities and their times alone.
-/

namespace ZManager

namespace Jobs

variable {Identity : Type}

/-- Bytes and entries in total. -/
structure Totals where
  bytes : Nat
  entries : Nat
  deriving Repr, DecidableEq

/-- Both are at most as much. -/
def Totals.Le (one two : Totals) : Prop := one.bytes ≤ two.bytes ∧ one.entries ≤ two.entries

theorem Totals.Le.refl (totals : Totals) : totals.Le totals := ⟨Nat.le_refl _, Nat.le_refl _⟩

theorem Totals.Le.trans {one two three : Totals} (first : one.Le two) (second : two.Le three) :
    one.Le three :=
  ⟨Nat.le_trans first.1 second.1, Nat.le_trans first.2 second.2⟩

/-- The totals that an event tells. -/
def JobEvent.totals? : JobEvent Identity → Option Totals
  | .bytesProcessed _ _ _ _ bytes _ entries _ => some ⟨bytes, entries⟩
  | _ => none

/-- The totals of the batches, in order. -/
def toldTotals (events : List (JobEvent Identity)) : List Totals :=
  events.filterMap JobEvent.totals?

/-- What the last batch tells. -/
def lastTotals (events : List (JobEvent Identity)) : Option Totals := (toldTotals events).getLast?

/-- Totals that never go down. -/
def NeverDecrease (told : List Totals) : Prop := told.Pairwise Totals.Le

theorem toldTotals_append (events more : List (JobEvent Identity)) :
    toldTotals (events ++ more) = toldTotals events ++ toldTotals more :=
  List.filterMap_append

/-- A batch leaves nothing pending. -/
theorem ProgressCoalescer.empties_recordActivityAt [DecidableEq Identity]
    (pathIdentity : Text → Identity) (coalescer : ProgressCoalescer Identity) (path : Option Text)
    (bytes entries now : Nat)
    (given : (coalescer.recordActivityAt pathIdentity path bytes entries now).1.isSome) :
    (coalescer.recordActivityAt pathIdentity path bytes entries now).2.pendingBytes = 0 ∧
      (coalescer.recordActivityAt pathIdentity path bytes entries now).2.pendingEntries = 0 := by
  unfold recordActivityAt at given ⊢
  split at given
  · exact (Bool.false_ne_true given).elim
  · rw [if_neg ‹_›]
    dsimp only at given ⊢
    split at given
    · rw [if_pos ‹_›]
      exact pending_flushAt _ now
    · exact (Bool.false_ne_true given).elim

namespace JobContext

variable [DecidableEq Identity] (pathIdentity : Text → Identity) {context : JobContext Identity}

def totals (context : JobContext Identity) : Totals :=
  ⟨context.totalBytesProcessed, context.totalEntriesProcessed⟩

/-- Totals have gone up to those of the context. -/
structure Ascends (context : JobContext Identity) : Prop where
  told : NeverDecrease (toldTotals context.events)
  reached : ∀ totals ∈ toldTotals context.events, totals.Le context.totals
  fits : context.totals.Le ⟨2 ^ 64 - 1, 2 ^ 64 - 1⟩

omit [DecidableEq Identity] in
theorem Ascends.emit (ascends : context.Ascends) (event : JobEvent Identity)
    (silent : event.totals? = none) : (context.emit event).Ascends := by
  have same : toldTotals (context.emit event).events = toldTotals context.events := by
    show toldTotals (context.events ++ [event]) = _
    rw [toldTotals_append]
    simp [toldTotals, silent]
  exact ⟨same ▸ ascends.told, same ▸ ascends.reached, ascends.fits⟩

omit [DecidableEq Identity] in
theorem Ascends.handOn (ascends : context.Ascends)
    (result : Option (ProgressBatch Identity) × ProgressCoalescer Identity) :
    (context.handOn result).Ascends := by
  obtain ⟨batch, progress⟩ := result
  cases batch with
  | none => exact ⟨ascends.told, ascends.reached, ascends.fits⟩
  | some batch =>
    have told : toldTotals (context.handOn (some batch, progress)).events =
        toldTotals context.events ++ [context.totals] :=
      toldTotals_append _ _
    refine ⟨?_, ?_, ascends.fits⟩
    · rw [told]
      refine List.pairwise_append.mpr ⟨ascends.told, List.pairwise_singleton _ _, ?_⟩
      intro totals member last found
      rw [List.mem_singleton.mp found]
      exact ascends.reached totals member
    · rw [told]
      intro totals member
      rcases List.mem_append.mp member with earlier | last
      · exact ascends.reached totals earlier
      · rw [List.mem_singleton.mp last]
        exact Totals.Le.refl _

omit [DecidableEq Identity] in
/-- More is counted before a call hands anything on. -/
theorem Ascends.count (ascends : context.Ascends) (bytes entries : Nat) :
    ({ context with
      totalBytesProcessed := saturatingAdd context.totalBytesProcessed bytes
      totalEntriesProcessed := saturatingAdd context.totalEntriesProcessed entries } :
        JobContext Identity).Ascends := by
  have fits : context.totalBytesProcessed ≤ 2 ^ 64 - 1 ∧
      context.totalEntriesProcessed ≤ 2 ^ 64 - 1 := ascends.fits
  have counted : context.totals.Le ⟨saturatingAdd context.totalBytesProcessed bytes,
      saturatingAdd context.totalEntriesProcessed entries⟩ := by
    unfold saturatingAdd
    constructor
    · show context.totalBytesProcessed ≤ min _ _
      omega
    · show context.totalEntriesProcessed ≤ min _ _
      omega
  exact ⟨ascends.told, fun totals member => (ascends.reached totals member).trans counted,
    Nat.min_le_right .., Nat.min_le_right ..⟩

omit [DecidableEq Identity] in
theorem saturatingAdd_zero {total : Nat} (fits : total ≤ 2 ^ 64 - 1) :
    saturatingAdd total 0 = total :=
  Nat.min_eq_left fits

theorem Ascends.call (ascends : context.Ascends) (now : Nat) (call : Call Identity) :
    (context.call pathIdentity now call).Ascends := by
  have bytesFit : context.totalBytesProcessed ≤ 2 ^ 64 - 1 := ascends.fits.1
  have entriesFit : context.totalEntriesProcessed ≤ 2 ^ 64 - 1 := ascends.fits.2
  cases call with
  | entryStarted path bytes => exact ascends.emit _ rfl
  | warning message => exact ascends.emit _ rfl
  | flushProgress => exact ascends.handOn _
  | bytesProcessed path bytes =>
    have counted := ascends.count bytes 0
    rw [saturatingAdd_zero entriesFit] at counted
    exact counted.handOn _
  | entryFinished path bytes =>
    have counted := ascends.count 0 1
    rw [saturatingAdd_zero bytesFit] at counted
    exact (counted.emit (.entryFinished path bytes) rfl).handOn _
  | phaseStarted phase totalBytes =>
    have flushed : (context.flushProgress now).Ascends := ascends.handOn _
    have phases : ({ context.flushProgress now with
        phaseBytesProcessed := Function.update (context.flushProgress now).phaseBytesProcessed
          phase (some 0) } : JobContext Identity).Ascends :=
      ⟨flushed.told, flushed.reached, flushed.fits⟩
    exact phases.emit (.phaseStarted phase totalBytes) rfl
  | phaseBytes phase path recentPaths identities bytes totalBytes truncated =>
    have phases : ({ context with
        phaseBytesProcessed := Function.update context.phaseBytesProcessed phase
          (some (saturatingAdd ((context.phaseBytesProcessed phase).getD 0) bytes)) } :
        JobContext Identity).Ascends :=
      ⟨ascends.told, ascends.reached, ascends.fits⟩
    exact phases.emit (.phaseBytesProcessed phase path recentPaths identities bytes _ totalBytes
      truncated) rfl

theorem Ascends.run (ascends : context.Ascends) (calls : Timed Identity) :
    (context.run pathIdentity calls).Ascends := by
  induction calls generalizing context with
  | nil => exact ascends
  | cons timed rest ih => exact ih (ascends.call pathIdentity timed.2 timed.1)

omit [DecidableEq Identity] in
theorem ascends_new (totalBytes : Option Nat) (start : Nat) :
    (newWithProgressTotal totalBytes start : JobContext Identity).Ascends :=
  ⟨List.Pairwise.nil, fun _ member => (List.not_mem_nil member).elim, Nat.zero_le _,
    Nat.zero_le _⟩

/-! ## What the last batch tells -/

/-- The last batch tells what has been emitted. -/
def Tells (context : JobContext Identity) : Prop :=
  (lastTotals context.events).getD ⟨0, 0⟩ =
    ⟨emittedBytes context.events, emittedEntries context.events⟩

omit [DecidableEq Identity] in
theorem Tells.emit (tells : context.Tells) (event : JobEvent Identity)
    (silent : event.totals? = none) (noBytes : event.batchBytes = 0)
    (noEntries : event.batchEntries = 0) : (context.emit event).Tells := by
  have told : lastTotals (context.events ++ [event]) = lastTotals context.events := by
    unfold lastTotals
    rw [toldTotals_append]
    simp [toldTotals, silent]
  have bytes : emittedBytes (context.events ++ [event]) = emittedBytes context.events := by
    simp [emittedBytes, noBytes]
  have entries : emittedEntries (context.events ++ [event]) = emittedEntries context.events := by
    simp [emittedEntries, noEntries]
  unfold Tells JobContext.emit
  rw [told, bytes, entries]
  exact tells

/-- A batch tells everything that is emitted with it. -/
theorem Tells.handOn (tells : context.Tells)
    {result : Option (ProgressBatch Identity) × ProgressCoalescer Identity}
    (accounts : (context.handOn result).Accounts pathIdentity)
    (empties : result.1.isSome → result.2.pendingBytes = 0 ∧ result.2.pendingEntries = 0) :
    (context.handOn result).Tells := by
  obtain ⟨batch, progress⟩ := result
  cases batch with
  | none => exact tells
  | some batch =>
    obtain ⟨noBytes, noEntries⟩ := empties rfl
    have bytes := accounts.bytes
    have entries := accounts.entries
    rw [show (context.handOn (some batch, progress)).progress.pendingBytes = 0 from
      noBytes] at bytes
    rw [show (context.handOn (some batch, progress)).progress.pendingEntries = 0 from
      noEntries] at entries
    have told : lastTotals (context.handOn (some batch, progress)).events =
        some context.totals := by
      unfold lastTotals
      rw [show toldTotals (context.handOn (some batch, progress)).events =
        toldTotals context.events ++ [context.totals] from toldTotals_append _ _]
      exact List.getLast?_concat
    unfold Tells
    rw [told]
    exact (congrArg₂ Totals.mk bytes entries).symm

omit [DecidableEq Identity] in
theorem Tells.phases (tells : context.Tells) (phaseBytesProcessed : JobPhase → Option Nat) :
    ({ context with phaseBytesProcessed := phaseBytesProcessed } : JobContext Identity).Tells :=
  tells

theorem Tells.flushProgress (tells : context.Tells) {now : Nat}
    (accounts : (context.flushProgress now).Accounts pathIdentity) :
    (context.flushProgress now).Tells :=
  tells.handOn pathIdentity accounts fun _ => ProgressCoalescer.pending_flushAt _ _

/-- One call. -/
theorem Tells.call (tells : context.Tells) (accounts : context.Accounts pathIdentity) (now : Nat)
    (call : Call Identity) (small : context.totalBytesProcessed + call.bytes < 2 ^ 64)
    (few : context.totalEntriesProcessed + call.entries < 2 ^ 64) :
    (context.call pathIdentity now call).Tells := by
  have after := accounts.call now call small few
  cases call with
  | entryStarted path bytes => exact tells.emit (.entryStarted path bytes) rfl rfl rfl
  | warning message => exact tells.emit (.warning message) rfl rfl rfl
  | flushProgress => exact tells.flushProgress pathIdentity after
  | bytesProcessed path bytes =>
    have counted : ({ context with
        totalBytesProcessed := saturatingAdd context.totalBytesProcessed bytes } :
        JobContext Identity).Tells := tells
    exact counted.handOn pathIdentity after
      (ProgressCoalescer.empties_recordActivityAt pathIdentity _ path bytes 0 now)
  | entryFinished path bytes =>
    have counted : ({ context with
        totalEntriesProcessed := saturatingAdd context.totalEntriesProcessed 1 } :
        JobContext Identity).Tells := tells
    have ended := counted.emit (.entryFinished path bytes) rfl rfl rfl
    exact ended.handOn pathIdentity after
      (ProgressCoalescer.empties_recordActivityAt pathIdentity _ (some path) 0 1 now)
  | phaseStarted phase totalBytes =>
    have flushed := tells.flushProgress pathIdentity (accounts.flushProgress now)
    exact (flushed.phases _).emit (.phaseStarted phase totalBytes) rfl rfl rfl
  | phaseBytes phase path recentPaths identities bytes totalBytes truncated =>
    exact (tells.phases _).emit (.phaseBytesProcessed phase path recentPaths identities
      bytes _ totalBytes truncated) rfl rfl rfl

theorem Tells.run (tells : context.Tells) (accounts : context.Accounts pathIdentity)
    {calls : Timed Identity} (small : context.totalBytesProcessed + recordedBytes calls < 2 ^ 64)
    (few : context.totalEntriesProcessed + recordedEntries calls < 2 ^ 64) :
    (context.run pathIdentity calls).Tells := by
  induction calls generalizing context with
  | nil => exact tells
  | cons timed rest ih =>
    obtain ⟨call, now⟩ := timed
    rw [show recordedBytes ((call, now) :: rest) = call.bytes + recordedBytes rest by
      simp [recordedBytes]] at small
    rw [show recordedEntries ((call, now) :: rest) = call.entries + recordedEntries rest by
      simp [recordedEntries]] at few
    obtain ⟨total, totalEntries⟩ := totals_call pathIdentity context now call (by omega) (by omega)
    have told := tells.call pathIdentity accounts now call (by omega) (by omega)
    have accounted := accounts.call now call (by omega) (by omega)
    exact ih told accounted (total ▸ by omega) (totalEntries ▸ by omega)

end JobContext

/-! ## Batches by activities alone -/

/-- Bytes or entries that are recorded at a time. -/
structure Activity where
  bytes : Nat
  entries : Nat
  now : Nat
  deriving Repr, DecidableEq

/-- What a call records. -/
def Call.activity? (now : Nat) : Call Identity → Option Activity
  | .bytesProcessed _ bytes => if bytes = 0 then none else some ⟨bytes, 0, now⟩
  | .entryFinished .. => some ⟨0, 1, now⟩
  | _ => none

def activities (calls : Timed Identity) : List Activity :=
  calls.filterMap fun timed => timed.1.activity? timed.2

/-- Calls that hand nothing on of their own. -/
def Call.Records : Call Identity → Prop
  | .flushProgress => False
  | .phaseStarted .. => False
  | _ => True

/-- The time of the last batch and what has been recorded since. -/
structure Held where
  since : Option Nat := none
  kept : List Activity := []
  deriving Repr, DecidableEq

namespace Held

def bytes (kept : List Activity) : Nat := (kept.map Activity.bytes).sum

def entries (kept : List Activity) : Nat := (kept.map Activity.entries).sum

/-- A batch is due with an activity: by time, the first of all at once, by bytes or by entries. -/
def IsDue (held : Held) (activity : Activity) : Prop :=
  (∀ since ∈ held.since, progressInterval ≤ activity.now - since) ∨
    progressMinByteStep ≤ bytes (held.kept ++ [activity]) ∨
    progressEntryStep ≤ entries (held.kept ++ [activity])

instance (held : Held) (activity : Activity) : Decidable (held.IsDue activity) :=
  inferInstanceAs (Decidable (_ ∨ _))

def add (held : Held) (activity : Activity) : Held :=
  if held.IsDue activity then ⟨some activity.now, []⟩
  else ⟨held.since, held.kept ++ [activity]⟩

/-- What is held back of the activities in the end. -/
def after (activities : List Activity) : Held := activities.foldl add {}

end Held

/-- A coalescer that holds the activities. -/
structure ProgressCoalescer.Holds (coalescer : ProgressCoalescer Identity) (held : Held) :
    Prop where
  total : coalescer.totalBytes = none
  emittedOnce : coalescer.emittedOnce = held.since.isSome
  lastEmitted : ∀ since ∈ held.since, coalescer.lastEmitted = since
  bytes : coalescer.pendingBytes = Held.bytes held.kept
  entries : coalescer.pendingEntries = Held.entries held.kept

namespace ProgressCoalescer

variable {coalescer : ProgressCoalescer Identity} {held : Held}

theorem Holds.isDue_iff {pending : ProgressCoalescer Identity} {activity : Activity}
    (holds : coalescer.Holds held) (same : pending.totalBytes = coalescer.totalBytes)
    (once : pending.emittedOnce = coalescer.emittedOnce)
    (last : pending.lastEmitted = coalescer.lastEmitted)
    (bytes : pending.pendingBytes = Held.bytes (held.kept ++ [activity]))
    (entries : pending.pendingEntries = Held.entries (held.kept ++ [activity])) :
    pending.IsDue activity.now ↔ held.IsDue activity := by
  have step : pending.byteStep = progressMinByteStep := by
    unfold byteStep
    rw [same, holds.total]
    rfl
  unfold IsDue Held.IsDue
  rw [step, bytes, entries, once, holds.emittedOnce, last]
  cases since : held.since with
  | none => simp
  | some time =>
    rw [holds.lastEmitted time since]
    simp only [Option.isSome_some, not_true_eq_false, false_or, Option.mem_some_iff,
      forall_eq']
    tauto

/-- Paths change neither the total nor when a batch came out. -/
theorem frame_recordOptionalPath [DecidableEq Identity] (pathIdentity : Text → Identity)
    (coalescer : ProgressCoalescer Identity) (path : Option Text) :
    (coalescer.recordOptionalPath pathIdentity path).totalBytes = coalescer.totalBytes ∧
      (coalescer.recordOptionalPath pathIdentity path).emittedOnce = coalescer.emittedOnce ∧
      (coalescer.recordOptionalPath pathIdentity path).lastEmitted = coalescer.lastEmitted := by
  cases path with
  | none => exact ⟨rfl, rfl, rfl⟩
  | some path =>
    unfold recordOptionalPath recordPath
    dsimp only
    split
    · exact ⟨rfl, rfl, rfl⟩
    · split <;> exact ⟨rfl, rfl, rfl⟩

theorem Holds.recordActivityAt [DecidableEq Identity] (pathIdentity : Text → Identity)
    (holds : coalescer.Holds held) (path : Option Text) {bytes entries : Nat} (now : Nat)
    (recorded : ¬ (bytes = 0 ∧ entries = 0)) (small : coalescer.pendingBytes + bytes < 2 ^ 64)
    (few : coalescer.pendingEntries + entries < 2 ^ 64) :
    (coalescer.recordActivityAt pathIdentity path bytes entries now).2.Holds
      (held.add ⟨bytes, entries, now⟩) := by
  obtain ⟨same, once, last⟩ := frame_recordOptionalPath pathIdentity
    (coalescer.addPending bytes entries) path
  obtain ⟨pendingBytes, pendingEntries⟩ := pending_recordOptionalPath pathIdentity
    (coalescer.addPending bytes entries) path
  have bytesHeld : ((coalescer.addPending bytes entries).recordOptionalPath pathIdentity
      path).pendingBytes = Held.bytes (held.kept ++ [⟨bytes, entries, now⟩]) := by
    rw [pendingBytes, show (coalescer.addPending bytes entries).pendingBytes = _ from
      saturatingAdd_of_lt small, holds.bytes]
    simp [Held.bytes]
  have entriesHeld : ((coalescer.addPending bytes entries).recordOptionalPath pathIdentity
      path).pendingEntries = Held.entries (held.kept ++ [⟨bytes, entries, now⟩]) := by
    rw [pendingEntries, show (coalescer.addPending bytes entries).pendingEntries = _ from
      saturatingAdd_of_lt few, holds.entries]
    simp [Held.entries]
  have due := holds.isDue_iff same once last bytesHeld entriesHeld
  have nonzero : ¬ (((coalescer.addPending bytes entries).recordOptionalPath pathIdentity
      path).pendingBytes = 0 ∧ ((coalescer.addPending bytes entries).recordOptionalPath pathIdentity
      path).pendingEntries = 0) := by
    rw [bytesHeld, entriesHeld]
    simp only [Held.bytes, Held.entries, List.map_append, List.sum_append, List.map_cons,
      List.map_nil, List.sum_cons, List.sum_nil]
    omega
  unfold ProgressCoalescer.recordActivityAt Held.add
  rw [if_neg recorded]
  dsimp only
  by_cases now_ : held.IsDue ⟨bytes, entries, now⟩
  · rw [if_pos now_, if_pos (due.mpr now_)]
    unfold ProgressCoalescer.flushAt
    rw [if_neg nonzero]
    exact ⟨same.trans holds.total, rfl, fun since found => Option.some.inj found, rfl, rfl⟩
  · rw [if_neg now_, if_neg (mt due.mp now_)]
    refine ⟨same.trans holds.total, once.trans holds.emittedOnce, fun since found => ?_, bytesHeld,
      entriesHeld⟩
    exact last.trans (holds.lastEmitted since found)

theorem holds_new (start : Nat) :
    (JobContext.newWithProgressTotal none start : JobContext Identity).progress.Holds {} where
  total := rfl
  emittedOnce := rfl
  lastEmitted _ found := nomatch found
  bytes := rfl
  entries := rfl

end ProgressCoalescer

namespace Held

/-- The activities that are held back are the last ones. -/
theorem kept_suffix (activities : List Activity) : (after activities).kept <:+ activities := by
  induction activities using List.reverseRecOn with
  | nil => exact List.nil_suffix
  | append_singleton activities activity ih =>
    have step : after (activities ++ [activity]) = (after activities).add activity := by
      simp [after]
    rw [step]
    unfold add
    split
    · exact List.nil_suffix
    · obtain ⟨done, equal⟩ := ih
      exact ⟨done, by rw [← List.append_assoc, equal]⟩

end Held

namespace JobContext

variable [DecidableEq Identity] (pathIdentity : Text → Identity) {context : JobContext Identity}
  {held : Held}

omit [DecidableEq Identity] in
theorem progress_handOn (context : JobContext Identity)
    (result : Option (ProgressBatch Identity) × ProgressCoalescer Identity) :
    (context.handOn result).progress = result.2 := by
  obtain ⟨batch, progress⟩ := result
  cases batch <;> rfl

theorem holds_call (holds : context.progress.Holds held) (now : Nat) {call : Call Identity}
    (records : call.Records) (small : context.progress.pendingBytes + call.bytes < 2 ^ 64)
    (few : context.progress.pendingEntries + call.entries < 2 ^ 64) :
    (context.call pathIdentity now call).progress.Holds
      ((activities [(call, now)]).foldl Held.add held) := by
  cases call with
  | bytesProcessed path bytes =>
    show (JobContext.handOn _ (context.progress.recordActivityAt pathIdentity path bytes 0
      now)).progress.Holds _
    rw [progress_handOn]
    by_cases nothing : bytes = 0
    · subst nothing
      exact holds
    · rw [show activities [((.bytesProcessed path bytes : Call Identity), now)] =
        [⟨bytes, 0, now⟩] by simp [activities, Call.activity?, nothing]]
      exact holds.recordActivityAt pathIdentity path now (fun both => nothing both.1) small few
  | entryFinished path bytes =>
    show (JobContext.handOn _ (context.progress.recordActivityAt pathIdentity (some path) 0 1
      now)).progress.Holds _
    rw [progress_handOn]
    exact holds.recordActivityAt pathIdentity (some path) now (fun both => nomatch both.2) small few
  | flushProgress => exact records.elim
  | phaseStarted => exact records.elim
  | _ => exact holds

/-- **What is pending** behind recording calls is what the batches of their activities leave. -/
theorem holds_run (holds : context.progress.Holds held) (accounts : context.Accounts pathIdentity)
    {calls : Timed Identity} (records : ∀ timed ∈ calls, timed.1.Records)
    (small : context.totalBytesProcessed + recordedBytes calls < 2 ^ 64)
    (few : context.totalEntriesProcessed + recordedEntries calls < 2 ^ 64) :
    (context.run pathIdentity calls).progress.Holds
      ((activities calls).foldl Held.add held) := by
  induction calls generalizing context held with
  | nil => exact holds
  | cons timed rest ih =>
    obtain ⟨call, now⟩ := timed
    rw [show recordedBytes ((call, now) :: rest) = call.bytes + recordedBytes rest by
      simp [recordedBytes]] at small
    rw [show recordedEntries ((call, now) :: rest) = call.entries + recordedEntries rest by
      simp [recordedEntries]] at few
    obtain ⟨total, totalEntries⟩ := totals_call pathIdentity context now call (by omega) (by omega)
    have accounted := accounts.call now call (by omega) (by omega)
    have pending := accounts.bytes
    have pendingEntries := accounts.entries
    have one : (context.call pathIdentity now call).progress.Holds
        ((activities [(call, now)]).foldl Held.add held) :=
      holds_call pathIdentity holds now (records _ (.head _)) (by omega) (by omega)
    have rest_ := ih one accounted (fun timed member => records timed (.tail _ member))
      (total ▸ by omega) (totalEntries ▸ by omega)
    rw [← List.foldl_append] at rest_
    rw [show activities ((call, now) :: rest) = activities [(call, now)] ++ activities rest from
      List.filterMap_append (l := [(call, now)])]
    exact rest_

end JobContext

end Jobs

end ZManager
