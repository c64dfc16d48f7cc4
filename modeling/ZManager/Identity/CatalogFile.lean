import Mathlib.Data.List.Nodup
import Mathlib.Logic.Function.Basic
import Mathlib.Tactic.SplitIfs
import ZManager.Foundation.Run

/-! # The catalog file and its lock

A save of the public catalog creates a lock file, reads the catalog and compares
its revision with the expected one, replaces the file and removes the lock. Each
of these is one step of the file system, and steps of other saves and of clears
come in between. A lock that is older than thirty seconds by the clock of the
one who looks is removed and the creation is tried again.
-/

namespace ZManager.Identity

/-- What the store reads of a catalog. -/
structure CatalogFormat (Catalog : Type) where
  revision : Catalog → Nat
  /-- The catalog passes its own check. -/
  validates : Catalog → Bool

/-- A lock older than this is taken for abandoned. -/
def lockStaleAfterSeconds : Nat := 30

def maxLockStealAttempts : Nat := 3

/-- The lock file; who created it is not written in it. -/
structure LockFile where
  owner : Nat
  modified : Nat

/-- What a save was given: the catalog that its caller had loaded, how many changes the
account had then, and the catalog to write. -/
structure Save (Catalog : Type) where
  seen : Option Catalog
  stamp : Nat
  catalog : Catalog

/-- Where the call of a save is. -/
inductive SavePhase (Catalog : Type) where
  | start
  | loaded (seen : Option Catalog) (stamp : Nat)
  | acquiring (save : Save Catalog) (attempts : Nat)
  | contended (save : Save Catalog) (attempts : Nat)
  | stealing (save : Save Catalog) (attempts : Nat)
  | holding (save : Save Catalog)
  | checked (save : Save Catalog)
  | releasing (succeeded : Bool)
  | ended (succeeded : Bool)

namespace SavePhase

variable {Catalog : Type}

/-- The save has created the lock and has not removed it yet. -/
def critical : SavePhase Catalog → Bool
  | .holding _ | .checked _ | .releasing _ => true
  | _ => false

def isChecked : SavePhase Catalog → Bool
  | .checked _ => true
  | _ => false

/-- The catalog that the caller had loaded, while the save is still open. -/
def origin : SavePhase Catalog → Option (Option Catalog × Nat)
  | .loaded seen stamp => some (seen, stamp)
  | .acquiring save _ | .contended save _ | .stealing save _ | .holding save | .checked save =>
    some (save.seen, save.stamp)
  | _ => none

end SavePhase

/-- One account: its catalog and lock file, and the calls. The last three fields record
the history: the number of successful saves and clears, the revisions that the file
has had, and the expected revisions of the saves that succeeded. -/
structure CatalogState (Catalog : Type) where
  file : Option Catalog
  lock : Option LockFile
  phase : Nat → SavePhase Catalog
  changes : Nat
  past : List Nat
  replaced : List Nat

/-- One step of a call, with what the clock and the file system answer. -/
inductive CatalogAction (Catalog : Type) where
  | load (call : Nat)
  | save (call : Nat) (catalog : Catalog)
  | createLock (call modified : Nat)
  | createLockFails (call : Nat)
  | lockIsStale (call now : Nat)
  | stealLock (call : Nat) (removed : Bool)
  | readRevision (call : Nat)
  | readRevisionFails (call : Nat)
  | replace (call : Nat)
  | replaceFails (call : Nat)
  | removeLock (call : Nat) (removed : Bool)
  | clear
  | crash (call : Nat)

namespace CatalogFile

variable {Catalog : Type} (format : CatalogFormat Catalog)

variable {call : Nat}

variable {phase : SavePhase Catalog} {save : Save Catalog}

/-- `load_catalog`: a catalog that does not pass its check is an error. -/
def loadCatalog : Option Catalog → Option (Option Catalog)
  | none => some none
  | some catalog => if format.validates catalog then some (some catalog) else none

def lockIsStale (now : Nat) : Option LockFile → Bool
  | none => false
  | some lock => lock.modified ≤ now && lockStaleAfterSeconds ≤ now - lock.modified

theorem loadCatalog_eq_some {file found : Option Catalog}
    (read : loadCatalog format file = some found) : found = file := by
  cases file with
  | none => exact (Option.some.inj read).symm
  | some catalog =>
    rw [loadCatalog] at read
    split_ifs at read
    exact (Option.some.inj read).symm

/-- The call goes on to a phase. -/
def goto (state : CatalogState Catalog) (call : Nat) (phase : SavePhase Catalog) :
    CatalogState Catalog :=
  { state with phase := Function.update state.phase call phase }

/-- `remove_file` of the lock, by its path: whoever created it. -/
def removeLock (state : CatalogState Catalog) (removed : Bool) : CatalogState Catalog :=
  { state with lock := if removed then none else state.lock }

/-- The atomic replacement of the file by a save. -/
def replaceFile (state : CatalogState Catalog) (save : Save Catalog) : CatalogState Catalog :=
  { state with
    file := some save.catalog
    changes := state.changes + 1
    past := format.revision save.catalog :: state.past
    replaced := (save.seen.map format.revision).toList ++ state.replaced }

def step (state : CatalogState Catalog) : CatalogAction Catalog → Option (CatalogState Catalog)
  | .load call =>
    match state.phase call, loadCatalog format state.file with
    | .start, some seen => some (goto state call (.loaded seen state.changes))
    | _, _ => none
  | .save call catalog =>
    match state.phase call with
    | .loaded seen stamp =>
      if format.validates catalog then
        some (goto state call (.acquiring ⟨seen, stamp, catalog⟩ 0))
      else some (goto state call (.ended false))
    | _ => none
  | .createLock call modified =>
    match state.phase call, state.lock with
    | .acquiring save _, none =>
      some (goto { state with lock := some ⟨call, modified⟩ } call (.holding save))
    | .acquiring save attempts, some _ => some (goto state call (.contended save attempts))
    | _, _ => none
  | .createLockFails call =>
    match state.phase call with
    | .acquiring _ _ => some (goto state call (.ended false))
    | _ => none
  | .lockIsStale call now =>
    match state.phase call with
    | .contended save attempts =>
      if maxLockStealAttempts ≤ attempts || !lockIsStale now state.lock then
        some (goto state call (.ended false))
      else some (goto state call (.stealing save attempts))
    | _ => none
  | .stealLock call removed =>
    match state.phase call with
    | .stealing save attempts =>
      some (goto (removeLock state removed) call (.acquiring save (attempts + 1)))
    | _ => none
  | .readRevision call =>
    match state.phase call with
    | .holding save =>
      -- an error here returns while the lock is still there
      match loadCatalog format state.file with
      | none => some (goto state call (.ended false))
      | some actual =>
        if save.seen.map format.revision = actual.map format.revision then
          some (goto state call (.checked save))
        else some (goto state call (.releasing false))
    | _ => none
  | .readRevisionFails call =>
    match state.phase call with
    | .holding _ => some (goto state call (.ended false))
    | _ => none
  | .replace call =>
    match state.phase call with
    | .checked save => some (goto (replaceFile format state save) call (.releasing true))
    | _ => none
  | .replaceFails call =>
    match state.phase call with
    | .checked _ => some (goto state call (.releasing false))
    | _ => none
  | .removeLock call removed =>
    match state.phase call with
    | .releasing succeeded => some (goto (removeLock state removed) call (.ended succeeded))
    | _ => none
  | .clear => some { state with file := none, changes := state.changes + 1 }
  | .crash call => some (goto state call (.ended false))

/-- An account before the calls: any catalog file, and perhaps a lock left behind. -/
def initial (file : Option Catalog) (lock : Option LockFile) : CatalogState Catalog where
  file := file
  lock := lock
  phase := fun _ => .start
  changes := 0
  past := (file.map format.revision).toList
  replaced := []

/-- No call has begun. -/
def Initial (state : CatalogState Catalog) : Prop :=
  ∃ file lock, state = initial format file lock

/-- The steps at which no update can get lost: a lock is stolen only from a save that
has ended, nothing is cleared while a save is between its check and its replacement,
and a save writes a revision that the account has not had. -/
def Orderly (state : CatalogState Catalog) : CatalogAction Catalog → Prop
  | .stealLock _ removed => removed = true → ∀ lock, state.lock = some lock →
      (state.phase lock.owner).critical = false
  | .clear => ∀ call, (state.phase call).isChecked = false
  | .replace call => ∀ save, state.phase call = .checked save →
      format.revision save.catalog ∉ state.past
  | _ => True

/-! ## What every state of an orderly run looks like -/

/-- The invariant: who is between lock and unlock owns the lock file, a checked save
still finds its revision, and a file with the revision that an open save started from
is the catalog it started from. -/
structure Inv (state : CatalogState Catalog) : Prop where
  owns : ∀ call, (state.phase call).critical = true →
    ∃ lock, state.lock = some lock ∧ lock.owner = call
  agrees : ∀ call save, state.phase call = .checked save →
    save.seen.map format.revision = state.file.map format.revision
  unchanged : ∀ call seen stamp, (state.phase call).origin = some (some seen, stamp) →
    ∀ found, state.file = some found → format.revision found = format.revision seen →
      found = seen ∧ state.changes = stamp
  known : ∀ call seen stamp, (state.phase call).origin = some (some seen, stamp) →
    format.revision seen ∈ state.past
  current : ∀ found, state.file = some found → format.revision found ∈ state.past
  gone : ∀ revision ∈ state.replaced, revision ∈ state.past ∧
    ∀ found, state.file = some found → format.revision found ≠ revision
  once : state.replaced.Nodup

variable {format} {state next : CatalogState Catalog}

theorem Inv.initial (file : Option Catalog) (lock : Option LockFile) :
    Inv format (initial format file lock) where
  owns := fun call critical => by cases critical
  agrees := fun call save checked => by cases checked
  unchanged := fun call seen stamp opened => by cases opened
  known := fun call seen stamp opened => by cases opened
  current := fun found held => by
    change file = some found at held
    simp [CatalogFile.initial, held]
  gone := fun revision member => by cases member
  once := List.nodup_nil

section

variable (inv : Inv format state)
include inv

/-- A call may go to a phase that the files and the history bear out. -/
theorem Inv.goto
    (owns : phase.critical = true → ∃ lock, state.lock = some lock ∧ lock.owner = call)
    (agrees : ∀ save, phase = .checked save →
      save.seen.map format.revision = state.file.map format.revision)
    (opened : ∀ seen stamp, phase.origin = some (some seen, stamp) →
      (∀ found, state.file = some found → format.revision found = format.revision seen →
        found = seen ∧ state.changes = stamp) ∧ format.revision seen ∈ state.past) :
    Inv format (goto state call phase) := by
  have phases : ∀ other, (CatalogFile.goto state call phase).phase other =
      if other = call then phase else state.phase other :=
    fun other => Function.update_apply ..
  refine ⟨?_, ?_, ?_, ?_, inv.current, inv.gone, inv.once⟩
  · intro other critical
    rw [phases] at critical
    split_ifs at critical with same
    · subst same
      exact owns critical
    · exact inv.owns other critical
  · intro other save checked
    rw [phases] at checked
    split_ifs at checked with same
    · exact agrees save checked
    · exact inv.agrees other save checked
  · intro other seen stamp origin
    rw [phases] at origin
    split_ifs at origin with same
    · exact (opened seen stamp origin).1
    · exact inv.unchanged other seen stamp origin
  · intro other seen stamp origin
    rw [phases] at origin
    split_ifs at origin with same
    · exact (opened seen stamp origin).2
    · exact inv.known other seen stamp origin

/-- Most steps of a call read the files only and keep what the save started from. -/
theorem Inv.goto_open (owns : phase.critical = true → (state.phase call).critical = true)
    (agrees : ∀ save, phase = .checked save →
      save.seen.map format.revision = state.file.map format.revision)
    (origin : ∀ seen, phase.origin = some seen → (state.phase call).origin = some seen) :
    Inv format (CatalogFile.goto state call phase) := by
  apply inv.goto
  · intro critical
    exact inv.owns call (owns critical)
  · exact agrees
  · intro seen stamp opened
    have before := origin _ opened
    exact ⟨inv.unchanged call seen stamp before, inv.known call seen stamp before⟩

/-- The lock file may go while no save is between lock and unlock. -/
theorem Inv.removeLock {removed : Bool}
    (idle : removed = true → ∀ call, (state.phase call).critical = false) :
    Inv format (removeLock state removed) := by
  refine ⟨?_, inv.agrees, inv.unchanged, inv.known, inv.current, inv.gone, inv.once⟩
  intro call critical
  cases removed with
  | false => exact inv.owns call critical
  | true =>
    have quiet := idle rfl call
    change (state.phase call).critical = true at critical
    rw [quiet] at critical
    cases critical

/-- Only the owner of the lock is between lock and unlock. -/
theorem Inv.owner_of_critical {other : Nat} (one : (state.phase call).critical = true)
    (two : (state.phase other).critical = true) :
    call = other := by
  obtain ⟨lock, held, rfl⟩ := inv.owns call one
  obtain ⟨same, again, rfl⟩ := inv.owns other two
  rw [Option.some.inj (held.symm.trans again)]

theorem Inv.createLock {modified : Nat} {attempts : Nat}
    (phase : state.phase call = .acquiring save attempts) (free : state.lock = none) :
    Inv format (CatalogFile.goto { state with lock := some ⟨call, modified⟩ } call
      (.holding save)) := by
  have idle : ∀ other, (state.phase other).critical = false := by
    intro other
    by_contra busy
    obtain ⟨lock, held, _⟩ := inv.owns other (by simpa using busy)
    rw [free] at held
    cases held
  have locked : Inv format { state with lock := some ⟨call, modified⟩ } := by
    refine ⟨?_, inv.agrees, inv.unchanged, inv.known, inv.current, inv.gone, inv.once⟩
    intro other critical
    change (state.phase other).critical = true at critical
    rw [idle other] at critical
    cases critical
  apply locked.goto
  · intro _
    exact ⟨⟨call, modified⟩, rfl, rfl⟩
  · intro other checked
    cases checked
  · intro seen stamp opened
    have before : (state.phase call).origin = some (some seen, stamp) := by
      rw [phase]
      exact opened
    exact ⟨inv.unchanged call seen stamp before, inv.known call seen stamp before⟩

/-- The catalog that a save replaces is the one its caller had loaded, and nothing was
saved or cleared since. -/
theorem Inv.replaces_loaded (phase : state.phase call = .checked save) {seen : Catalog}
    (given : save.seen = some seen) :
    state.file = some seen ∧ state.changes = save.stamp := by
  have agrees := inv.agrees call save phase
  rw [given] at agrees
  obtain ⟨found, held, same⟩ := Option.map_eq_some_iff.mp agrees.symm
  have opened : (state.phase call).origin = some (some seen, save.stamp) := by
    rw [phase, SavePhase.origin, given]
  obtain ⟨rfl, stamp⟩ := inv.unchanged call seen save.stamp opened found held same
  exact ⟨held, stamp⟩

theorem Inv.replace (phase : state.phase call = .checked save)
    (new : format.revision save.catalog ∉ state.past) :
    Inv format (CatalogFile.goto (replaceFile format state save) call (.releasing true)) := by
  have critical : (state.phase call).critical = true := by rw [phase]; rfl
  have phases : ∀ other, (CatalogFile.goto (replaceFile format state save) call
      (.releasing true)).phase other = if other = call then .releasing true
        else state.phase other := fun other => Function.update_apply ..
  -- the revision that is replaced is the one the file has now
  have expected : ∀ revision ∈ (save.seen.map format.revision).toList,
      state.file.map format.revision = some revision := by
    intro revision member
    rw [← inv.agrees call save phase]
    exact Option.mem_toList.mp member
  have held : ∀ revision ∈ (save.seen.map format.revision).toList, revision ∈ state.past := by
    intro revision member
    obtain ⟨found, file, rfl⟩ := Option.map_eq_some_iff.mp (expected revision member)
    exact inv.current found file
  refine ⟨?_, ?_, ?_, ?_, ?_, ?_, ?_⟩
  · intro other busy
    rw [phases] at busy
    split_ifs at busy with same
    · subst same
      exact inv.owns other critical
    · exact inv.owns other busy
  · intro other otherSave checked
    rw [phases] at checked
    split_ifs at checked with same
    exact absurd (inv.owner_of_critical (by rw [checked]; rfl) critical) same
  · intro other seen stamp opened found file same
    rw [phases] at opened
    split_ifs at opened with one
    · cases opened
    · obtain rfl := Option.some.inj file
      exact absurd (same ▸ inv.known other seen stamp opened) new
  · intro other seen stamp opened
    rw [phases] at opened
    split_ifs at opened with one
    · cases opened
    · exact List.mem_cons_of_mem _ (inv.known other seen stamp opened)
  · intro found file
    obtain rfl := Option.some.inj file
    exact List.mem_cons_self
  · intro revision member
    have past : revision ∈ state.past := by
      rcases List.mem_append.mp member with now | before
      · exact held revision now
      · exact (inv.gone revision before).1
    refine ⟨List.mem_cons_of_mem _ past, ?_⟩
    intro found file same
    obtain rfl := Option.some.inj file
    exact new (same ▸ past)
  · change ((save.seen.map format.revision).toList ++ state.replaced).Nodup
    rw [List.nodup_append]
    refine ⟨?_, inv.once, ?_⟩
    · cases save.seen <;> simp
    · intro revision now other before same
      subst same
      obtain ⟨found, file, rfl⟩ := Option.map_eq_some_iff.mp (expected revision now)
      exact (inv.gone _ before).2 found file rfl

theorem Inv.clear (unchecked : ∀ call, (state.phase call).isChecked = false) :
    Inv format { state with file := none, changes := state.changes + 1 } where
  owns := inv.owns
  agrees := fun call save checked => by
    have quiet := unchecked call
    change state.phase call = .checked save at checked
    rw [checked] at quiet
    cases quiet
  unchanged := fun call seen stamp _ found file => by cases file
  known := inv.known
  current := fun found file => by cases file
  gone := fun revision member => ⟨(inv.gone revision member).1, fun found file => by cases file⟩
  once := inv.once

theorem Inv.load {seen : Option Catalog} (read : loadCatalog format state.file = some seen) :
    Inv format (CatalogFile.goto state call (.loaded seen state.changes)) := by
  have whole := loadCatalog_eq_some format read
  apply inv.goto
  · intro critical
    cases critical
  · intro save checked
    cases checked
  · intro catalog stamp opened
    obtain ⟨rfl, rfl⟩ := Prod.mk.inj (Option.some.inj opened)
    have file := whole.symm
    refine ⟨?_, inv.current catalog file⟩
    intro found held _
    exact ⟨Option.some.inj (held.symm.trans file), rfl⟩

end

theorem Inv.step {action : CatalogAction Catalog} (inv : Inv format state)
    (orderly : Orderly format state action)
    (taken : CatalogFile.step format state action = some next) : Inv format next := by
  cases action with
  | load call =>
    simp only [CatalogFile.step] at taken
    split at taken
    · rename_i seen phase read
      obtain rfl := Option.some.inj taken
      exact inv.load read
    · cases taken
  | save call catalog =>
    simp only [CatalogFile.step] at taken
    split at taken
    · rename_i seen stamp phase
      split_ifs at taken <;> obtain rfl := Option.some.inj taken
      · exact inv.goto_open (by simp [SavePhase.critical]) (by simp)
          (by simp [phase, SavePhase.origin])
      · exact inv.goto_open (by simp [SavePhase.critical]) (by simp) (by simp [SavePhase.origin])
    · cases taken
  | createLock call modified =>
    simp only [CatalogFile.step] at taken
    split at taken
    · rename_i save attempts phase free
      obtain rfl := Option.some.inj taken
      exact inv.createLock phase free
    · rename_i save attempts lock phase held
      obtain rfl := Option.some.inj taken
      exact inv.goto_open (by simp [SavePhase.critical]) (by simp)
        (by simp [phase, SavePhase.origin])
    · cases taken
  | createLockFails call =>
    simp only [CatalogFile.step] at taken
    split at taken
    · obtain rfl := Option.some.inj taken
      exact inv.goto_open (by simp [SavePhase.critical]) (by simp) (by simp [SavePhase.origin])
    · cases taken
  | lockIsStale call now =>
    simp only [CatalogFile.step] at taken
    split at taken
    · rename_i save attempts phase
      split_ifs at taken <;> obtain rfl := Option.some.inj taken
      · exact inv.goto_open (by simp [SavePhase.critical]) (by simp) (by simp [SavePhase.origin])
      · exact inv.goto_open (by simp [SavePhase.critical]) (by simp)
          (by simp [phase, SavePhase.origin])
    · cases taken
  | stealLock call removed =>
    simp only [CatalogFile.step] at taken
    split at taken
    · rename_i save attempts phase
      obtain rfl := Option.some.inj taken
      have idle : removed = true → ∀ other, (state.phase other).critical = false := by
        intro gone other
        by_contra busy
        obtain ⟨lock, held, rfl⟩ := inv.owns other (by simpa using busy)
        exact busy (orderly gone lock held)
      exact (inv.removeLock idle).goto_open (by simp [SavePhase.critical]) (by simp)
        (by simp [CatalogFile.removeLock, phase, SavePhase.origin])
    · cases taken
  | readRevision call =>
    simp only [CatalogFile.step] at taken
    split at taken
    · rename_i save phase
      split at taken
      · obtain rfl := Option.some.inj taken
        exact inv.goto_open (by simp [SavePhase.critical]) (by simp) (by simp [SavePhase.origin])
      · rename_i actual read
        have whole := loadCatalog_eq_some format read
        split_ifs at taken with same <;> obtain rfl := Option.some.inj taken
        · apply inv.goto_open (by simp [phase, SavePhase.critical])
          · intro other equal
            obtain rfl := SavePhase.checked.inj equal
            rw [same, whole]
          · simp [phase, SavePhase.origin]
        · exact inv.goto_open (by simp [phase, SavePhase.critical]) (by simp)
            (by simp [SavePhase.origin])
    · cases taken
  | readRevisionFails call =>
    simp only [CatalogFile.step] at taken
    split at taken
    · obtain rfl := Option.some.inj taken
      exact inv.goto_open (by simp [SavePhase.critical]) (by simp) (by simp [SavePhase.origin])
    · cases taken
  | replace call =>
    simp only [CatalogFile.step] at taken
    split at taken
    · rename_i save phase
      obtain rfl := Option.some.inj taken
      exact inv.replace phase (orderly save phase)
    · cases taken
  | replaceFails call =>
    simp only [CatalogFile.step] at taken
    split at taken
    · rename_i save phase
      obtain rfl := Option.some.inj taken
      exact inv.goto_open (by simp [phase, SavePhase.critical]) (by simp)
        (by simp [SavePhase.origin])
    · cases taken
  | removeLock call removed =>
    simp only [CatalogFile.step] at taken
    split at taken
    · rename_i succeeded phase
      obtain rfl := Option.some.inj taken
      have released : Inv format (CatalogFile.goto state call (.ended succeeded)) :=
        inv.goto_open (by simp [SavePhase.critical]) (by simp) (by simp [SavePhase.origin])
      -- the call itself was the only one between lock and unlock
      have idle : ∀ other, ((CatalogFile.goto state call (.ended succeeded)).phase other).critical =
          false := by
        intro other
        change (Function.update state.phase call (.ended succeeded) other).critical = false
        rw [Function.update_apply]
        split_ifs with same
        · rfl
        · by_contra busy
          exact same (inv.owner_of_critical (by simpa using busy) (by rw [phase]; rfl))
      exact released.removeLock fun _ => idle
    · cases taken
  | clear =>
    obtain rfl := Option.some.inj taken
    exact inv.clear orderly
  | crash call =>
    obtain rfl := Option.some.inj taken
    exact inv.goto_open (by simp [SavePhase.critical]) (by simp) (by simp [SavePhase.origin])

/-- Every state of a run of orderly steps has the invariant. -/
theorem inv_of_reaches
    (reached : Reaches (CatalogFile.step format) (Orderly format) (Initial format) state) :
    Inv format state := by
  apply reached.invariant
  · rintro _ ⟨file, lock, rfl⟩
    exact Inv.initial file lock
  · intro before action after inv orderly taken
    exact inv.step orderly taken

/-- Catalogs that are their revision. -/
def numbered : CatalogFormat Nat where
  revision := id
  validates := fun _ => true

/-- **No update is lost.** In every state of a run of orderly steps, a save that is about
to replace the file replaces exactly the catalog that its caller had loaded, with no
save or clear since then; and no two saves succeeded for one expected revision. -/
theorem catalog_save_replaces_loaded
    (reached : Reaches (CatalogFile.step format) (Orderly format) (Initial format) state) :
    (∀ call next save seen, state.phase call = .checked save → save.seen = some seen →
      CatalogFile.step format state (.replace call) = some next →
        state.file = some seen ∧ state.changes = save.stamp) ∧
    state.replaced.Nodup := by
  have inv := inv_of_reaches reached
  refine ⟨?_, inv.once⟩
  intro call next save seen phase given _
  exact inv.replaces_loaded phase given

/-- A save on its own replaces what it loaded. -/
theorem lone_save_replaces_loaded : ∃ state,
    runActions (CatalogFile.step numbered) (CatalogFile.initial numbered (some 1) none)
      [.load 0, .save 0 2, .createLock 0 0, .readRevision 0] = some state ∧
    state.file = some 1 ∧ state.changes = 0 := by
  refine ⟨_, rfl, ?_⟩
  have empty : Reaches (CatalogFile.step numbered) (Orderly numbered) (Initial numbered)
      (CatalogFile.initial numbered (some 1) none) := .start ⟨some 1, none, rfl⟩
  have loaded := empty.take (.load 0) trivial rfl
  have begun := loaded.take (.save 0 2) trivial rfl
  have locked := begun.take (.createLock 0 0) trivial rfl
  have checked := locked.take (.readRevision 0) trivial rfl
  exact (catalog_save_replaces_loaded checked).1 0 _ ⟨some 1, 0, 2⟩ 1 rfl rfl rfl

/-- A writer pauses between its check and its replacement. After thirty seconds a second
one takes its lock for abandoned, and both replace the catalog that they loaded with
revision 1. -/
theorem stale_lock_loses_update : ∃ state next,
    runActions (CatalogFile.step numbered) (CatalogFile.initial numbered (some 1) none)
      [.load 0, .load 1, .save 0 2, .save 1 3, .createLock 0 0, .readRevision 0,
        .createLock 1 30, .lockIsStale 1 30, .stealLock 1 true, .createLock 1 30,
        .readRevision 1, .replace 1] = some state ∧
    state.phase 0 = .checked ⟨some 1, 0, 2⟩ ∧
    CatalogFile.step numbered state (.replace 0) = some next ∧
    state.file = some 3 ∧ state.changes = 1 ∧ next.replaced = [1, 1] := by
  exact ⟨_, _, rfl, rfl, rfl, rfl, rfl, rfl⟩

end CatalogFile

end ZManager.Identity
