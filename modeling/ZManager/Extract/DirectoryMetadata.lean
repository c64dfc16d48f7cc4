import Mathlib.Data.List.Infix
import Mathlib.Logic.Function.Basic
import Mathlib.Tactic.SplitIfs
import ZManager.Foundation.Calendar
import ZManager.Foundation.FileSystem
import ZManager.Foundation.Step

/-! # Deferred directory metadata

Directories get their archived modes and times after everything else is
extracted. A mode without the search bit closes what is below the directory, so
it matters in which order nested directories are stamped. ZIP goes through the
directories in reverse archive order, TAR and CPIO in archive order.
-/

namespace ZManager

/-- A directory of an archive whose metadata is applied at the end. -/
structure DeferredDirectory where
  path : Location
  mode : Option UInt32
  mtime : Option FileTime

/-- The archive has metadata for the directory. -/
def DeferredDirectory.Acts (directory : DeferredDirectory) : Prop :=
  directory.mode.isSome ∨ directory.mtime.isSome

instance (directory : DeferredDirectory) : Decidable directory.Acts :=
  inferInstanceAs (Decidable (_ ∨ _))

/-- The directories on the disk with their modes and times, as the extracting user, who
owns them, sees them. -/
@[ext] structure DirectoryTree where
  mode : Location → Option UInt32
  mtime : Location → FileTime

/-- The search permission of the owner. -/
def grantsSearch (mode : UInt32) : Bool := mode &&& 0o100 != 0

/-- Permission bits preserved when restoring entry modes. -/
def modeMask : UInt32 := 0o7777

theorem grantsSearch_masked (mode : UInt32) : grantsSearch (mode &&& modeMask) =
    grantsSearch mode := by
  unfold grantsSearch modeMask
  rw [UInt32.and_assoc]
  rfl

namespace DirectoryTree

variable {path : Location}

/-- Every proper ancestor of the path is a directory that may be searched. -/
def Reaches (tree : DirectoryTree) (path : Location) : Prop :=
  ∀ length < path.length, ∃ mode, tree.mode (path.take length) = some mode ∧ grantsSearch mode

instance (tree : DirectoryTree) (path : Location) : Decidable (tree.Reaches path) :=
  decidable_of_iff (∀ length < path.length, (tree.mode (path.take length)).any grantsSearch) <| by
    simp only [Option.any_eq_true]
    rfl

/-- A change of an object, which needs a way to it. -/
def change (tree : DirectoryTree) (path : Location) (changed : DirectoryTree) :
    Except IoErrorKind DirectoryTree :=
  if tree.Reaches path then
    if (tree.mode path).isSome then .ok changed else .error .notFound
  else .error .permissionDenied

/-- Sets the modification time at a path. -/
def setFileMtime (tree : DirectoryTree) (path : Location) (mtime : FileTime) :
    Except IoErrorKind DirectoryTree :=
  tree.change path { tree with mtime := Function.update tree.mtime path mtime }

/-- Sets the mode at a path. -/
def setPermissions (tree : DirectoryTree) (path : Location) (mode : UInt32) :
    Except IoErrorKind DirectoryTree :=
  tree.change path { tree with mode := Function.update tree.mode path (some mode) }

/-- Applies restored mode bits and modification time to an extracted path. -/
def applyMetadata (tree : DirectoryTree) (directory : DeferredDirectory) :
    Except IoErrorKind DirectoryTree := do
  let stamped ← match directory.mtime with
    | none => .ok tree
    | some mtime => tree.setFileMtime directory.path mtime
  match directory.mode with
  | none => .ok stamped
  | some mode => stamped.setPermissions directory.path (mode &&& modeMask)

/-- The last loop of a TAR extraction. -/
def tarDirectoryPass (directories : List DeferredDirectory) (tree : DirectoryTree) :
    Except IoErrorKind DirectoryTree :=
  directories.foldlM applyMetadata tree

/-- The last loop of a CPIO extraction. -/
def cpioDirectoryPass (directories : List DeferredDirectory) (tree : DirectoryTree) :
    Except IoErrorKind DirectoryTree :=
  directories.foldlM applyMetadata tree

/-- Applies metadata to deferred directory entries in reverse archive order. -/
def applyDeferredDirectoryMetadata (directories : List DeferredDirectory) (tree : DirectoryTree) :
    Except IoErrorKind DirectoryTree :=
  directories.reverse.foldlM applyMetadata tree

/-- The last step of a ZIP extraction. -/
def zipDirectoryPass (directories : List DeferredDirectory) (tree : DirectoryTree) :
    Except IoErrorKind DirectoryTree :=
  applyDeferredDirectoryMetadata directories tree

/-- The directory after its metadata is applied; what the archive leaves out stays. -/
def stamp (tree : DirectoryTree) (directory : DeferredDirectory) : DirectoryTree where
  mode := Function.update tree.mode directory.path
    ((directory.mode.map (· &&& modeMask)).or (tree.mode directory.path))
  mtime := Function.update tree.mtime directory.path
    (directory.mtime.getD (tree.mtime directory.path))

variable {tree after : DirectoryTree} {directory : DeferredDirectory}

theorem stamp_mode_of_ne (other : path ≠ directory.path) :
    (tree.stamp directory).mode path = tree.mode path :=
  Function.update_of_ne other _ _

theorem stamp_mtime_of_ne (other : path ≠ directory.path) :
    (tree.stamp directory).mtime path = tree.mtime path :=
  Function.update_of_ne other _ _

@[simp] theorem stamp_mode_self : (tree.stamp directory).mode directory.path =
    (directory.mode.map (· &&& modeMask)).or (tree.mode directory.path) :=
  Function.update_self _ _ _

@[simp] theorem stamp_mtime_self : (tree.stamp directory).mtime directory.path =
    directory.mtime.getD (tree.mtime directory.path) :=
  Function.update_self _ _ _

theorem change_eq_ok_iff {changed : DirectoryTree} :
    tree.change path changed = .ok after ↔
      after = changed ∧ tree.Reaches path ∧ (tree.mode path).isSome := by
  unfold change
  split_ifs with reached present
  · simp [reached, present, eq_comm]
  · simp [present]
  · simp [reached]

/-- Applying metadata stamps the directory, and needs a way to it if there is any. -/
theorem applyMetadata_eq_ok_iff : tree.applyMetadata directory = .ok after ↔
    after = tree.stamp directory ∧
      (directory.Acts → tree.Reaches directory.path ∧ (tree.mode directory.path).isSome) := by
  obtain ⟨path, mode, mtime⟩ := directory
  cases mtime with
  | none =>
    cases mode with
    | none =>
      have same : tree.stamp ⟨path, none, none⟩ = tree := by
        unfold stamp
        ext1
        · exact Function.update_eq_self path tree.mode
        · exact Function.update_eq_self path tree.mtime
      rw [same]
      change Except.ok tree = Except.ok after ↔ _
      constructor
      · intro finished
        cases finished
        exact ⟨rfl, fun acts => by simp [DeferredDirectory.Acts] at acts⟩
      · rintro ⟨rfl, _⟩
        rfl
    | some mode =>
      have stamped : tree.stamp ⟨path, some mode, none⟩ =
          { tree with mode := Function.update tree.mode path (some (mode &&& modeMask)) } := by
        unfold stamp
        ext1
        · rfl
        · exact Function.update_eq_self path tree.mtime
      rw [stamped]
      exact change_eq_ok_iff.trans (and_congr_right fun _ =>
        ⟨fun allowed _ => allowed, fun allowed => allowed (.inl rfl)⟩)
  | some mtime =>
    refine Except.bind_eq_ok_iff.trans ?_
    cases mode with
    | none =>
      have stamped : tree.stamp ⟨path, none, some mtime⟩ =
          { tree with mtime := Function.update tree.mtime path mtime } := by
        unfold stamp
        ext1
        · exact Function.update_eq_self path tree.mode
        · rfl
      rw [stamped]
      constructor
      · rintro ⟨middle, timed, finished⟩
        cases finished
        obtain ⟨same, allowed⟩ := change_eq_ok_iff.mp timed
        exact ⟨same, fun _ => allowed⟩
      · rintro ⟨rfl, allowed⟩
        exact ⟨_, change_eq_ok_iff.mpr ⟨rfl, allowed (.inr rfl)⟩, rfl⟩
    | some mode =>
      constructor
      · rintro ⟨middle, timed, finished⟩
        obtain ⟨rfl, allowed⟩ := change_eq_ok_iff.mp timed
        exact ⟨(change_eq_ok_iff.mp finished).1, fun _ => allowed⟩
      · rintro ⟨rfl, allowed⟩
        exact ⟨_, change_eq_ok_iff.mpr ⟨rfl, allowed (.inl rfl)⟩,
          change_eq_ok_iff.mpr ⟨rfl, allowed (.inl rfl)⟩⟩

/-- Every directory has the mode and time that the archive has for it. -/
def Restored (before : DirectoryTree) (directories : List DeferredDirectory)
    (after : DirectoryTree) : Prop :=
  ∀ directory ∈ directories,
    after.mode directory.path =
        (directory.mode.map (· &&& modeMask)).or (before.mode directory.path) ∧
      after.mtime directory.path = directory.mtime.getD (before.mtime directory.path)

/-- Directories at different places. -/
def Distinct (directories : List DeferredDirectory) : Prop :=
  directories.Pairwise fun one two => one.path ≠ two.path

/-- A mode that is set before something below the directory is changed grants search. -/
def KeepsSearch (directories : List DeferredDirectory) : Prop :=
  directories.Pairwise fun earlier later => earlier.path <+: later.path → later.Acts →
    ∀ mode ∈ earlier.mode, grantsSearch mode

/-- There is a way to every directory that is to be changed. -/
def Ready (directories : List DeferredDirectory) (tree : DirectoryTree) : Prop :=
  ∀ directory ∈ directories, directory.Acts →
    tree.Reaches directory.path ∧ (tree.mode directory.path).isSome

variable {directories rest : List DeferredDirectory}

theorem foldl_stamp_frame {path : Location}
    (apart : ∀ directory ∈ directories, path ≠ directory.path) :
    (directories.foldl stamp tree).mode path = tree.mode path ∧
      (directories.foldl stamp tree).mtime path = tree.mtime path := by
  induction directories generalizing tree with
  | nil => exact ⟨rfl, rfl⟩
  | cons directory rest ih =>
    obtain ⟨mode, mtime⟩ := @ih (tree.stamp directory)
      fun other member => apart other (List.mem_cons_of_mem _ member)
    have here := apart directory List.mem_cons_self
    exact ⟨mode.trans (stamp_mode_of_ne here), mtime.trans (stamp_mtime_of_ne here)⟩

theorem foldl_stamp_restored (distinct : Distinct directories) :
    Restored tree directories (directories.foldl stamp tree) := by
  induction directories generalizing tree with
  | nil => exact fun _ member => absurd member List.not_mem_nil
  | cons directory rest ih =>
    obtain ⟨apart, distinct⟩ := List.pairwise_cons.mp distinct
    intro other member
    rcases List.mem_cons.mp member with rfl | inside
    · obtain ⟨mode, mtime⟩ := @foldl_stamp_frame (tree.stamp other) rest other.path apart
      exact ⟨mode.trans stamp_mode_self, mtime.trans stamp_mtime_self⟩
    · have ne := (apart other inside).symm
      have restored := @ih (tree.stamp directory) distinct other inside
      rw [stamp_mode_of_ne ne, stamp_mtime_of_ne ne] at restored
      exact restored

/-- Stamping one directory leaves the ways to the others open. -/
theorem Reaches.stamp (reaches : tree.Reaches path)
    (keeps : directory.path <+: path → ∀ mode ∈ directory.mode, grantsSearch mode) :
    (tree.stamp directory).Reaches path := by
  intro length less
  obtain ⟨mode, here, search⟩ := reaches length less
  by_cases same : path.take length = directory.path
  · rw [same] at here ⊢
    rw [stamp_mode_self]
    cases set : directory.mode with
    | none => exact ⟨mode, here, search⟩
    | some given =>
      refine ⟨given &&& modeMask, rfl, ?_⟩
      rw [grantsSearch_masked]
      exact keeps (same ▸ List.take_prefix length path) given set
  · rw [stamp_mode_of_ne same]
    exact ⟨mode, here, search⟩

theorem stamp_mode_isSome (present : (tree.mode path).isSome) :
    ((tree.stamp directory).mode path).isSome := by
  by_cases same : path = directory.path
  · rw [same] at present ⊢
    rw [stamp_mode_self]
    cases directory.mode with
    | none => exact present
    | some mode => rfl
  · rw [stamp_mode_of_ne same]
    exact present

/-- A pass succeeds when the modes that it sets keep the ways open that it needs later. -/
theorem foldlM_applyMetadata (keeps : KeepsSearch directories) (ready : Ready directories tree) :
    directories.foldlM applyMetadata tree = .ok (directories.foldl stamp tree) := by
  induction directories generalizing tree with
  | nil => rfl
  | cons directory rest ih =>
    obtain ⟨open_, keeps⟩ := List.pairwise_cons.mp keeps
    rw [List.foldlM_cons, applyMetadata_eq_ok_iff.mpr ⟨rfl, ready directory List.mem_cons_self⟩]
    apply ih keeps
    intro other inside acts
    obtain ⟨reaches, present⟩ := ready other (List.mem_cons_of_mem _ inside) acts
    exact ⟨reaches.stamp fun above => open_ other inside above acts, stamp_mode_isSome present⟩

/-- A proper ancestor is a place that the way to the path passes. -/
theorem Reaches.ancestor {above : Location} (reaches : tree.Reaches path)
    (isPrefix : above <+: path) (proper : above ≠ path) :
    ∃ mode, tree.mode above = some mode ∧ grantsSearch mode := by
  have shorter : above.length < path.length := by
    apply Nat.lt_of_le_of_ne isPrefix.length_le
    intro same
    exact proper (isPrefix.eq_of_length same)
  have here := reaches above.length shorter
  rwa [← List.prefix_iff_eq_take.mp isPrefix] at here

/-- A pass that succeeds found every way open, those through directories that it had not
stamped and those through directories that it had. -/
theorem keepsSearch_of_foldlM (distinct : Distinct directories)
    (finished : directories.foldlM applyMetadata tree = .ok after) :
    (∀ directory ∈ directories, directory.Acts → ∀ above, above <+: directory.path →
      (∀ other ∈ directories, other.path ≠ above) →
        ∃ mode, tree.mode above = some mode ∧ grantsSearch mode) ∧ KeepsSearch directories := by
  induction directories generalizing tree with
  | nil => exact ⟨fun _ member => absurd member List.not_mem_nil, List.Pairwise.nil⟩
  | cons directory rest ih =>
    obtain ⟨apart, distinct⟩ := List.pairwise_cons.mp distinct
    rw [List.foldlM_cons] at finished
    obtain ⟨middle, applied, finished⟩ := Except.bind_eq_ok_iff.mp finished
    obtain ⟨rfl, allowed⟩ := applyMetadata_eq_ok_iff.mp applied
    obtain ⟨passed, keeps⟩ := ih distinct finished
    constructor
    · intro other member acts above isPrefix unlisted
      have here := unlisted directory List.mem_cons_self
      rcases List.mem_cons.mp member with rfl | inside
      · exact (allowed acts).1.ancestor isPrefix here.symm
      · have open_ := passed other inside acts above isPrefix fun one member =>
          unlisted one (List.mem_cons_of_mem _ member)
        rwa [stamp_mode_of_ne here.symm] at open_
    · refine List.pairwise_cons.mpr ⟨?_, keeps⟩
      intro later inside isPrefix acts mode set
      obtain ⟨found, here, search⟩ := passed later inside acts directory.path isPrefix
        fun one member => (apart one member).symm
      rw [stamp_mode_self, Option.mem_def.mp set] at here
      cases here
      rwa [grantsSearch_masked] at search

/-- Each directory comes after its ancestors, and once. -/
def AncestorsFirst (directories : List DeferredDirectory) : Prop :=
  directories.Pairwise fun earlier later => ¬ later.path <+: earlier.path

theorem AncestorsFirst.distinct (ordered : AncestorsFirst directories) : Distinct directories := by
  apply List.Pairwise.imp ?_ ordered
  intro one two below same
  exact below (same ▸ List.prefix_refl _)

/-- The ZIP pass restores every list of directories. -/
theorem zipDirectoryPass_restores (ordered : AncestorsFirst directories)
    (ready : Ready directories tree) :
    ∃ after, zipDirectoryPass directories tree = .ok after ∧ tree.Restored directories after := by
  refine ⟨directories.reverse.foldl stamp tree, foldlM_applyMetadata ?_ ?_, ?_⟩
  · apply List.pairwise_reverse.mpr
    apply List.Pairwise.imp ?_ ordered
    intro earlier later below above
    exact absurd above below
  · intro directory member
    exact ready directory (List.mem_reverse.mp member)
  · intro directory member
    have distinct : Distinct directories.reverse := by
      apply List.pairwise_reverse.mpr
      exact ordered.distinct.imp Ne.symm
    exact foldl_stamp_restored distinct directory (List.mem_reverse.mpr member)

/-- **Directory metadata is restored.** The last passes of all three backends succeed and
leave every directory with its own mode and time exactly when no directory is given a mode
without search permission while something below it is still to be changed. -/
theorem directory_metadata_restored_iff (directories : List DeferredDirectory)
    (tree : DirectoryTree) (ordered : AncestorsFirst directories)
    (ready : Ready directories tree) :
    (∀ pass ∈ [tarDirectoryPass, cpioDirectoryPass, zipDirectoryPass],
      ∃ after, pass directories tree = .ok after ∧ tree.Restored directories after) ↔
        KeepsSearch directories := by
  constructor
  · intro restores
    obtain ⟨after, finished, _⟩ := restores tarDirectoryPass List.mem_cons_self
    exact (keepsSearch_of_foldlM ordered.distinct finished).2
  · intro keeps pass member
    have forward : ∃ after, directories.foldlM applyMetadata tree = .ok after ∧
        tree.Restored directories after :=
      ⟨_, foldlM_applyMetadata keeps ready, foldl_stamp_restored ordered.distinct⟩
    simp only [List.mem_cons, List.not_mem_nil, or_false] at member
    rcases member with rfl | rfl | rfl
    · exact forward
    · exact forward
    · exact zipDirectoryPass_restores ordered ready

/-- A tree of open directories. -/
def openTree (paths : List Location) : DirectoryTree where
  mode path := if path ∈ paths then some 0o755 else none
  mtime _ := ⟨0, 0⟩

/-- A directory that can be searched and one below it that cannot. -/
theorem inner_mode_restored :
    ∃ after, cpioDirectoryPass
          [⟨["a".toList], some 0o700, none⟩, ⟨["a".toList, "b".toList], some 0, none⟩]
          (openTree [[], ["a".toList], ["a".toList, "b".toList]]) = .ok after ∧
        (openTree [[], ["a".toList], ["a".toList, "b".toList]]).Restored
          [⟨["a".toList], some 0o700, none⟩, ⟨["a".toList, "b".toList], some 0, none⟩] after :=
  (directory_metadata_restored_iff _ _ (by unfold AncestorsFirst; decide +kernel)
    (by unfold Ready; decide +kernel)).mpr (by
      refine List.pairwise_pair.mpr fun _ _ mode member => ?_
      cases member
      decide) cpioDirectoryPass (.tail _ (.head _))

/-- The outer directory is closed first: TAR and CPIO cannot reach the inner one. -/
theorem outer_mode_closes_the_way :
    (tarDirectoryPass [⟨["a".toList], some 0, none⟩,
      ⟨["a".toList, "b".toList], some 0o700, none⟩]
        (openTree [[], ["a".toList], ["a".toList, "b".toList]])).isOk = false ∧
    (cpioDirectoryPass [⟨["a".toList], some 0, none⟩,
      ⟨["a".toList, "b".toList], some 0o700, none⟩]
        (openTree [[], ["a".toList], ["a".toList, "b".toList]])).isOk = false := by
  decide +kernel

end DirectoryTree

end ZManager
