import ZManager.Safety.Containment

/-! # Materializing write decisions

The file-system work a backend does for one write decision: parents are
created, the destination is removed first when the decision says so, and then
the directory, file, symlink or hardlink is made. The temporary sibling a file
is written to is gone when its commit returns, so only the committed file is
modelled.

The symlinks a decision leaves behind are those that were there and at most the
one it creates at its own destination (`materialize_symlink`).
-/

namespace ZManager

variable {Content : Type}

variable {front : Location}

/-- Removes an existing destination path before an explicit overwrite write. A
symlink is removed itself. -/
def removeDestinationForReplace (fs : FileSystem Content) (path : PathBuf) :
    Except IoErrorKind (FileSystem Content) :=
  match fs.lstat path with
  | .error .notFound => .ok fs
  | .error failure => .error failure
  | .ok .directory => fs.removeDirAll path
  | .ok _ => fs.removeFile path

/-- Creates the parent directory of a path when it has one. -/
def ensureParentDir (fs : FileSystem Content) (path : PathBuf) :
    Except IoErrorKind (FileSystem Content) :=
  match path.parent with
  | some parent => fs.createDirAll parent
  | none => .ok fs

/-- Makes a symlink, with its parent directories. -/
def writeSymlink (fs : FileSystem Content) (target : Text) (destinationPath : PathBuf) :
    Except IoErrorKind (FileSystem Content) := do
  (← ensureParentDir fs destinationPath).createSymlink target destinationPath

/-- Makes a hard link, with its parent directories. -/
def writeHardlink (fs : FileSystem Content) (sourcePath destinationPath : PathBuf) :
    Except IoErrorKind (FileSystem Content) := do
  (← ensureParentDir fs destinationPath).hardLink sourcePath destinationPath

/-- Removes the destination of a decision that replaces. -/
def clearDestination (fs : FileSystem Content) (plan : PlannedWrite) :
    Except IoErrorKind (FileSystem Content) :=
  if plan.replaceExisting then removeDestinationForReplace fs plan.destinationPath else .ok fs

/-- Commits a written output file: over the removed destination when it is to be
replaced, and else only where nothing exists. -/
def commitWithReplace (fs : FileSystem Content) (plan : PlannedWrite) (content : Content) :
    Except IoErrorKind (FileSystem Content) := do
  (← clearDestination fs plan).create plan.destinationPath (.file content)

/-- Copies an entry into an output file and commits it. -/
def copyFileEntry (fs : FileSystem Content) (plan : PlannedWrite) (content : Content) :
    Except IoErrorKind (FileSystem Content) := do
  commitWithReplace (← ensureParentDir fs plan.destinationPath) plan content

/-- An entry with the plan it was accepted with. -/
abbrev Write := ExtractionEntry × PlannedWrite

variable (payload : ExtractionEntry → Content)

/-- The file-system work of one write decision. -/
def materialize (fs : FileSystem Content) (write : Write) :
    Except IoErrorKind (FileSystem Content) :=
  match write.1.kind with
  | .file => copyFileEntry fs write.2 (payload write.1)
  | .directory => do (← clearDestination fs write.2).createDirAll write.2.destinationPath
  | .symlink target => do
      writeSymlink (← clearDestination fs write.2) target write.2.destinationPath
  | .hardlink _ =>
    match write.2.linkTargetPath with
    | none => .error .invalidData
    | some source => do
        writeHardlink (← clearDestination fs write.2) source write.2.destinationPath
  | .device | .special => .error .other

/-- Materializes decisions in order, up to the first failure. -/
def materializeAll (fs : FileSystem Content) (writes : List Write) :
    Except IoErrorKind (FileSystem Content) :=
  writes.foldlM (materialize payload) fs

/-- The decisions of a run that write. -/
def writesOf (calls : List Call) : List Write :=
  calls.filterMap Call.write?

/-! ## Symlinks that stay -/

/-- The symlinks of the second tree are symlinks of the first. -/
def KeepsSymlinks (fs changed : FileSystem Content) : Prop :=
  ∀ location target, changed.node location = some (.symlink target) →
    fs.node location = some (.symlink target)

namespace KeepsSymlinks

theorem refl (fs : FileSystem Content) : KeepsSymlinks fs fs := fun _ _ found => found

theorem trans {first second third : FileSystem Content} (left : KeepsSymlinks first second)
    (right : KeepsSymlinks second third) : KeepsSymlinks first third :=
  fun location target found => left location target (right location target found)

theorem of_onlyAddsDirectories {fs changed : FileSystem Content}
    (adds : FileSystem.OnlyAddsDirectories fs changed) : KeepsSymlinks fs changed := by
  intro location target found
  rcases adds location with same | ⟨-, added⟩
  · rw [← same]
    exact found
  · rw [added] at found
    cases found

theorem of_remove (fs : FileSystem Content) {location : Location} (below : location ≠ []) :
    KeepsSymlinks fs (fs.remove location below) := by
  intro other target found
  rw [FileSystem.remove_node] at found
  split_ifs at found
  exact found

/-- Locations that were no symlinks are still none. -/
theorem not_isSymlink {fs changed : FileSystem Content} (keeps : KeepsSymlinks fs changed)
    {location : Location} (plain : ¬ fs.IsSymlink location) : ¬ changed.IsSymlink location := by
  rintro ⟨target, found⟩
  exact plain ⟨target, keeps location target found⟩

end KeepsSymlinks

variable {fs changed : FileSystem Content}

theorem removeDestinationForReplace_keeps {path : PathBuf}
    (finished : removeDestinationForReplace fs path = .ok changed) : KeepsSymlinks fs changed := by
  unfold removeDestinationForReplace at finished
  split at finished
  · cases finished
    exact .refl fs
  · cases finished
  · obtain ⟨⟨directory, name⟩, -, finished⟩ := Except.bind_eq_ok_iff.mp finished
    dsimp only at finished
    split at finished
    · cases finished
    · cases finished
    · cases finished
      exact .of_remove fs _
  · obtain ⟨⟨directory, name⟩, -, finished⟩ := Except.bind_eq_ok_iff.mp finished
    dsimp only at finished
    split at finished
    · cases finished
    · cases finished
    · cases finished
      exact .of_remove fs _

theorem clearDestination_keeps {plan : PlannedWrite}
    (finished : clearDestination fs plan = .ok changed) : KeepsSymlinks fs changed := by
  unfold clearDestination at finished
  split_ifs at finished
  · exact removeDestinationForReplace_keeps finished
  · cases finished
    exact .refl fs

theorem ensureParentDir_keeps {path : PathBuf}
    (finished : ensureParentDir fs path = .ok changed) : KeepsSymlinks fs changed := by
  unfold ensureParentDir at finished
  split at finished
  · exact .of_onlyAddsDirectories (fs.createDirAll_ok finished)
  · cases finished
    exact .refl fs

/-! ## What one decision leaves behind -/

theorem IsPlainBelow.mono (plain : IsPlainBelow fs front) (keeps : KeepsSymlinks fs changed) :
    IsPlainBelow changed front :=
  fun above inside => keeps.not_isSymlink (plain above inside)

/-- What a materialized decision can have done to the symlinks of the tree. -/
structure SymlinkStep (fs changed : FileSystem Content) (location : Location)
    (kind : ExtractionEntryKind) : Prop where
  /-- Only the destination of a symlink entry can hold a new symlink. -/
  origin : ∀ other target, changed.node other = some (.symlink target) →
    fs.node other = some (.symlink target) ∨ other = location ∧ kind = .symlink target
  /-- A file or hardlink leaves no symlink at its destination. -/
  replaced : kind.isSymlink = false → kind.isDirectory = false → ¬ changed.IsSymlink location

theorem SymlinkStep.of_update {last : Text} {object : Node Content} {middle : FileSystem Content}
    {kind : ExtractionEntryKind} (keeps : KeepsSymlinks fs middle)
    (updated : changed.node = Function.update middle.node (front ++ [last]) (some object))
    (allowed : ∀ target, object = .symlink target → kind = .symlink target)
    (plain : kind.isSymlink = false → ∀ target, object ≠ .symlink target) :
    SymlinkStep fs changed (front ++ [last]) kind := by
  constructor
  · intro other target found
    rw [updated] at found
    by_cases same : other = front ++ [last]
    · rw [same, Function.update_self] at found
      exact .inr ⟨same, allowed target (Option.some.inj found)⟩
    · rw [Function.update_of_ne same] at found
      exact .inl (keeps other target found)
  · rintro notSymlink - ⟨target, found⟩
    rw [updated, Function.update_self] at found
    exact plain notSymlink target (Option.some.inj found)

/-- The symlinks after a decision whose destination, and whose hardlink source,
is reached along a plain way. -/
theorem materialize_symlink {write : Write} {last : Text}
    (destination : write.2.destinationPath = Location.toPath (front ++ [last]))
    (plain : IsPlainBelow fs front)
    (source : ∀ path, write.2.linkTargetPath = some path → ∃ sourceFront sourceLast,
      path = Location.toPath (sourceFront ++ [sourceLast]) ∧ IsPlainBelow fs sourceFront ∧
        ¬ fs.IsSymlink (sourceFront ++ [sourceLast]))
    (finished : materialize payload fs write = .ok changed) :
    SymlinkStep fs changed (front ++ [last]) write.1.kind := by
  unfold materialize at finished
  split at finished
  · rename_i kind
    obtain ⟨prepared, ensured, finished⟩ := Except.bind_eq_ok_iff.mp finished
    obtain ⟨cleared, clearing, finished⟩ := Except.bind_eq_ok_iff.mp finished
    have keeps := (ensureParentDir_keeps ensured).trans (clearDestination_keeps clearing)
    rw [destination] at finished
    exact .of_update keeps (create_node (plain.mono keeps) finished)
      (fun _ same => by cases same) (fun _ _ same => by cases same)
  · rename_i kind
    obtain ⟨cleared, clearing, finished⟩ := Except.bind_eq_ok_iff.mp finished
    have keeps := (clearDestination_keeps clearing).trans
      (.of_onlyAddsDirectories (cleared.createDirAll_ok finished))
    refine ⟨fun other target found => .inl (keeps other target found), fun _ directory => ?_⟩
    rw [kind] at directory
    cases directory
  · rename_i target kind
    obtain ⟨cleared, clearing, finished⟩ := Except.bind_eq_ok_iff.mp finished
    obtain ⟨prepared, ensured, finished⟩ := Except.bind_eq_ok_iff.mp finished
    have keeps := (clearDestination_keeps clearing).trans (ensureParentDir_keeps ensured)
    unfold FileSystem.createSymlink at finished
    split_ifs at finished
    rw [destination] at finished
    refine .of_update keeps (create_node (plain.mono keeps) finished) (fun other same => ?_)
      fun notSymlink => ?_
    · cases same
      exact kind
    · rw [kind] at notSymlink
      cases notSymlink
  · rename_i target kind
    split at finished
    · cases finished
    · rename_i path linked
      obtain ⟨sourceFront, sourceLast, rfl, sourcePlain, notSymlink⟩ := source path linked
      obtain ⟨cleared, clearing, finished⟩ := Except.bind_eq_ok_iff.mp finished
      obtain ⟨prepared, ensured, finished⟩ := Except.bind_eq_ok_iff.mp finished
      have keeps := (clearDestination_keeps clearing).trans (ensureParentDir_keeps ensured)
      rw [destination] at finished
      obtain ⟨object, found, updated⟩ := hardLink_node (plain.mono keeps)
        (sourcePlain.mono keeps) finished
      have shared : ∀ target, object ≠ .symlink target := by
        rintro target rfl
        exact keeps.not_isSymlink notSymlink ⟨target, found⟩
      exact .of_update keeps updated (fun target same => absurd same (shared target))
        (fun _ => shared)
  · cases finished
  · cases finished

end ZManager
