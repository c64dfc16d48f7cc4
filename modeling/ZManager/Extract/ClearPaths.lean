import ZManager.Extract.Materialize
import ZManager.Safety.WritePaths

/-! # Clear paths are plain

The planner finds paths clear by its own record and by its view of the disk,
and a decision is materialized later, possibly on a changed disk. Where the
clear paths are still no symlinks (`Foresees`), the way to an accepted
destination and to an accepted hardlink source is plain, so the decision changes
the symlinks of the tree at its own destination only.
-/

namespace ZManager

open Planner

variable {Content : Type} {fold : CaseFolding} {root : Location} {planner after : Planner}
  {fs changed : FileSystem Content} {entry : ExtractionEntry} {plan : PlannedWrite}
  {probe : Probe} {resolver : Option OverwriteResolver}

variable {names : List Text} {last : Text}

/-- What the planner finds clear is no symlink of the tree. -/
def Foresees (fold : CaseFolding) (probe : Probe) (planner : Planner)
    (fs : FileSystem Content) : Prop :=
  ∀ location : Location, IsClear fold probe planner location.toPath → ¬ fs.IsSymlink location

/-- A symlink of the probed tree is seen. -/
theorem FileSystem.not_isSymlink_of_isClear {location : Location}
    (clear : IsClear fold fs.probe planner location.toPath) : ¬ fs.IsSymlink location := by
  rintro ⟨target, found⟩
  rcases List.eq_nil_or_concat' location with rfl | ⟨front, last, rfl⟩
  · rw [fs.root] at found
    cases found
  · apply clear.2
    change (fs.lstat _).mapError _ = _
    rw [fs.lstat_of_node found]
    rfl

/-- A planner that looks at the tree itself foresees it. -/
theorem Foresees.of_probe (fold : CaseFolding) (planner : Planner) (fs : FileSystem Content) :
    Foresees fold fs.probe planner fs :=
  fun _ clear => fs.not_isSymlink_of_isClear clear

/-- A plain way to the root goes on through names that are no symlinks. -/
theorem IsPlainBelow.extend (plainRoot : IsPlainBelow fs root)
    (plain : ∀ front, front <+: names → front ≠ [] → ¬ fs.IsSymlink (root ++ front)) :
    IsPlainBelow fs (root ++ names) := by
  intro above inside
  rcases List.prefix_or_prefix_of_prefix inside (List.prefix_append root names) with
    upper | ⟨front, rfl⟩
  · exact plainRoot above upper
  · by_cases empty : front = []
    · subst empty
      exact plainRoot _ (by simp)
    · exact plain front ((List.prefix_append_right_inj root).mp inside) empty

/-- A path below the root ends in a name. -/
theorem IsBelow.exists_concat {path : PathBuf} (below : IsBelow root.toPath path) :
    ∃ names last, path = Location.toPath (root ++ (names ++ [last])) := by
  obtain ⟨names, nonempty, -, rfl⟩ := below
  obtain ⟨front, last, rfl⟩ := List.eq_nil_or_concat' names |>.resolve_left nonempty
  exact ⟨front, last, by rw [Location.toPath_append]⟩

theorem Planner.WriteStep.exists_destination (valid : root.IsValid)
    (anchored : planner.destinationRoot = root.toPath)
    (step : WriteStep fold probe resolver planner after entry plan) :
    ∃ names last, plan.destinationPath = Location.toPath (root ++ (names ++ [last])) :=
  IsBelow.exists_concat (anchored ▸ step.destination_isBelow (anchored ▸ valid.isCanonical))

section

variable (step : WriteStep fold probe resolver planner after entry plan)
  (anchored : planner.destinationRoot = root.toPath) (plainRoot : IsPlainBelow fs root)
  (foresees : Foresees fold probe planner fs)
include step anchored plainRoot foresees

/-- The way to an accepted destination is plain. -/
theorem Planner.WriteStep.destination_plain
    (destination : plan.destinationPath = Location.toPath (root ++ (names ++ [last]))) :
    IsPlainBelow fs (root ++ names) := by
  refine plainRoot.extend fun front above nonempty => foresees _ ?_
  have member := toPath_mem_destinationAncestors anchored last above nonempty
  rw [← destination] at member
  exact step.checked.1 _ member

/-- The way to an accepted hardlink source is plain, and so is the source. -/
theorem Planner.WriteStep.source_plain
    (source : plan.linkTargetPath = some (Location.toPath (root ++ (names ++ [last])))) :
    IsPlainBelow fs (root ++ names) ∧ ¬ fs.IsSymlink (root ++ (names ++ [last])) := by
  have clear := step.checked.2.2.1
  unfold linkTargetPaths at clear
  rw [source] at clear
  constructor
  · refine plainRoot.extend fun front above nonempty => foresees _ ?_
    have member := toPath_mem_destinationAncestors anchored last above nonempty
    exact clear _ (List.mem_append_left _ member)
  · exact foresees _ (clear _ (by simp))

end

/-- A materialized decision changes the symlinks as `SymlinkStep` says. -/
theorem Planner.WriteStep.symlinkStep {payload : ExtractionEntry → Content}
    (step : WriteStep fold probe resolver planner after entry plan) (valid : root.IsValid)
    (anchored : planner.destinationRoot = root.toPath) (plainRoot : IsPlainBelow fs root)
    (foresees : Foresees fold probe planner fs)
    (destination : plan.destinationPath = Location.toPath (root ++ (names ++ [last])))
    (finished : materialize payload fs (entry, plan) = .ok changed) :
    SymlinkStep fs changed (root ++ (names ++ [last])) entry.kind := by
  have plain := step.destination_plain anchored plainRoot foresees destination
  rw [← List.append_assoc] at destination ⊢
  refine materialize_symlink payload destination plain ?_ finished
  intro path linked
  obtain ⟨sourceNames, sourceLast, rfl⟩ := IsBelow.exists_concat
    (anchored ▸ step.linkTarget_isBelow (anchored ▸ valid.isCanonical) linked)
  obtain ⟨sourcePlain, notSymlink⟩ := step.source_plain anchored plainRoot foresees linked
  rw [← List.append_assoc] at notSymlink ⊢
  exact ⟨root ++ sourceNames, sourceLast, rfl, sourcePlain, notSymlink⟩

/-- No decision makes an ancestor of the root a symlink. -/
theorem SymlinkStep.plainRoot {kind : ExtractionEntryKind}
    (symlinks : SymlinkStep fs changed (root ++ (names ++ [last])) kind)
    (plainRoot : IsPlainBelow fs root) : IsPlainBelow changed root := by
  rintro above inside ⟨target, found⟩
  rcases symlinks.origin above target found with old | ⟨rfl, -⟩
  · exact plainRoot above inside ⟨target, old⟩
  · have shorter := inside.length_le
    simp only [List.length_append, List.length_cons] at shorter
    omega

end ZManager
