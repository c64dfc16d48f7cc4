import ZManager.Safety.CollisionKey

/-! # The paths a write decision has checked

The planner walks a destination, a hardlink source and a link target component
by component and checks every path it passes. Below a root given by its
location, the passed paths are those of `Location.descend`
(`mem_destinationAncestors`), and an accepted write has found none of them to be
a symlink, planned or on the disk (`WriteStep.destination_clear` and its
companions).
-/

namespace ZManager

/-- Names of directories an absolute path passes. -/
def Location.IsValid (location : Location) : Prop :=
  ∀ name ∈ location, IsEntryName name

theorem out_isValid : Location.IsValid ["out".toList] := by
  intro name member
  rw [List.mem_singleton.mp member]
  exact ⟨by decide, by decide, by decide, by decide⟩

theorem Location.IsValid.isCanonical {location : Location} (valid : location.IsValid) :
    IsCanonical location.toPath :=
  ⟨location, valid, rfl⟩

theorem Location.toPath_injective : Function.Injective Location.toPath :=
  fun _ _ same => List.map_injective_iff.mpr (fun _ _ equal => Component.normal.inj equal)
    (List.cons.inj same).2

theorem Location.toPath_isPrefix {location other : Location} :
    location.toPath <+: other.toPath ↔ location <+: other := by
  constructor
  · intro above
    have names := (List.cons_prefix_cons.mp above).2
    exact (List.prefix_map_iff_of_injective fun _ _ equal => Component.normal.inj equal).mp names
  · intro above
    exact List.cons_prefix_cons.mpr ⟨rfl, above.map _⟩

/-! ## Lexical walks -/

/-- One component of lexical normalization. -/
theorem lexicallyNormalize_concat (path : PathBuf) (component : Component) :
    lexicallyNormalize (path ++ [component]) =
      match component with
      | .curDir => lexicallyNormalize path
      | .parentDir => PathBuf.pop (lexicallyNormalize path)
      | .normal name => PathBuf.push (lexicallyNormalize path) (.normal name)
      | .rootDir => PathBuf.push (lexicallyNormalize path) .rootDir := by
  unfold lexicallyNormalize
  exact List.foldl_concat ..

theorem Location.lexicallyNormalize_toPath (location : Location) :
    lexicallyNormalize location.toPath = location.toPath :=
  lexicallyNormalize_append_ofNames [.rootDir] location

theorem Location.pop_toPath (location : Location) :
    PathBuf.pop location.toPath = Location.toPath location.dropLast := by
  rcases List.eq_nil_or_concat' location with rfl | ⟨front, last, rfl⟩
  · rfl
  · rw [Location.toPath_append, List.dropLast_concat]
    simp [PathBuf.pop, PathBuf.parent, PathBuf.ofNames]

/-- Normalizing a path below a location walks from that location. -/
theorem Location.lexicallyNormalize_append (start : Location) (components : List Component) :
    lexicallyNormalize (start.toPath ++ components) =
      Location.toPath (start.descend components) := by
  induction components using List.reverseRecOn with
  | nil =>
    rw [List.append_nil]
    exact start.lexicallyNormalize_toPath
  | append_singleton front last ih =>
    rw [← List.append_assoc, lexicallyNormalize_concat, Location.descend_concat, ih]
    cases last with
    | rootDir => rfl
    | curDir => rfl
    | parentDir => exact Location.pop_toPath _
    | normal name =>
      change _ = Location.toPath (start.descend front ++ [name])
      rw [Location.toPath_append]
      rfl

theorem Location.lexicallyNormalize_push (location : Location) (component : Component) :
    lexicallyNormalize (location.toPath.push component) =
      Location.toPath (location.descend [component]) := by
  cases component with
  | rootDir => rfl
  | curDir => exact location.lexicallyNormalize_toPath
  | parentDir => exact location.lexicallyNormalize_append [.parentDir]
  | normal name => exact location.lexicallyNormalize_append [.normal name]

theorem Location.descend_ofNames (start : Location) (names : List Text) :
    start.descend (PathBuf.ofNames names) = start ++ names := by
  apply Location.toPath_injective
  rw [← Location.lexicallyNormalize_append, lexicallyNormalize_append_ofNames,
    Location.lexicallyNormalize_toPath, Location.toPath_append]

namespace Planner

/-- The walk of `destinationAncestors` visits every nonempty part of the way. -/
theorem mem_walked {relative : List Component} {start : Location} {visited : List PathBuf}
    {path : PathBuf}
    (passed : path ∈ visited ∨ ∃ front, front <+: relative ∧ front ≠ [] ∧
      path = Location.toPath (start.descend front)) :
    path ∈ (relative.foldl (fun (state : PathBuf × List PathBuf) component =>
      let current := lexicallyNormalize (state.1.push component)
      (current, state.2 ++ [current])) (start.toPath, visited)).2 := by
  induction relative generalizing start visited with
  | nil =>
    rcases passed with member | ⟨front, above, nonempty, -⟩
    · exact member
    · exact absurd (List.prefix_nil.mp above) nonempty
  | cons component rest ih =>
    rw [List.foldl_cons]
    dsimp only
    rw [Location.lexicallyNormalize_push]
    apply ih
    rcases passed with member | ⟨front, above, nonempty, rfl⟩
    · exact .inl (List.mem_append_left _ member)
    · obtain ⟨first, others, rfl⟩ := List.exists_cons_of_ne_nil nonempty
      obtain ⟨rfl, shorter⟩ := List.cons_prefix_cons.mp above
      by_cases empty : others = []
      · subst empty
        exact .inl (by simp)
      · exact .inr ⟨others, shorter, empty, rfl⟩

variable {planner : Planner} {root : Location}

/-- Every place a walk below the root passes before its last component is among
the checked ancestors. -/
theorem mem_destinationAncestors (anchored : planner.destinationRoot = root.toPath)
    {relative : List Component} {last : Component} (ending : last ≠ .rootDir)
    {front : List Component} (above : front <+: relative) (nonempty : front ≠ []) :
    Location.toPath (root.descend front) ∈
      planner.destinationAncestors (root.toPath ++ relative ++ [last]) := by
  have parent : (root.toPath ++ relative ++ [last]).parent = some (root.toPath ++ relative) := by
    unfold PathBuf.parent
    rw [List.getLast?_concat, List.dropLast_concat]
    cases last with
    | rootDir => exact absurd rfl ending
    | curDir => rfl
    | parentDir => rfl
    | normal name => rfl
  unfold destinationAncestors
  rw [parent, anchored]
  simp only [Option.bind_some, PathBuf.stripPrefix, List.prefix_append, if_true,
    List.drop_left]
  exact mem_walked (.inr ⟨front, above, nonempty, rfl⟩)

/-- The proper ancestors of a location below the root are checked. -/
theorem toPath_mem_destinationAncestors (anchored : planner.destinationRoot = root.toPath)
    {names front : List Text} (last : Text) (above : front <+: names) (nonempty : front ≠ []) :
    Location.toPath (root ++ front) ∈
      planner.destinationAncestors (Location.toPath (root ++ (names ++ [last]))) := by
  have member := @mem_destinationAncestors planner root anchored (PathBuf.ofNames names)
    (.normal last) (by simp) (PathBuf.ofNames front) (above.map _)
    (by simpa [PathBuf.ofNames] using nonempty)
  rw [Location.descend_ofNames] at member
  simpa [Location.toPath, PathBuf.ofNames] using member

/-! ## Checks of an accepted write -/

variable {fold : CaseFolding} {probe : Probe} {resolver : Option OverwriteResolver}

/-- A path that was found to be no symlink, planned or on the disk. -/
def IsClear (fold : CaseFolding) (probe : Probe) (planner : Planner) (path : PathBuf) : Prop :=
  pathKey fold path ∉ planner.plannedSymlinks ∧ probe.symlinkMetadata path ≠ .ok .symlink

theorem requireNonSymlink_ok {path : PathBuf} {archivePath : Text}
    (passed : requireNonSymlink fold probe planner path archivePath = .ok ()) :
    IsClear fold probe planner path := by
  unfold requireNonSymlink at passed
  dsimp only at passed
  split_ifs at passed with redirected
  obtain ⟨unplanned, notSymlink⟩ := not_or.mp redirected
  refine ⟨unplanned, fun found => notSymlink ?_⟩
  rw [found]
  rfl

theorem requireNonSymlinks_ok {paths : List PathBuf} {archivePath : Text}
    (passed : requireNonSymlinks fold probe planner paths archivePath = .ok ()) :
    ∀ path ∈ paths, IsClear fold probe planner path := by
  induction paths with
  | nil => exact fun _ member => (List.not_mem_nil member).elim
  | cons head rest ih =>
    change requireNonSymlink fold probe planner head archivePath >>= (fun _ =>
      requireNonSymlinks fold probe planner rest archivePath) = .ok () at passed
    obtain ⟨_, first, others⟩ := Except.bind_eq_ok_iff.mp passed
    intro path member
    rcases List.mem_cons.mp member with rfl | member
    · exact requireNonSymlink_ok first
    · exact ih others path member

variable {after : Planner} {entry : ExtractionEntry} {plan : PlannedWrite}

/-- Everything an accepted write has checked. -/
theorem WriteStep.checked (step : WriteStep fold probe resolver planner after entry plan) :
    (∀ path ∈ planner.destinationAncestors plan.destinationPath,
      IsClear fold probe planner path) ∧
    (entry.kind.isSymlink = true →
      pathKey fold plan.destinationPath ∉ planner.requiredNonSymlinkPaths) ∧
    (∀ path ∈ planner.linkTargetPaths plan, IsClear fold probe planner path) ∧
    ∀ path ∈ planner.symlinkTargetAncestors entry plan, IsClear fold probe planner path := by
  obtain ⟨_, destination, rest⟩ := Except.bind_eq_ok_iff.mp step.validated
  split_ifs at rest with required
  obtain ⟨_, linkTarget, symlinkTarget⟩ := Except.bind_eq_ok_iff.mp rest
  exact ⟨requireNonSymlinks_ok destination, fun symlink member => required ⟨symlink, member⟩,
    requireNonSymlinks_ok linkTarget, requireNonSymlinks_ok symlinkTarget⟩

/-- A conflict changes the last name of the destination only. -/
theorem DestinationChoice.exists_sibling (valid : root.IsValid)
    (anchored : planner.destinationRoot = root.toPath) {name : Text} {names : List Text}
    (member : IsMemberPath name names) {destination : PathBuf} {replaceExisting : Bool}
    (choice : DestinationChoice probe resolver planner entry (planner.naturalDestination name)
      destination replaceExisting) :
    ∃ front last last', names = front ++ [last] ∧
      planner.naturalDestination name = Location.toPath (root ++ (front ++ [last])) ∧
      destination = Location.toPath (root ++ (front ++ [last'])) := by
  obtain ⟨front, last, rfl⟩ := List.eq_nil_or_concat' names |>.resolve_left member.ne_nil
  have natural := naturalDestination_eq (anchored ▸ valid.isCanonical) member
  rw [anchored, ← Location.toPath_append] at natural
  rw [natural] at choice ⊢
  cases choice with
  | absent error probed isAbsent => exact ⟨front, last, last, rfl, rfl, rfl⟩
  | kept probed directory different => exact ⟨front, last, last, rfl, rfl, rfl⟩
  | replaced fileType probed replacing => exact ⟨front, last, last, rfl, rfl, rfl⟩
  | answered fileType probed asking conflict asked => exact ⟨front, last, last, rfl, rfl, rfl⟩
  | renamed fileType _ resumeIndex probed chosen conflict searched =>
    rcases nextAvailableDestinationPathFrom_ok searched with ⟨-, rfl⟩ | ⟨-, index, rfl, -⟩
    · exact ⟨front, last, last, rfl, rfl, rfl⟩
    · refine ⟨front, last, renamedFileName last index, rfl, rfl, ?_⟩
      rw [Location.toPath_append, Location.toPath_append,
        renameCandidate_ofNames _ (member.valid last (by simp))]

theorem WriteStep.exists_sibling
    (step : WriteStep fold probe resolver planner after entry plan) (valid : root.IsValid)
    (anchored : planner.destinationRoot = root.toPath) :
    ∃ names last last',
      planner.naturalDestination plan.normalizedArchivePath =
        Location.toPath (root ++ (names ++ [last])) ∧
      plan.destinationPath = Location.toPath (root ++ (names ++ [last'])) := by
  obtain ⟨names, member⟩ := selectMember_isMemberPath step.member
  obtain ⟨front, last, last', -, natural, destination⟩ :=
    step.destination.exists_sibling valid anchored member
  exact ⟨front, last, last', natural, destination⟩

theorem parent_toPath (front : Location) (last : Text) :
    (Location.toPath (front ++ [last])).parent = some front.toPath := by
  rw [Location.toPath_concat]
  unfold PathBuf.parent
  rw [List.getLast?_concat, List.dropLast_concat]

/-- Paths stay required. -/
theorem WriteStep.requiredNonSymlinkPaths_mono
    (step : WriteStep fold probe resolver planner after entry plan) {key : Text}
    (required : key ∈ planner.requiredNonSymlinkPaths) : key ∈ after.requiredNonSymlinkPaths := by
  rw [step.requiredNonSymlinkPaths]
  exact Finset.mem_union_left _ required

end Planner

end ZManager
