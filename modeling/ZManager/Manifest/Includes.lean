import ZManager.Manifest.Complete

/-! # Explicit includes

Files that the options include are archived unless the walk does not get to them: a
directory above them that is pruned hides them. The clean source rule and the exclusions by
name and by path leave such directories open; the rule for `.DS_Store` and the rules of
`.gitignore` files do not.
-/

namespace ZManager

/-- The directory is pruned whatever the options include below it. -/
def PrunesIncludes (options : PlanOptions) (directory : Position) : Prop :=
  options.isExplicitlyIncluded directory.archivePath = false ∧
    ∃ fileName, directory.sourcePath.fileName = some fileName ∧
      ((options.exclusionProfile ≠ .unrestricted ∧ fileName = ".DS_Store".toList) ∨
        (fileName ∉ options.excludeNames ∧ directory.archivePath ∉ options.excludeArchivePaths ∧
          options.gitignoreExclusionReason directory.archivePath .directory directory.rules ≠ none))

/-- Explicit includes win: every file that the options include is in the manifest, and so is
every directory above it. -/
def IncludesKept (fs : SourceFs) (options : PlanOptions) (start : Position)
    (manifest : ArchiveManifest) : Prop :=
  ∀ front back directory file place metadata,
    nodeAt fs options start front = some directory →
      nodeAt fs options start (front ++ back) = some file →
        fs.metadata options file.node = .ok (place, .file metadata) →
          options.isExplicitlyIncluded file.archivePath = true →
            ∃ entry ∈ manifest.entries, entry.archivePath = directory.archivePath

section

variable {fs : SourceFs} {options : PlanOptions} {position : Position} {isRoot : Bool}

variable {path : Text} {entries : List ManifestEntry} {excluded : List ExcludedEntry}

theorem nodeAt_append (front back : List Text) :
    nodeAt fs options position (front ++ back) =
      (nodeAt fs options position front).bind (nodeAt fs options · back) := by
  induction front generalizing position with
  | nil => rfl
  | cons name rest ih =>
    rw [List.cons_append, nodeAt, nodeAt]
    cases childAt fs options position name with
    | none => rfl
    | some next => exact ih

/-- The way is clear when every node on it is. -/
theorem clearAlong_iff {names : List Text} :
    ClearAlong fs options isRoot position names ↔
      (isRoot = true ∨ excludedAt fs options position = none) ∧
        ∀ name front back node, names = name :: front ++ back →
          nodeAt fs options position (name :: front) = some node →
            excludedAt fs options node = none := by
  induction names generalizing isRoot position with
  | nil =>
    constructor
    · intro clear
      exact ⟨clear, by simp⟩
    · intro clear
      exact clear.1
  | cons first rest ih =>
    constructor
    · intro clear
      refine ⟨clear.1, ?_⟩
      intro name front back node same reached
      cases same
      obtain ⟨next, stepped, reached⟩ := Option.bind_eq_some_iff.mp reached
      obtain ⟨here, later⟩ := ih.mp (clear.2 next stepped)
      cases front with
      | nil =>
        cases reached
        exact here.resolve_left Bool.false_ne_true
      | cons second front => exact later second front back node rfl reached
    · intro clear
      refine ⟨clear.1, ?_⟩
      intro next stepped
      refine ih.mpr ⟨.inr ?_, ?_⟩
      · apply clear.2 first [] rest next rfl
        rw [nodeAt, stepped]
        rfl
      · intro name front back node same reached
        apply clear.2 first (name :: front) back node (by rw [same]; rfl)
        rw [nodeAt, stepped]
        exact reached

/-- What the options include is not excluded. -/
theorem excludedAt_included
    (included : options.isExplicitlyIncluded position.archivePath = true) :
    excludedAt fs options position = none := by
  unfold excludedAt
  cases fs.metadata options position.node with
  | error failure => rfl
  | ok met =>
    obtain ⟨place, object⟩ := met
    simp only
    unfold PlanOptions.exclusionReason
    cases position.sourcePath.fileName with
    | none => rfl
    | some fileName => exact if_pos included

/-- Above what the options include, a directory is included or has an include below it. -/
theorem hasExplicitIncludeDescendant_of_above {directory : Text}
    (included : options.isExplicitlyIncluded path = true) (above : Under directory path)
    (outside : options.isExplicitlyIncluded directory = false) :
    options.hasExplicitIncludeDescendant directory = true := by
  obtain ⟨includePath, listed, covers⟩ := List.any_eq_true.mp included
  have lower : ¬ Under includePath directory := by
    intro below
    have here : options.isExplicitlyIncluded directory = true :=
      List.any_eq_true.mpr ⟨includePath, listed, pathMatchesOrIsDescendant_iff.mpr below⟩
    rw [outside] at here
    cases here
  rcases above.total (pathMatchesOrIsDescendant_iff.mp covers) with below | below
  · refine List.any_eq_true.mpr ⟨includePath, listed, isStrictDescendantPath_iff.mpr ⟨below, ?_⟩⟩
    intro same
    exact lower (same ▸ Under.refl directory)
  · exact absurd below lower

/-- A directory above an include is excluded only by the rules that ignore includes. -/
theorem excludedAt_above_iff {place : NodeId} {object : SourceObject}
    (read : fs.metadata options position.node = .ok (place, object))
    (directory : object.fileType = .directory)
    (above : options.isExplicitlyIncluded position.archivePath = false →
      options.hasExplicitIncludeDescendant position.archivePath = true) :
    excludedAt fs options position ≠ none ↔ PrunesIncludes options position := by
  unfold excludedAt
  rw [read]
  simp only
  rw [directory]
  unfold PlanOptions.exclusionReason PrunesIncludes
  cases named : position.sourcePath.fileName with
  | none => simp
  | some fileName =>
    simp only [Option.some.injEq, exists_eq_left']
    by_cases included : options.isExplicitlyIncluded position.archivePath = true
    · rw [if_pos included, included]
      simp
    · have outside := Bool.eq_false_iff.mpr included
      have clean : (if options.exclusionProfile = .cleanSource then
          options.cleanSourceExclusionReason position.archivePath .directory else none) =
            none := by
        split_ifs
        · unfold PlanOptions.cleanSourceExclusionReason
          cases ((position.archivePath.splitOn '/').drop 1).find? cleanSourceExcludeName with
          | none => rfl
          | some matchedName => exact if_pos ⟨rfl, above outside⟩
        · rfl
      rw [if_neg included, clean]
      simp only [above outside, and_self, if_true]
      by_cases metadataFile : options.exclusionProfile ≠ .unrestricted ∧
          fileName = ".DS_Store".toList
      · rw [if_pos metadataFile]
        simp [outside, metadataFile]
      · rw [if_neg metadataFile, or_iff_right metadataFile]
        by_cases name : fileName ∈ options.excludeNames
        · simp [name]
        · by_cases path : position.archivePath ∈ options.excludeArchivePaths
          · simp [name, path]
          · simp [name, path, outside]

/-- A path that is listed as an entry is one. -/
theorem exists_entry_of_listing {excludedCount : Nat} {hidden : Bool}
    (listed : listing entries excluded path = ⟨1, excludedCount, hidden⟩) :
    ∃ entry ∈ entries, entry.archivePath = path := by
  have count : (entries.filter fun entry => entry.archivePath = path).length = 1 :=
    congrArg Listing.entries listed
  obtain ⟨entry, single⟩ := List.length_eq_one_iff.mp count
  have member : entry ∈ entries.filter fun entry => entry.archivePath = path := by
    rw [single]
    exact List.mem_singleton_self entry
  obtain ⟨inside, same⟩ := List.mem_filter.mp member
  exact ⟨entry, inside, of_decide_eq_true same⟩

/-- A path with no entry counted for it has none. -/
theorem not_exists_entry_of_listing {excludedCount : Nat} {hidden : Bool}
    (listed : listing entries excluded path = ⟨0, excludedCount, hidden⟩) :
    ¬ ∃ entry ∈ entries, entry.archivePath = path := by
  intro ⟨entry, member, same⟩
  have count : (entries.filter fun entry => entry.archivePath = path).length = 0 :=
    congrArg Listing.entries listed
  have inside : entry ∈ entries.filter fun entry => entry.archivePath = path :=
    List.mem_filter.mpr ⟨member, decide_eq_true same⟩
  rw [List.eq_nil_of_length_eq_zero count] at inside
  cases inside

/-- A node that leads on is a directory. -/
theorem nodeAt_directory {name : Text} {rest : List Text} {last : Position}
    (reached : nodeAt fs options position (name :: rest) = some last) :
    ∃ place object, fs.metadata options position.node = .ok (place, object) ∧
      object.fileType = .directory := by
  obtain ⟨next, stepped, -⟩ := Option.bind_eq_some_iff.mp reached
  obtain ⟨place, metadata, gitignore, children, marker, child, read, -⟩ :=
    childAt_eq_some stepped
  exact ⟨place, _, read, rfl⟩

end

section

variable {fold : CaseFolding} {fs : SourceFs} {root : PathBuf} {node : NodeId}
variable {options : PlanOptions} {manifest : ArchiveManifest} {rootName : Text}

/-- A node that a plan's walk could reach is an entry exactly when nothing on the way to it
is excluded. -/
theorem planned_entry_iff {names : List Text} {last : Position}
    (named : root.fileName = some rootName)
    (planned : planArchive fold fs root node options = .ok manifest)
    (reached : nodeAt fs options (.ofRoot root rootName node) names = some last) :
    (∃ entry ∈ manifest.entries, entry.archivePath = last.archivePath) ↔
      ∀ name front back directory, names = name :: front ++ back →
        nodeAt fs options (.ofRoot root rootName node) (name :: front) = some directory →
          excludedAt fs options directory = none := by
  obtain ⟨rootName', found, named', visited, rfl⟩ := planArchive_eq_ok.mp planned
  rw [named] at named'
  cases named'
  have whole := @clearAlong_iff fs options (.ofRoot root rootName node) true names
  rcases node_listed visited reached with ⟨clear, kept⟩ | ⟨blocked, out⟩
  · have present : ∃ entry ∈ ((({} : ManifestPlanner).add found).finish fold root).entries,
        entry.archivePath = last.archivePath :=
      exists_entry_of_listing ((listing_finish found _).trans kept)
    exact ⟨fun _ => (whole.mp clear).2, fun _ => present⟩
  · have absent : ¬ ∃ entry ∈ ((({} : ManifestPlanner).add found).finish fold root).entries,
        entry.archivePath = last.archivePath := by
      rcases out with ruled | hidden
      · exact not_exists_entry_of_listing ((listing_finish found _).trans ruled)
      · exact not_exists_entry_of_listing ((listing_finish found _).trans hidden)
    refine ⟨fun present => absurd present absent, ?_⟩
    intro clear
    exact absurd (whole.mpr ⟨.inl rfl, clear⟩) blocked

/-- **Explicit includes** win exactly when no directory above an included file, below the
root, is pruned by one of the rules that do not look for includes below. -/
theorem includesKept_iff (named : root.fileName = some rootName)
    (planned : planArchive fold fs root node options = .ok manifest) :
    IncludesKept fs options (.ofRoot root rootName node) manifest ↔
      ∀ name front last back directory file place metadata,
        nodeAt fs options (.ofRoot root rootName node) (name :: front) = some directory →
          nodeAt fs options (.ofRoot root rootName node) (name :: front ++ last :: back) =
            some file →
            fs.metadata options file.node = .ok (place, .file metadata) →
              options.isExplicitlyIncluded file.archivePath = true →
                ¬ PrunesIncludes options directory := by
  -- Above an included file, being pruned and being excluded are one.
  have pruned : ∀ name front last back directory file,
      nodeAt fs options (.ofRoot root rootName node) (name :: front) = some directory →
        nodeAt fs options (.ofRoot root rootName node) (name :: front ++ last :: back) =
          some file →
          options.isExplicitlyIncluded file.archivePath = true →
            (excludedAt fs options directory ≠ none ↔ PrunesIncludes options directory) := by
    intro name front last back directory file upper reached included
    rw [nodeAt_append, upper] at reached
    obtain ⟨place, object, read, isDirectory⟩ := nodeAt_directory reached
    exact excludedAt_above_iff read isDirectory
      (hasExplicitIncludeDescendant_of_above included (nodeAt_under reached))
  constructor
  · intro kept name front last back directory file place metadata upper reached read included
    rw [← pruned name front last back directory file upper reached included, not_not]
    have present := kept (name :: front ++ last :: back) [] file file place metadata reached
      (by rw [List.append_nil]; exact reached) read included
    exact (planned_entry_iff named planned reached).mp present name front (last :: back) directory
      rfl upper
  · intro clear front back directory file place metadata upper reached read included
    refine (planned_entry_iff named planned upper).mpr ?_
    intro name middle rest inner same found
    cases way : rest ++ back with
    | nil =>
      obtain ⟨rfl, rfl⟩ := List.append_eq_nil_iff.mp way
      rw [same, List.append_nil, List.append_nil, found] at reached
      cases reached
      exact excludedAt_included included
    | cons last more =>
      rw [same, List.append_assoc, way] at reached
      have open' := clear name middle last more inner file place metadata found reached read
        included
      rw [← pruned name middle last more inner file found reached included, not_not] at open'
      exact open'

end

/-- A project with a directory `out` of one file `a`, and the given `.gitignore` file. -/
def outputFs (gitignore : Text) : SourceFs :=
  .ofObjects [.directory (.ofLen 0) (.ok gitignore) (.ok [("out".toList, 1)]),
    .directory (.ofLen 0) (.error ⟨.notFound, ""⟩) (.ok [("a".toList, 2)]),
    .file (.ofLen 3)] (by
      intro object member metadata rules children same
      subst same
      have whole : (children = [("out".toList, 1)] ∨ children = [("a".toList, 2)]) := by
        simp only [List.mem_cons, SourceObject.directory.injEq, Except.ok.injEq, reduceCtorEq,
          List.not_mem_nil, or_false] at member
        rcases member with ⟨-, -, listed⟩ | ⟨-, -, listed⟩
        · exact .inl listed
        · exact .inr listed
      rcases whole with rfl | rfl
      · refine ⟨?_, by decide⟩
        intro child inside
        rw [List.mem_singleton.mp inside]
        exact ⟨by decide, by decide, by decide, by decide⟩
      · refine ⟨?_, by decide⟩
        intro child inside
        rw [List.mem_singleton.mp inside]
        exact isEntryName_a)

/-- Excluding the directory by its name does not hide the file that is included. -/
theorem includesKept_excluded_name :
    ∃ manifest,
      planArchive .ascii (outputFs []) [.rootDir, .normal "project".toList] 0
        { exclusionProfile := .unrestricted, excludeNames := ["out".toList],
          includeArchivePaths := ["project/out/a".toList] } = .ok manifest ∧
      IncludesKept (outputFs [])
        { exclusionProfile := .unrestricted, excludeNames := ["out".toList],
          includeArchivePaths := ["project/out/a".toList] }
        (.ofRoot [.rootDir, .normal "project".toList] "project".toList 0) manifest := by
  have walks : (visitAt (outputFs [])
      { exclusionProfile := .unrestricted, excludeNames := ["out".toList],
        includeArchivePaths := ["project/out/a".toList] } 1025 true
      (.ofRoot [.rootDir, .normal "project".toList] "project".toList 0)).toOption.isSome := by
    decide +kernel
  obtain ⟨found, walked⟩ := Option.isSome_iff_exists.mp walks
  rw [Except.toOption_eq_some] at walked
  have planned := (@planArchive_eq_ok .ascii _ [.rootDir, .normal "project".toList] 0 _ _).mpr
    ⟨_, found, rfl, walked, rfl⟩
  refine ⟨_, planned, (includesKept_iff rfl planned).mpr ?_⟩
  intro name front last back directory file place metadata upper reached read included prunes
  obtain ⟨-, fileName, -, metadataFile | ⟨-, -, ignored⟩⟩ := prunes
  · exact metadataFile.1 rfl
  · exact ignored rfl

/-- A directory that a `.gitignore` file ignores hides the file that is included. -/
theorem includes_lost_below_ignored :
    ∃ manifest,
      planArchive .ascii (outputFs "out/".toList) [.rootDir, .normal "project".toList] 0
        { respectGitignore := true, includeArchivePaths := ["project/out/a".toList] } =
          .ok manifest ∧
      ¬ IncludesKept (outputFs "out/".toList)
        { respectGitignore := true, includeArchivePaths := ["project/out/a".toList] }
        (.ofRoot [.rootDir, .normal "project".toList] "project".toList 0) manifest := by
  have listed : (visitAt (outputFs "out/".toList)
      { respectGitignore := true, includeArchivePaths := ["project/out/a".toList] } 1025 true
      (.ofRoot [.rootDir, .normal "project".toList] "project".toList 0)).toOption.map
        (fun found => listing found.entries found.excludedEntries "project/out/a".toList) =
          some ⟨0, 0, true⟩ := by
    decide +kernel
  obtain ⟨found, walked, hidden⟩ := Option.map_eq_some_iff.mp listed
  rw [Except.toOption_eq_some] at walked
  have planned := (@planArchive_eq_ok .ascii _ [.rootDir, .normal "project".toList] 0 _ _).mpr
    ⟨_, found, rfl, walked, rfl⟩
  refine ⟨_, planned, ?_⟩
  intro kept
  have node : (nodeAt (outputFs "out/".toList)
      { respectGitignore := true, includeArchivePaths := ["project/out/a".toList] }
      (.ofRoot [.rootDir, .normal "project".toList] "project".toList 0)
      ["out".toList, "a".toList]).map (fun last => (last.archivePath, last.node)) =
        some ("project/out/a".toList, 2) := by
    decide +kernel
  obtain ⟨file, reached, which⟩ := Option.map_eq_some_iff.mp node
  obtain ⟨path, place⟩ := Prod.mk.inj which
  have present := kept ["out".toList, "a".toList] [] file file 2 (.ofLen 3) reached reached
    (by rw [place]; rfl) (by rw [path]; decide +kernel)
  rw [path] at present
  exact not_exists_entry_of_listing ((listing_finish found _).trans hidden) present

end ZManager
