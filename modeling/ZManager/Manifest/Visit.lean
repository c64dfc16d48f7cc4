import ZManager.Manifest.Planner

/-! # What a walk adds

A walk adds to the planner what it finds below its start and leaves the stack of rules
and the directories being walked as they were. What it finds depends on these two
alone, not on what was gathered before.
-/

namespace ZManager

/-- Entries, exclusions and warnings in the order in which a walk meets them. -/
@[ext]
structure Found where
  entries : List ManifestEntry := []
  excludedEntries : List ExcludedEntry := []
  warnings : List ManifestWarning := []
  deriving Inhabited

namespace Found

def append (first second : Found) : Found where
  entries := first.entries ++ second.entries
  excludedEntries := first.excludedEntries ++ second.excludedEntries
  warnings := first.warnings ++ second.warnings

/-- What the parts of a directory make together. -/
def join : List Found → Found
  | [] => {}
  | first :: rest => first.append (join rest)

theorem join_entries (parts : List Found) :
    (join parts).entries = parts.flatMap Found.entries := by
  induction parts with
  | nil => rfl
  | cons first rest ih => simp [join, append, ih]

theorem join_excludedEntries (parts : List Found) :
    (join parts).excludedEntries = parts.flatMap Found.excludedEntries := by
  induction parts with
  | nil => rfl
  | cons first rest ih => simp [join, append, ih]

theorem join_warnings (parts : List Found) :
    (join parts).warnings = parts.flatMap Found.warnings := by
  induction parts with
  | nil => rfl
  | cons first rest ih => simp [join, append, ih]

def ofExcluded (sourcePath : PathBuf) (archivePath : Text) (reason : String)
    (object : SourceObject) : Found where
  excludedEntries := [⟨archivePath, sourcePath, reason, object.regularFileBytes⟩]

def ofEntry (sourcePath : PathBuf) (archivePath : Text) (object : SourceObject) : Found where
  entries := [buildEntry sourcePath archivePath object]
  warnings := (readSymlinkTarget sourcePath object).2

def ofWarnings (warnings : List ManifestWarning) : Found where
  warnings := warnings

end Found

/-- The sizes of the regular files among entries. -/
def fileSizes (entries : List ManifestEntry) : List UInt64 :=
  (entries.filter fun entry => entry.fileType = .file).map ManifestEntry.size

/-- A planner with more gathered. -/
def ManifestPlanner.add (planner : ManifestPlanner) (found : Found) : ManifestPlanner :=
  { planner with
    entries := planner.entries ++ found.entries
    excludedEntries := planner.excludedEntries ++ found.excludedEntries
    warnings := planner.warnings ++ found.warnings
    totalBytes := (fileSizes found.entries).foldl saturatingAdd planner.totalBytes
    excludedBytes :=
      (found.excludedEntries.map ExcludedEntry.size).foldl saturatingAdd planner.excludedBytes }

/-- The rules and the warnings of a directory that is entered. -/
def enteredRules (options : PlanOptions) (sourcePath : PathBuf) (archivePath : Text)
    (gitignore : Except IoError Text) : List GitignoreRule × List ManifestWarning :=
  if options.respectGitignore then readGitignoreRules sourcePath archivePath gitignore
  else ([], [])

/-- What a walk finds. -/
def visit (fs : SourceFs) (options : PlanOptions) : (levels : Nat) → (isRoot : Bool) →
    NodeId → PathBuf → Text → List GitignoreRule → List NodeId → Except PlanError Found
  | 0, _, node, sourcePath, _, _, _ =>
    match fs.metadata options node with
    | .error failure => .error (.metadata sourcePath failure)
    | .ok _ => .error (.metadata sourcePath depthError)
  | levels + 1, isRoot, node, sourcePath, archivePath, rules, activeDirs =>
    match fs.metadata options node with
    | .error failure => .error (.metadata sourcePath failure)
    | .ok (place, object) =>
      match if isRoot then none else options.exclusionReason sourcePath archivePath
          object.fileType rules with
      | some reason => .ok (.ofExcluded sourcePath archivePath reason object)
      | none =>
        match object with
        | .directory metadata gitignore children =>
          let here := Found.ofEntry sourcePath archivePath
            (.directory metadata gitignore children)
          match startDirectory fs options place activeDirs with
          | .error failure => .error (.metadata sourcePath failure)
          | .ok .loop =>
            .ok (here.append
              (.ofWarnings [⟨sourcePath, "skipped symlink directory loop"⟩]))
          | .ok (.enter marker) =>
            match children with
            | .error failure => .error (.readDir sourcePath failure)
            | .ok children =>
              (children.mapM fun child =>
                visit fs options levels false child.2 (sourcePath ++
                    [Component.normal child.1])
                  (archivePath ++ '/' :: child.1)
                  (rules ++ (enteredRules options sourcePath archivePath gitignore).1)
                  (activeDirs ++ marker.toList)).map fun parts =>
                (here.append (.ofWarnings
                  (enteredRules options sourcePath archivePath gitignore).2)).append
                    (.join parts)
        | .file metadata => .ok (.ofEntry sourcePath archivePath (.file metadata))
        | .symlink metadata target =>
          .ok (.ofEntry sourcePath archivePath (.symlink metadata target))
        | .other metadata => .ok (.ofEntry sourcePath archivePath (.other metadata))

namespace ManifestPlanner

section

variable (planner : ManifestPlanner)
include planner

theorem add_append (first second : Found) :
    planner.add (first.append second) = (planner.add first).add second := by
  simp [add, Found.append, fileSizes, List.append_assoc]

theorem add_empty : planner.add {} = planner := by
  simp [add, fileSizes]

theorem exclude_eq_add (sourcePath : PathBuf) (archivePath : Text) (reason : String)
    (object : SourceObject) :
    planner.exclude sourcePath archivePath reason object =
      planner.add (.ofExcluded sourcePath archivePath reason object) := by
  simp [exclude, add, Found.ofExcluded, fileSizes]

theorem pushEntry_eq_add (sourcePath : PathBuf) (archivePath : Text) (object : SourceObject) :
    planner.pushEntry sourcePath archivePath object =
      planner.add (.ofEntry sourcePath archivePath object) := by
  unfold pushEntry add Found.ofEntry fileSizes
  by_cases regular : (buildEntry sourcePath archivePath object).fileType = .file
  · simp [regular]
  · simp [regular]

theorem warn_eq_add (warnings : List ManifestWarning) :
    planner.warn warnings = planner.add (.ofWarnings warnings) := by
  simp [warn, add, Found.ofWarnings, fileSizes]

end

end ManifestPlanner

/-- A loop over children adds what each of them adds. -/
theorem foldlM_add {step : ManifestPlanner → Text × NodeId → Except PlanError ManifestPlanner}
    {found : Text × NodeId → Except PlanError Found} {rules : List GitignoreRule}
    {activeDirs : List NodeId}
    (each : ∀ planner child, planner.gitignoreRules = rules → planner.activeDirs = activeDirs →
      step planner child = (found child).map planner.add)
    (children : List (Text × NodeId)) (planner : ManifestPlanner)
    (sameRules : planner.gitignoreRules = rules) (sameDirs : planner.activeDirs = activeDirs) :
    children.foldlM step planner =
      (children.mapM found).map fun parts => planner.add (.join parts) := by
  induction children generalizing planner with
  | nil =>
    change Except.ok planner = Except.ok (planner.add {})
    rw [planner.add_empty]
  | cons child rest ih =>
    rw [List.foldlM_cons, List.mapM_cons, each planner child sameRules sameDirs]
    cases found child with
    | error failure => rfl
    | ok part =>
      have later := ih (planner.add part) sameRules sameDirs
      change rest.foldlM step (planner.add part) = _
      rw [later]
      cases rest.mapM found with
      | error failure => rfl
      | ok parts =>
        change Except.ok ((planner.add part).add (.join parts)) =
          Except.ok (planner.add (part.append (.join parts)))
        rw [planner.add_append]

/-- The children of a directory that is entered. -/
theorem walkChildren_eq_add {fs : SourceFs} {options : PlanOptions} {levels : Nat}
    {sourcePath : PathBuf} {archivePath : Text} {children : List (Text × NodeId)}
    (each : ∀ (child : Text × NodeId) (planner : ManifestPlanner),
      walk fs options levels false child.2 (sourcePath ++ [Component.normal child.1])
          (archivePath ++ '/' :: child.1) planner =
        (visit fs options levels false child.2 (sourcePath ++ [Component.normal child.1])
          (archivePath ++ '/' :: child.1) planner.gitignoreRules planner.activeDirs).map
            planner.add)
    (planner : ManifestPlanner) (here : Found) (marker : Option NodeId)
    (entered : List GitignoreRule × List ManifestWarning) :
    (do
      let later ← children.foldlM (fun planner child =>
        walk fs options levels false child.2 (sourcePath ++ [Component.normal child.1])
          (archivePath ++ '/' :: child.1) planner)
        { ({ planner.add here with
              activeDirs := (planner.add here).activeDirs ++ marker.toList } : ManifestPlanner).warn
                entered.2 with
          gitignoreRules := (planner.add here).gitignoreRules ++ entered.1 }
      return { later with
        gitignoreRules := later.gitignoreRules.take (planner.add here).gitignoreRules.length
        activeDirs :=
          if marker.isSome then later.activeDirs.dropLast else later.activeDirs }) =
      ((children.mapM fun child =>
        visit fs options levels false child.2 (sourcePath ++ [Component.normal child.1])
          (archivePath ++ '/' :: child.1) (planner.gitignoreRules ++ entered.1)
          (planner.activeDirs ++ marker.toList)).map fun parts =>
        (here.append (.ofWarnings entered.2)).append (.join parts)).map planner.add := by
  have loop := @foldlM_add
    (fun planner child => walk fs options levels false child.2 (sourcePath ++
        [Component.normal child.1])
      (archivePath ++ '/' :: child.1) planner)
    (fun child => visit fs options levels false child.2 (sourcePath ++ [Component.normal child.1])
      (archivePath ++ '/' :: child.1) (planner.gitignoreRules ++ entered.1)
      (planner.activeDirs ++ marker.toList))
    (planner.gitignoreRules ++ entered.1) (planner.activeDirs ++ marker.toList)
    (fun other child sameRules sameDirs => by rw [each child other, sameRules, sameDirs])
    children
  rw [loop _ rfl rfl]
  cases children.mapM fun child =>
      visit fs options levels false child.2 (sourcePath ++ [Component.normal child.1])
        (archivePath ++ '/' :: child.1) (planner.gitignoreRules ++ entered.1)
        (planner.activeDirs ++ marker.toList) with
  | error failure => rfl
  | ok parts =>
    change Except.ok _ = Except.ok (planner.add _)
    rw [planner.add_append, planner.add_append]
    apply congrArg Except.ok
    have rules : (planner.gitignoreRules ++ entered.1).take planner.gitignoreRules.length =
        planner.gitignoreRules := List.take_left' rfl
    have dirs : (if marker.isSome then (planner.activeDirs ++ marker.toList).dropLast
        else planner.activeDirs ++ marker.toList) = planner.activeDirs := by
      cases marker with
      | none => simp
      | some canonical => simp
    rw [← ManifestPlanner.warn_eq_add]
    simp only [ManifestPlanner.add, ManifestPlanner.warn, rules, dirs]

/-- **A walk adds what it finds** and restores the two stacks. -/
theorem walk_eq_add (fs : SourceFs) (options : PlanOptions) (levels : Nat) (isRoot : Bool)
    (node : NodeId) (sourcePath : PathBuf) (archivePath : Text) (planner : ManifestPlanner) :
    walk fs options levels isRoot node sourcePath archivePath planner =
      (visit fs options levels isRoot node sourcePath archivePath planner.gitignoreRules
        planner.activeDirs).map planner.add := by
  induction levels generalizing isRoot node sourcePath archivePath planner with
  | zero =>
    unfold walk visit
    cases fs.metadata options node with
    | error failure => rfl
    | ok found => rfl
  | succ levels ih =>
    unfold walk visit
    cases fs.metadata options node with
    | error failure => rfl
    | ok found =>
      obtain ⟨place, object⟩ := found
      simp only
      generalize (if isRoot then none else options.exclusionReason sourcePath archivePath
        object.fileType planner.gitignoreRules) = excluded
      cases excluded with
      | some reason => exact congrArg Except.ok (planner.exclude_eq_add ..)
      | none =>
        cases object with
        | file metadata => exact congrArg Except.ok (planner.pushEntry_eq_add ..)
        | symlink metadata target => exact congrArg Except.ok (planner.pushEntry_eq_add ..)
        | other metadata => exact congrArg Except.ok (planner.pushEntry_eq_add ..)
        | directory metadata gitignore children =>
          simp only [planner.pushEntry_eq_add]
          generalize Found.ofEntry sourcePath archivePath
            (.directory metadata gitignore children) = here
          change (match startDirectory fs options place planner.activeDirs with
            | .error failure => _
            | .ok .loop => _
            | .ok (.enter marker) => _) = _
          cases startDirectory fs options place planner.activeDirs with
          | error failure => rfl
          | ok start =>
            cases start with
            | loop =>
              simp only [ManifestPlanner.warn_eq_add]
              exact congrArg Except.ok (planner.add_append here _).symm
            | enter marker =>
              cases children with
              | error failure => rfl
              | ok children =>
                exact walkChildren_eq_add (fun child planner =>
                  ih false child.2 _ _ planner) planner here marker _

end ZManager
