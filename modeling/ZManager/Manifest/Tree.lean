import ZManager.Manifest.Visit

/-! # Nodes of the source tree

A node is given by the names on the way down from the root. Of every node that a walk
could reach, the walk lists exactly one of three things: an entry, an exclusion, or an
excluded directory above it.
-/

namespace ZManager

/-! ## Paths below a path -/

/-- The path is the other one or lies below it. -/
def Under (base path : Text) : Prop :=
  ∃ rest, path = base ++ rest ∧ (rest = [] ∨ ∃ more, rest = '/' :: more)

namespace Under

variable {base path middle : Text}

theorem refl (base : Text) : Under base base :=
  ⟨[], by simp, .inl rfl⟩

theorem trans (first : Under base middle) (second : Under middle path) : Under base path := by
  obtain ⟨front, rfl, frontKind⟩ := first
  obtain ⟨back, rfl, backKind⟩ := second
  refine ⟨front ++ back, by rw [List.append_assoc], ?_⟩
  rcases frontKind with rfl | ⟨more, rfl⟩
  · exact backKind
  · exact .inr ⟨more ++ back, rfl⟩

theorem length_le (below : Under base path) : base.length ≤ path.length := by
  obtain ⟨rest, rfl, -⟩ := below
  rw [List.length_append]
  omega

/-- A child lies below. -/
theorem child (base name : Text) : Under base (base ++ '/' :: name) :=
  ⟨'/' :: name, rfl, .inr ⟨name, rfl⟩⟩

/-- Paths below two children belong to one child. -/
theorem child_inj {left right : Text} (leftFree : '/' ∉ left) (rightFree : '/' ∉ right)
    (first : Under (base ++ '/' :: left) path) (second : Under (base ++ '/' :: right) path) :
    left = right := by
  -- Both names are what comes before the next slash.
  have cut : ∀ name rest : Text, '/' ∉ name → (rest = [] ∨ ∃ more, rest = '/' :: more) →
      (name ++ rest).takeWhile (· ≠ '/') = name := by
    intro name rest free kind
    rw [List.takeWhile_append_of_pos]
    · rcases kind with rfl | ⟨more, rfl⟩
      · simp
      · simp
    · intro char inside
      have other : char ≠ '/' := fun same => free (same ▸ inside)
      simpa using other
  obtain ⟨leftRest, rfl, leftKind⟩ := first
  obtain ⟨rightRest, same, rightKind⟩ := second
  rw [List.append_assoc, List.append_assoc, List.append_cancel_left_eq, List.cons_append,
    List.cons_append, List.cons.injEq] at same
  rw [← cut left leftRest leftFree leftKind, same.2, cut right rightRest rightFree rightKind]

/-- What lies below a child is not the base. -/
theorem ne_of_child {name : Text} (inside : Under (base ++ '/' :: name) path) : path ≠ base := by
  obtain ⟨rest, rfl, -⟩ := inside
  intro same
  have lengths := congrArg List.length same
  simp only [List.length_append, List.length_cons] at lengths
  omega

/-- Of two paths above one, one is below the other. -/
theorem total {left right : Text} (first : Under left path) (second : Under right path) :
    Under left right ∨ Under right left := by
  obtain ⟨leftRest, rfl, leftKind⟩ := first
  obtain ⟨rightRest, same, rightKind⟩ := second
  rcases List.append_eq_append_iff.mp same with ⟨between, rfl, rfl⟩ | ⟨between, rfl, rfl⟩
  · left
    refine ⟨between, rfl, ?_⟩
    cases between with
    | nil => exact .inl rfl
    | cons char more =>
      rcases leftKind with empty | ⟨rest, slash⟩
      · cases empty
      · cases slash
        exact .inr ⟨more, rfl⟩
  · right
    refine ⟨between, rfl, ?_⟩
    cases between with
    | nil => exact .inl rfl
    | cons char more =>
      rcases rightKind with empty | ⟨rest, slash⟩
      · cases empty
      · cases slash
        exact .inr ⟨more, rfl⟩

end Under

theorem isStrictDescendantPath_iff {path ancestor : Text} :
    isStrictDescendantPath path ancestor = true ↔ Under ancestor path ∧ path ≠ ancestor := by
  unfold isStrictDescendantPath Text.stripPrefix
  constructor
  · intro strict
    by_cases front : ancestor <+: path
    · rw [if_pos front] at strict
      obtain ⟨rest, rfl⟩ := front
      rw [Option.any_some, List.drop_left' rfl, decide_eq_true_eq] at strict
      obtain ⟨more, rfl⟩ := strict
      exact ⟨⟨_, rfl, .inr ⟨more, rfl⟩⟩, by simp⟩
    · rw [if_neg front] at strict
      cases strict
  · intro below
    obtain ⟨⟨rest, rfl, kind⟩, different⟩ := below
    rcases kind with rfl | ⟨more, rfl⟩
    · exact absurd (List.append_nil ancestor) different
    · rw [if_pos (List.prefix_append _ _), Option.any_some, List.drop_left' rfl,
        decide_eq_true_eq]
      exact ⟨more, rfl⟩

theorem pathMatchesOrIsDescendant_iff {path includePath : Text} :
    pathMatchesOrIsDescendant path includePath = true ↔ Under includePath path := by
  unfold pathMatchesOrIsDescendant
  rw [Bool.or_eq_true, decide_eq_true_eq, isStrictDescendantPath_iff]
  constructor
  · intro kind
    rcases kind with rfl | ⟨below, -⟩
    · exact Under.refl path
    · exact below
  · intro below
    by_cases same : path = includePath
    · exact .inl same
    · exact .inr ⟨below, same⟩

/-! ## Positions -/

/-- A node on the way of a walk, with the rules and the directories above it. -/
structure Position where
  node : NodeId
  sourcePath : PathBuf
  archivePath : Text
  rules : List GitignoreRule
  activeDirs : List NodeId

/-- The position of a child of a directory that is entered. -/
def Position.child (position : Position) (options : PlanOptions)
    (gitignore : Except IoError Text) (marker : Option NodeId) (child : Text × NodeId) :
    Position where
  node := child.2
  sourcePath := position.sourcePath ++ [Component.normal child.1]
  archivePath := position.archivePath ++ '/' :: child.1
  rules := position.rules ++
    (enteredRules options position.sourcePath position.archivePath gitignore).1
  activeDirs := position.activeDirs ++ marker.toList

section

variable (fs : SourceFs) (options : PlanOptions)

/-- What a walk from a position finds. -/
def visitAt (levels : Nat) (isRoot : Bool) (position : Position) : Except PlanError Found :=
  visit fs options levels isRoot position.node position.sourcePath position.archivePath
    position.rules position.activeDirs

/-- The child of a name. Directories that are being walked already have none. -/
def childAt (position : Position) (name : Text) : Option Position :=
  match fs.metadata options position.node with
  | .ok (place, .directory _ gitignore (.ok children)) =>
    match startDirectory fs options place position.activeDirs with
    | .ok (.enter marker) =>
      (children.find? fun child => child.1 = name).map
        (position.child options gitignore marker)
    | _ => none
  | _ => none

/-- The node that a list of names leads to. -/
def nodeAt : Position → List Text → Option Position
  | position, [] => some position
  | position, name :: rest => (childAt fs options position name).bind (nodeAt · rest)

/-- Why a node below the root is excluded. -/
def excludedAt (position : Position) : Option String :=
  match fs.metadata options position.node with
  | .ok (_, object) =>
    options.exclusionReason position.sourcePath position.archivePath object.fileType
      position.rules
  | .error _ => none

end

section

variable {fs : SourceFs} {options : PlanOptions} {levels : Nat} {isRoot : Bool}
variable {position : Position} {found : Found}

variable {place : NodeId} {warning : ManifestWarning} {gitignore : Except IoError Text}

/-- A directory that is entered, with what its children found. -/
def enteredFound (position : Position) (object : SourceObject) (warnings : List ManifestWarning)
    (children : List (Text × NodeId)) (part : Text × NodeId → Found) : Found :=
  ((Found.ofEntry position.sourcePath position.archivePath object).append
    (.ofWarnings warnings)).append (.join (children.map part))

section

variable {object : SourceObject} {warnings : List ManifestWarning}
variable {children : List (Text × NodeId)} {part : Text × NodeId → Found}

theorem enteredFound_entries :
    (enteredFound position object warnings children part).entries =
      buildEntry position.sourcePath position.archivePath object ::
        children.flatMap fun child => (part child).entries := by
  simp [enteredFound, Found.append, Found.ofEntry, Found.ofWarnings, Found.join_entries,
    List.flatMap_map]

theorem enteredFound_excludedEntries :
    (enteredFound position object warnings children part).excludedEntries =
      children.flatMap fun child => (part child).excludedEntries := by
  simp [enteredFound, Found.append, Found.ofEntry, Found.ofWarnings, Found.join_excludedEntries,
    List.flatMap_map]

theorem enteredFound_warnings :
    (enteredFound position object warnings children part).warnings =
      ((readSymlinkTarget position.sourcePath object).2 ++ warnings) ++
        children.flatMap fun child => (part child).warnings := by
  simp [enteredFound, Found.append, Found.ofEntry, Found.ofWarnings, Found.join_warnings,
    List.flatMap_map]

end

/-- What a walk from a position that succeeds has done. -/
inductive Visited (fs : SourceFs) (options : PlanOptions) (levels : Nat) (isRoot : Bool)
    (position : Position) (place : NodeId) (object : SourceObject) : Found → Prop where
  | excluded (reason : String) (below : isRoot = false)
      (ruled : excludedAt fs options position = some reason) :
      Visited fs options levels isRoot position place object
        (.ofExcluded position.sourcePath position.archivePath reason object)
  | closed (warnings : List ManifestWarning)
      (kept : isRoot = true ∨ excludedAt fs options position = none)
      (ends : (object.fileType ≠ .directory ∧ warnings = []) ∨
        (object.fileType = .directory ∧
          startDirectory fs options place position.activeDirs = .ok .loop ∧
            warnings = [⟨position.sourcePath, "skipped symlink directory loop"⟩])) :
      Visited fs options levels isRoot position place object
        ((Found.ofEntry position.sourcePath position.archivePath object).append
          (.ofWarnings warnings))
  | entered (metadata : SourceMetadata) (gitignore : Except IoError Text)
      (children : List (Text × NodeId)) (marker : Option NodeId) (part : Text × NodeId → Found)
      (kept : isRoot = true ∨ excludedAt fs options position = none)
      (listed : object = .directory metadata gitignore (.ok children))
      (start : startDirectory fs options place position.activeDirs = .ok (.enter marker))
      (each : ∀ child ∈ children,
        visitAt fs options levels false (position.child options gitignore marker child) =
          .ok (part child)) :
      Visited fs options levels isRoot position place object
        (enteredFound position object
          (enteredRules options position.sourcePath position.archivePath gitignore).2 children part)

theorem childAt_eq_some {name : Text} {next : Position}
    (stepped : childAt fs options position name = some next) :
    ∃ place metadata gitignore children marker child,
      fs.metadata options position.node =
          .ok (place, .directory metadata gitignore (.ok children)) ∧
        startDirectory fs options place position.activeDirs = .ok (.enter marker) ∧
          child ∈ children ∧ child.1 = name ∧
            next = position.child options gitignore marker child := by
  unfold childAt at stepped
  split at stepped
  · rename_i place metadata gitignore children read
    split at stepped
    · rename_i marker start
      obtain ⟨child, found, rfl⟩ := Option.map_eq_some_iff.mp stepped
      have named := List.find?_some found
      exact ⟨place, metadata, gitignore, children, marker, child, read, start,
        List.mem_of_find?_eq_some found, of_decide_eq_true named, rfl⟩
    · cases stepped
  · cases stepped

/-- The children of a node are those of the directory there. -/
theorem childAt_directory {object : SourceObject} {name : Text} {next : Position}
    (read : fs.metadata options position.node = .ok (place, object))
    (stepped : childAt fs options position name = some next) :
    object.fileType = .directory ∧
      startDirectory fs options place position.activeDirs ≠ .ok .loop := by
  obtain ⟨place', metadata, gitignore, children, marker, child, read', start, -⟩ :=
    childAt_eq_some stepped
  rw [read] at read'
  cases read'
  refine ⟨rfl, ?_⟩
  rw [start]
  simp

theorem Found.append_ofWarnings_nil (found : Found) : found.append (.ofWarnings []) = found := by
  ext1
  all_goals simp [Found.append, Found.ofWarnings]

/-- **A walk that succeeds** excludes its start, lists it alone, or lists it with what it
finds in every child. -/
theorem visit_cases (visited : visitAt fs options levels isRoot position = .ok found) :
    ∃ below place object, levels = below + 1 ∧
      fs.metadata options position.node = .ok (place, object) ∧
        Visited fs options below isRoot position place object found := by
  unfold visitAt at visited
  cases levels with
  | zero =>
    unfold visit at visited
    cases read : fs.metadata options position.node with
    | error failure =>
      rw [read] at visited
      cases visited
    | ok met =>
      rw [read] at visited
      cases visited
  | succ below =>
    unfold visit at visited
    cases read : fs.metadata options position.node with
    | error failure =>
      rw [read] at visited
      cases visited
    | ok met =>
      obtain ⟨place, object⟩ := met
      rw [read] at visited
      simp only at visited
      refine ⟨below, place, object, rfl, rfl, ?_⟩
      have ruled : excludedAt fs options position = options.exclusionReason
          position.sourcePath position.archivePath object.fileType position.rules := by
        unfold excludedAt
        rw [read]
      rw [← ruled] at visited
      have alone : object.fileType ≠ .directory →
          (isRoot = true ∨ excludedAt fs options position = none) →
            Visited fs options below isRoot position place object
              (.ofEntry position.sourcePath position.archivePath object) := by
        intro leaf kept
        rw [← (Found.ofEntry position.sourcePath position.archivePath
          object).append_ofWarnings_nil]
        exact .closed [] kept (.inl ⟨leaf, rfl⟩)
      cases decided : (if isRoot then none else excludedAt fs options position) with
      | some reason =>
        rw [decided] at visited
        cases visited
        cases isRoot with
        | true => cases decided
        | false => exact .excluded reason rfl decided
      | none =>
        rw [decided] at visited
        have kept : isRoot = true ∨ excludedAt fs options position = none := by
          cases isRoot with
          | true => exact .inl rfl
          | false => exact .inr decided
        cases object with
        | file metadata =>
          cases visited
          exact alone (by simp [SourceObject.fileType]) kept
        | symlink metadata target =>
          cases visited
          exact alone (by simp [SourceObject.fileType]) kept
        | other metadata =>
          cases visited
          exact alone (by simp [SourceObject.fileType]) kept
        | directory metadata gitignore children =>
          simp only at visited
          cases start : startDirectory fs options place position.activeDirs with
          | error failure =>
            rw [start] at visited
            cases visited
          | ok begun =>
            rw [start] at visited
            cases begun with
            | loop =>
              cases visited
              exact .closed _ kept (.inr ⟨rfl, start, rfl⟩)
            | enter marker =>
              cases children with
              | error failure => cases visited
              | ok children =>
                obtain ⟨parts, done, rfl⟩ := Except.map_eq_ok_iff.mp visited
                obtain ⟨part, each, rfl⟩ := Except.exists_of_mapM_eq_ok done
                exact .entered metadata gitignore children marker part kept rfl
                  start each

/-- A walk finds what one of its ways of succeeding says. -/
theorem visit_of_cases {object : SourceObject}
    (read : fs.metadata options position.node = .ok (place, object))
    (outcome : Visited fs options levels isRoot position place object found) :
    visitAt fs options (levels + 1) isRoot position = .ok found := by
  have ruled : excludedAt fs options position = options.exclusionReason position.sourcePath
      position.archivePath object.fileType position.rules := by
    unfold excludedAt
    rw [read]
  have passed : (isRoot = true ∨ excludedAt fs options position = none) →
      (if isRoot then none else excludedAt fs options position) = none := by
    intro kept
    rcases kept with rfl | clear
    · rfl
    · rw [clear, ite_self]
  unfold visitAt visit
  rw [read]
  simp only
  rw [← ruled]
  cases outcome with
  | excluded reason below decided =>
    rw [below, decided]
    rfl
  | closed warnings kept ends =>
    rw [passed kept]
    rcases ends with ⟨leaf, rfl⟩ | ⟨directory, start, rfl⟩
    · rw [Found.append_ofWarnings_nil]
      cases object with
      | file metadata => rfl
      | symlink metadata target => rfl
      | other metadata => rfl
      | directory metadata gitignore children => exact absurd rfl leaf
    · cases object with
      | file metadata => cases directory
      | symlink metadata target => cases directory
      | other metadata => cases directory
      | directory metadata gitignore children =>
        simp only [start]
  | entered metadata gitignore children marker part kept listed start each =>
    rw [passed kept]
    subst listed
    simp only [start]
    have parts := Except.mapM_eq_ok each
    unfold visitAt Position.child at parts
    simp only at parts
    rw [parts]
    rfl

/-- What a walk finds belongs to its start and what is below. -/
structure Found.Within (found : Found) (position : Position) : Prop where
  entries : ∀ entry ∈ found.entries, Under position.archivePath entry.archivePath
  excluded : ∀ entry ∈ found.excludedEntries, Under position.archivePath entry.archivePath
  warnings : ∀ warning ∈ found.warnings, position.sourcePath <+: warning.sourcePath

theorem readSymlinkTarget_warnings {sourcePath : PathBuf} {object : SourceObject}
    (member : warning ∈ (readSymlinkTarget sourcePath object).2) :
    warning.sourcePath = sourcePath := by
  cases object with
  | file metadata => cases member
  | directory metadata gitignore children => cases member
  | other metadata => cases member
  | symlink metadata target =>
    cases target with
    | ok path => cases member
    | error failure =>
      rw [List.mem_singleton.mp member]

theorem enteredRules_warnings {sourcePath : PathBuf} {archivePath : Text}
    (member : warning ∈ (enteredRules options sourcePath archivePath gitignore).2) :
    warning.sourcePath = sourcePath ++ [Component.normal ".gitignore".toList] := by
  unfold enteredRules readGitignoreRules at member
  split_ifs at member
  · cases gitignore with
    | ok contents => cases member
    | error failure =>
      simp only at member
      split_ifs at member
      · cases member
      · rw [List.mem_singleton.mp member]
  · cases member

theorem visited_within (visited : visitAt fs options levels isRoot position = .ok found) :
    found.Within position := by
  induction levels generalizing isRoot position found with
  | zero =>
    obtain ⟨below, -, -, levels, -⟩ := visit_cases visited
    omega
  | succ levels ih =>
    obtain ⟨below, place, object, same, read, outcome⟩ := visit_cases visited
    cases same
    cases outcome with
    | excluded reason below ruled =>
      refine ⟨by simp [Found.ofExcluded], ?_, by simp [Found.ofExcluded]⟩
      intro entry member
      rw [List.mem_singleton.mp member]
      exact Under.refl _
    | closed warnings kept ends =>
      refine ⟨?_, by simp [Found.append, Found.ofEntry, Found.ofWarnings], ?_⟩
      · intro entry member
        have same : entry = buildEntry position.sourcePath position.archivePath object := by
          simpa [Found.append, Found.ofEntry, Found.ofWarnings] using member
        rw [same]
        exact Under.refl _
      · intro warning member
        rcases List.mem_append.mp member with link | other
        · rw [readSymlinkTarget_warnings link]
        · rcases ends with ⟨-, rfl⟩ | ⟨-, -, rfl⟩
          · cases other
          · rw [List.mem_singleton.mp other]
    | entered metadata gitignore children marker part kept listed start each =>
      have parts := fun child member => ih (each child member)
      refine ⟨?_, ?_, ?_⟩
      · intro entry member
        rw [enteredFound_entries] at member
        rcases List.mem_cons.mp member with rfl | inside
        · exact Under.refl _
        · obtain ⟨child, within, member⟩ := List.mem_flatMap.mp inside
          exact (Under.child _ _).trans ((parts child within).entries entry member)
      · intro entry member
        rw [enteredFound_excludedEntries] at member
        obtain ⟨child, within, member⟩ := List.mem_flatMap.mp member
        exact (Under.child _ _).trans ((parts child within).excluded entry member)
      · intro warning member
        rw [enteredFound_warnings] at member
        rcases List.mem_append.mp member with own | inside
        · rcases List.mem_append.mp own with link | rules
          · rw [readSymlinkTarget_warnings link]
          · rw [enteredRules_warnings rules]
            exact List.prefix_append _ _
        · obtain ⟨child, within, member⟩ := List.mem_flatMap.mp inside
          exact (List.prefix_append _ _).trans ((parts child within).warnings warning member)

/-! ## Every node is listed once -/

/-- How often a path is an entry and an exclusion, and whether an excluded directory
is above it. -/
structure Listing where
  entries : Nat
  excluded : Nat
  hidden : Bool
  deriving DecidableEq

def listing (entries : List ManifestEntry) (excluded : List ExcludedEntry) (path : Text) :
    Listing where
  entries := (entries.filter fun entry => entry.archivePath = path).length
  excluded := (excluded.filter fun entry => entry.archivePath = path).length
  hidden := !(excluded.filter fun entry =>
    isStrictDescendantPath path entry.archivePath).isEmpty

/-- Nothing on the way to a node, itself included, is excluded. -/
def ClearAlong (fs : SourceFs) (options : PlanOptions) : Bool → Position → List Text → Prop
  | isRoot, position, [] => isRoot = true ∨ excludedAt fs options position = none
  | isRoot, position, name :: rest =>
    (isRoot = true ∨ excludedAt fs options position = none) ∧
      ∀ next, childAt fs options position name = some next →
        ClearAlong fs options false next rest

theorem filter_flatMap_of_unique {α β : Type} {items : List α} {parts : α → List β}
    {wanted : β → Bool} {chosen : α} (distinct : items.Nodup) (member : chosen ∈ items)
    (others : ∀ item ∈ items, item ≠ chosen → ∀ element ∈ parts item, wanted element = false) :
    (items.flatMap parts).filter wanted = (parts chosen).filter wanted := by
  obtain ⟨before, after, rfl⟩ := List.append_of_mem member
  have none : ∀ side : List α, (∀ item ∈ side, item ∈ before ++ chosen :: after ∧ item ≠ chosen) →
      (side.flatMap parts).filter wanted = [] := by
    intro side inside
    rw [List.filter_eq_nil_iff]
    intro element listed
    obtain ⟨item, within, listed⟩ := List.mem_flatMap.mp listed
    rw [others item (inside item within).1 (inside item within).2 element listed]
    exact Bool.false_ne_true
  rw [List.nodup_middle, List.nodup_cons] at distinct
  have front := none before fun item within => ⟨List.mem_append_left _ within,
    fun same => distinct.1 (same ▸ List.mem_append_left _ within)⟩
  have back := none after fun item within =>
    ⟨List.mem_append_right _ (List.mem_cons_of_mem _ within),
      fun same => distinct.1 (same ▸ List.mem_append_right _ within)⟩
  rw [List.flatMap_append, List.flatMap_cons, List.filter_append, List.filter_append, front, back,
    List.nil_append, List.append_nil]

/-- The children of a directory are told apart by their names. -/
theorem children_distinct {metadata : SourceMetadata} {children : List (Text × NodeId)}
    (read : fs.metadata options position.node =
      .ok (place, .directory metadata gitignore (.ok children))) :
    (∀ child ∈ children, '/' ∉ child.1) ∧ children.Nodup ∧
      ∀ first ∈ children, ∀ second ∈ children, first.1 = second.1 → first = second := by
  obtain ⟨found, -, read⟩ := Except.bind_eq_ok_iff.mp read
  obtain ⟨object, present, read⟩ := Except.bind_eq_ok_iff.mp read
  cases read
  obtain ⟨valid, distinct⟩ := fs.named _ _ _ _ present
  exact ⟨fun child member => (valid child member).no_slash, distinct.of_map,
    fun first inside second within same => List.inj_on_of_nodup_map distinct inside within same⟩

theorem nodeAt_under {names : List Text} {last : Position}
    (reached : nodeAt fs options position names = some last) :
    Under position.archivePath last.archivePath := by
  induction names generalizing position with
  | nil =>
    cases reached
    exact Under.refl _
  | cons name rest ih =>
    obtain ⟨next, stepped, onward⟩ := Option.bind_eq_some_iff.mp reached
    have inside := ih onward
    obtain ⟨place, metadata, gitignore, children, marker, child, read, start, member, named,
      same⟩ := childAt_eq_some stepped
    subst same
    exact (Under.child position.archivePath child.1).trans inside

theorem listing_of_filters {entries others : List ManifestEntry}
    {excluded ruled : List ExcludedEntry} {path : Text}
    (same : entries.filter (fun entry => entry.archivePath = path) =
      others.filter fun entry => entry.archivePath = path)
    (sameExcluded : excluded.filter (fun entry => entry.archivePath = path) =
      ruled.filter fun entry => entry.archivePath = path)
    (sameAbove : excluded.filter (fun entry => isStrictDescendantPath path entry.archivePath) =
      ruled.filter fun entry => isStrictDescendantPath path entry.archivePath) :
    listing entries excluded path = listing others ruled path := by
  unfold listing
  rw [same, sameExcluded, sameAbove]

/-- What is listed for a path below a child is what the child lists. -/
theorem listing_entered {object : SourceObject} {warnings : List ManifestWarning}
    {gitignore : Except IoError Text} {marker : Option NodeId} {children : List (Text × NodeId)}
    {part : Text × NodeId → Found} {child : Text × NodeId} {path : Text}
    (free : ∀ child ∈ children, '/' ∉ child.1) (distinct : children.Nodup)
    (told : ∀ first ∈ children, ∀ second ∈ children, first.1 = second.1 → first = second)
    (parts : ∀ child ∈ children,
      (part child).Within (position.child options gitignore marker child))
    (member : child ∈ children) (below : Under (position.archivePath ++ '/' :: child.1) path) :
    listing (enteredFound position object warnings children part).entries
        (enteredFound position object warnings children part).excludedEntries path =
      listing (part child).entries (part child).excludedEntries path := by
  have apart : ∀ other ∈ children, other ≠ child → ∀ found : Text,
      Under (position.archivePath ++ '/' :: other.1) found → ¬ Under found path := by
    intro other inside different found within above
    exact different (told other inside child member
      (Under.child_inj (free other inside) (free child member) (within.trans above) below))
  apply listing_of_filters
  · rw [enteredFound_entries, List.filter_cons_of_neg
      (by simp [buildEntry, below.ne_of_child.symm])]
    apply filter_flatMap_of_unique distinct member
    intro other inside different entry listed
    have away := apart other inside different _ ((parts other inside).entries entry listed)
    simp only [decide_eq_false_iff_not]
    intro same
    exact away (same ▸ Under.refl path)
  · rw [enteredFound_excludedEntries]
    apply filter_flatMap_of_unique distinct member
    intro other inside different entry listed
    have away := apart other inside different _ ((parts other inside).excluded entry listed)
    simp only [decide_eq_false_iff_not]
    intro same
    exact away (same ▸ Under.refl path)
  · rw [enteredFound_excludedEntries]
    apply filter_flatMap_of_unique distinct member
    intro other inside different entry listed
    have away := apart other inside different _ ((parts other inside).excluded entry listed)
    rw [Bool.eq_false_iff]
    intro strict
    exact away (isStrictDescendantPath_iff.mp strict).1

/-- The start of a walk that is not excluded is listed as an entry. -/
theorem listing_start {object : SourceObject} {warnings : List ManifestWarning}
    {marker : Option NodeId} {children : List (Text × NodeId)} {part : Text × NodeId → Found}
    (parts : ∀ child ∈ children,
      (part child).Within (position.child options gitignore marker child)) :
    listing (enteredFound position object warnings children part).entries
      (enteredFound position object warnings children part).excludedEntries
        position.archivePath = ⟨1, 0, false⟩ := by
  have apart : ∀ child : Text × NodeId, ∀ path : Text,
      Under (position.archivePath ++ '/' :: child.1) path →
        ¬ Under path position.archivePath := by
    intro child path within above
    have lower := within.length_le
    have upper := above.length_le
    rw [List.length_append, List.length_cons] at lower
    omega
  have entries : (children.flatMap fun child => (part child).entries).filter
      (fun entry => entry.archivePath = position.archivePath) = [] := by
    rw [List.filter_eq_nil_iff]
    intro entry listed same
    obtain ⟨child, member, listed⟩ := List.mem_flatMap.mp listed
    have away := apart child _ ((parts child member).entries entry listed)
    rw [of_decide_eq_true same] at away
    exact away (Under.refl _)
  have excluded : (children.flatMap fun child => (part child).excludedEntries).filter
      (fun entry => entry.archivePath = position.archivePath) = [] := by
    rw [List.filter_eq_nil_iff]
    intro entry listed same
    obtain ⟨child, member, listed⟩ := List.mem_flatMap.mp listed
    have away := apart child _ ((parts child member).excluded entry listed)
    rw [of_decide_eq_true same] at away
    exact away (Under.refl _)
  have above : (children.flatMap fun child => (part child).excludedEntries).filter
      (fun entry => isStrictDescendantPath position.archivePath entry.archivePath) = [] := by
    rw [List.filter_eq_nil_iff]
    intro entry listed strict
    obtain ⟨child, member, listed⟩ := List.mem_flatMap.mp listed
    have away := apart child _ ((parts child member).excluded entry listed)
    exact away (isStrictDescendantPath_iff.mp strict).1
  unfold listing
  rw [enteredFound_entries, enteredFound_excludedEntries, excluded, above,
    List.filter_cons_of_pos (by simp [buildEntry]), entries]
  rfl

theorem listing_closed {object : SourceObject} {warnings : List ManifestWarning} :
    listing ((Found.ofEntry position.sourcePath position.archivePath object).append
        (.ofWarnings warnings)).entries
      ((Found.ofEntry position.sourcePath position.archivePath object).append
        (.ofWarnings warnings)).excludedEntries position.archivePath = ⟨1, 0, false⟩ := by
  simp [listing, Found.append, Found.ofEntry, Found.ofWarnings, buildEntry]

/-- **Every node is listed once.** A node with nothing excluded on its way is an entry;
every other node is an exclusion or has an excluded directory above it. -/
theorem node_listed {names : List Text} {last : Position}
    (visited : visitAt fs options levels isRoot position = .ok found)
    (reached : nodeAt fs options position names = some last) :
    (ClearAlong fs options isRoot position names ∧
        listing found.entries found.excludedEntries last.archivePath = ⟨1, 0, false⟩) ∨
      (¬ ClearAlong fs options isRoot position names ∧
        (listing found.entries found.excludedEntries last.archivePath = ⟨0, 1, false⟩ ∨
          listing found.entries found.excludedEntries last.archivePath = ⟨0, 0, true⟩)) := by
  induction names generalizing levels isRoot position found with
  | nil =>
    cases reached
    obtain ⟨below, place, object, rfl, read, outcome⟩ := visit_cases visited
    cases outcome with
    | excluded reason inner ruled =>
      refine .inr ⟨?_, .inl ?_⟩
      · intro clear
        rcases clear with root | clear
        · rw [inner] at root
          cases root
        · rw [ruled] at clear
          cases clear
      · have itself : isStrictDescendantPath last.archivePath last.archivePath = false := by
          rw [Bool.eq_false_iff]
          intro strict
          exact (isStrictDescendantPath_iff.mp strict).2 rfl
        simp [listing, Found.ofExcluded, itself]
    | closed warnings kept ends => exact .inl ⟨kept, listing_closed⟩
    | entered metadata gitignore children marker part kept listed start each =>
      exact .inl ⟨kept, listing_start fun child member => visited_within (each child member)⟩
  | cons name rest ih =>
    obtain ⟨next, stepped, reached⟩ := Option.bind_eq_some_iff.mp reached
    obtain ⟨below, place, object, rfl, read, outcome⟩ := visit_cases visited
    obtain ⟨place', metadata', gitignore', children', marker', child, read', start', member,
      named, rfl⟩ := childAt_eq_some stepped
    rw [read] at read'
    cases read'
    have inside : Under (position.archivePath ++ '/' :: child.1) last.archivePath :=
      nodeAt_under reached
    cases outcome with
    | excluded reason inner ruled =>
      refine .inr ⟨?_, .inr ?_⟩
      · intro clear
        rcases clear.1 with root | clear
        · rw [inner] at root
          cases root
        · rw [ruled] at clear
          cases clear
      · have other := inside.ne_of_child
        have strict : isStrictDescendantPath last.archivePath position.archivePath = true :=
          isStrictDescendantPath_iff.mpr ⟨(Under.child _ _).trans inside, other⟩
        simp [listing, Found.ofExcluded, strict, other.symm]
    | closed warnings kept ends =>
      obtain ⟨directory, entered⟩ := childAt_directory read stepped
      rcases ends with ⟨leaf, -⟩ | ⟨-, loop, -⟩
      · exact absurd directory leaf
      · exact absurd loop entered
    | entered metadata gitignore children marker part kept listed start each =>
      cases listed
      rw [start'] at start
      cases start
      obtain ⟨free, distinct, told⟩ := children_distinct read
      have same := @listing_entered options position
        (.directory metadata' gitignore' (.ok children'))
        (enteredRules options position.sourcePath position.archivePath gitignore').2 gitignore'
        marker' children' part child last.archivePath free distinct told
        (fun other within => visited_within (each other within)) member inside
      rw [same]
      have clearIff : ClearAlong fs options isRoot position (name :: rest) ↔
          ClearAlong fs options false (position.child options gitignore' marker' child)
            rest := by
        constructor
        · intro clear
          exact clear.2 _ stepped
        · intro clear
          refine ⟨kept, ?_⟩
          intro next again
          rw [stepped] at again
          cases again
          exact clear
      rw [clearIff]
      exact ih (each child member) reached

end

end ZManager
