import ZManager.Manifest.Order

/-! # Complete manifests

A plan for one root lists every node of the source tree once, lists nothing else, and
depends on nothing but the tree.
-/

namespace ZManager

/-- The object that a list of names leads to from a place, when links are not
followed. -/
inductive SourceFs.Holds (fs : SourceFs) : NodeId → List Text → SourceObject → Prop where
  | here {node : NodeId} {object : SourceObject} (present : fs.object node = .ok object) :
      Holds fs node [] object
  | child {node : NodeId} {metadata : SourceMetadata} {gitignore : Except IoError Text}
      {children : List (Text × NodeId)} {child : Text × NodeId} {rest : List Text}
      {object : SourceObject}
      (present : fs.object node = .ok (.directory metadata gitignore (.ok children)))
      (member : child ∈ children) (onward : Holds fs child.2 rest object) :
      Holds fs node (child.1 :: rest) object

/-- The archive path of the node that names lead to. -/
def archivePathBelow (base : Text) (names : List Text) : Text :=
  names.foldl (fun path name => path ++ '/' :: name) base

/-- The start of the walk of a root. -/
def Position.ofRoot (root : PathBuf) (rootName : Text) (node : NodeId) : Position where
  node := node
  sourcePath := root
  archivePath := rootName
  rules := []
  activeDirs := []

section

variable {fs : SourceFs} {options : PlanOptions} {levels : Nat} {isRoot : Bool}
variable {position : Position} {found : Found}

/-- A child that is listed is found under its name. -/
theorem childAt_of_mem {place : NodeId} {metadata : SourceMetadata}
    {gitignore : Except IoError Text} {children : List (Text × NodeId)} {marker : Option NodeId}
    {child : Text × NodeId}
    (read : fs.metadata options position.node =
      .ok (place, .directory metadata gitignore (.ok children)))
    (start : startDirectory fs options place position.activeDirs = .ok (.enter marker))
    (member : child ∈ children) :
    childAt fs options position child.1 = some (position.child options gitignore marker child) := by
  obtain ⟨-, -, told⟩ := children_distinct read
  have search : children.find? (fun other => other.1 = child.1) = some child := by
    cases searched : children.find? (fun other => other.1 = child.1) with
    | none =>
      have missing := List.find?_eq_none.mp searched child member
      simp at missing
    | some other =>
      have named := List.find?_some searched
      rw [told other (List.mem_of_find?_eq_some searched) child member (of_decide_eq_true named)]
  unfold childAt
  rw [read]
  simp only [start, search, Option.map_some]

/-- Without following links, names lead a walk where they lead in the tree. -/
theorem nodeAt_of_holds {node : NodeId} {names : List Text} {object : SourceObject}
    (unfollowed : options.followSymlinks = false) (holds : fs.Holds node names object)
    (here : position.node = node) :
    ∃ last, nodeAt fs options position names = some last ∧
      last.archivePath = archivePathBelow position.archivePath names := by
  induction holds generalizing position with
  | here present => exact ⟨position, rfl, rfl⟩
  | @child node metadata gitignore children child rest object present member onward ih =>
    have read : fs.metadata options position.node =
        .ok (node, .directory metadata gitignore (.ok children)) := by
      unfold SourceFs.metadata SourceFs.place
      rw [unfollowed, here]
      change (fs.object node).bind (fun object => .ok (node, object)) = _
      rw [present]
      rfl
    have start : startDirectory fs options node position.activeDirs = .ok (.enter none) := by
      unfold startDirectory
      rw [unfollowed]
      rfl
    obtain ⟨last, reached, path⟩ := @ih (position.child options gitignore none child) rfl
    refine ⟨last, ?_, path⟩
    unfold nodeAt
    rw [childAt_of_mem read start member]
    exact reached

/-- Every entry and every exclusion is one of a node, with its size. -/
structure Found.FromTree (found : Found) (fs : SourceFs) (position : Position) : Prop where
  entries : ∀ entry ∈ found.entries, ∃ names object, fs.Holds position.node names object ∧
    entry.archivePath = archivePathBelow position.archivePath names ∧
      entry.fileType = object.fileType ∧ entry.size = object.regularFileBytes
  excluded : ∀ entry ∈ found.excludedEntries, ∃ names object, fs.Holds position.node names object ∧
    entry.archivePath = archivePathBelow position.archivePath names ∧
      entry.size = object.regularFileBytes

theorem visited_fromTree (unfollowed : options.followSymlinks = false)
    (visited : visitAt fs options levels isRoot position = .ok found) :
    found.FromTree fs position := by
  induction levels generalizing isRoot position found with
  | zero =>
    obtain ⟨below, -, -, levels, -⟩ := visit_cases visited
    omega
  | succ levels ih =>
    obtain ⟨below, place, object, same, read, outcome⟩ := visit_cases visited
    cases same
    have present : fs.object position.node = .ok object := by
      obtain ⟨found, placed, read⟩ := Except.bind_eq_ok_iff.mp read
      obtain ⟨object', present, read⟩ := Except.bind_eq_ok_iff.mp read
      cases read
      unfold SourceFs.place at placed
      rw [unfollowed] at placed
      cases placed
      exact present
    cases outcome with
    | excluded reason below ruled =>
      refine ⟨by simp [Found.ofExcluded], ?_⟩
      intro entry member
      rw [List.mem_singleton.mp member]
      exact ⟨[], object, .here present, rfl, rfl⟩
    | closed warnings kept ends =>
      refine ⟨?_, by simp [Found.append, Found.ofEntry, Found.ofWarnings]⟩
      intro entry member
      have same : entry = buildEntry position.sourcePath position.archivePath object := by
        simpa [Found.append, Found.ofEntry, Found.ofWarnings] using member
      rw [same]
      exact ⟨[], object, .here present, rfl, rfl, rfl⟩
    | entered metadata gitignore children marker part kept listed start each =>
      subst listed
      refine ⟨?_, ?_⟩
      · intro entry member
        rw [enteredFound_entries] at member
        rcases List.mem_cons.mp member with rfl | inside
        · exact ⟨[], _, .here present, rfl, rfl, rfl⟩
        · obtain ⟨child, within, member⟩ := List.mem_flatMap.mp inside
          obtain ⟨names, object, holds, rest⟩ := (ih (each child within)).entries entry member
          exact ⟨child.1 :: names, object, .child present within holds, rest⟩
      · intro entry member
        rw [enteredFound_excludedEntries] at member
        obtain ⟨child, within, member⟩ := List.mem_flatMap.mp member
        obtain ⟨names, object, holds, rest⟩ := (ih (each child within)).excluded entry member
        exact ⟨child.1 :: names, object, .child present within holds, rest⟩

end

section

variable {fold : CaseFolding} {fs : SourceFs} {root : PathBuf} {node : NodeId}
variable {options : PlanOptions} {manifest : ArchiveManifest}

/-- A plan for one root is what the walk of the root found, sorted. -/
theorem planArchive_eq_ok :
    planArchive fold fs root node options = .ok manifest ↔
      ∃ rootName found, root.fileName = some rootName ∧
        visitAt fs options 1025 true (.ofRoot root rootName node) = .ok found ∧
          manifest = (({} : ManifestPlanner).add found).finish fold root := by
  unfold planArchive planArchiveRoots
  rw [List.foldlM_cons]
  cases named : root.fileName with
  | none =>
    constructor
    · intro planned
      cases planned
    · intro ⟨rootName, found, same, rest⟩
      cases same
  | some rootName =>
    simp only [walk_eq_add]
    have start : visit fs options 1025 true node root rootName [] [] =
        visitAt fs options 1025 true (.ofRoot root rootName node) := rfl
    rw [start]
    constructor
    · intro planned
      cases walked : visitAt fs options 1025 true (.ofRoot root rootName node) with
      | error failure =>
        rw [walked] at planned
        cases planned
      | ok found =>
        rw [walked] at planned
        cases planned
        exact ⟨rootName, found, rfl, walked, rfl⟩
    · intro ⟨name, found, same, walked, finished⟩
      cases same
      rw [walked, finished]
      rfl

theorem listing_perm {entries entries' : List ManifestEntry}
    {excluded excluded' : List ExcludedEntry} (perm : entries.Perm entries')
    (perm' : excluded.Perm excluded') (path : Text) :
    listing entries excluded path = listing entries' excluded' path := by
  unfold listing
  rw [(perm.filter _).length_eq, (perm'.filter _).length_eq, (perm'.filter _).isEmpty_eq]

/-- What the manifest lists for a path is what the walk found for it. -/
theorem listing_finish (found : Found) (path : Text) :
    listing ((({} : ManifestPlanner).add found).finish fold root).entries
        ((({} : ManifestPlanner).add found).finish fold root).excludedEntries path =
      listing found.entries found.excludedEntries path :=
  listing_perm (sortBy_perm _) (sortBy_perm _) path

/-! ## Paths of nodes -/

theorem under_archivePathBelow (base : Text) (names : List Text) :
    Under base (archivePathBelow base names) := by
  induction names generalizing base with
  | nil => exact Under.refl base
  | cons name rest ih => exact (Under.child base name).trans (ih (base ++ '/' :: name))

/-- The nodes of a tree have different archive paths. -/
theorem archivePathBelow_inj {names names' : List Text} {object object' : SourceObject}
    {base : Text} (holds : fs.Holds node names object) (holds' : fs.Holds node names' object')
    (same : archivePathBelow base names = archivePathBelow base names') : names = names' := by
  induction holds generalizing base names' with
  | here present =>
    cases holds' with
    | here present' => rfl
    | @child _ _ _ _ child rest _ present' member onward =>
      have lower := under_archivePathBelow (base ++ '/' :: child.1) rest
      exact absurd same.symm lower.ne_of_child
  | @child node metadata gitignore children child rest object present member onward ih =>
    cases holds' with
    | here present' =>
      have lower := under_archivePathBelow (base ++ '/' :: child.1) rest
      exact absurd same lower.ne_of_child
    | @child _ _ _ _ child' rest' _ present' member' onward' =>
      rw [present] at present'
      cases present'
      obtain ⟨valid, distinct⟩ := fs.named _ _ _ _ present
      have lower := under_archivePathBelow (base ++ '/' :: child.1) rest
      have lower' := under_archivePathBelow (base ++ '/' :: child'.1) rest'
      change archivePathBelow (base ++ '/' :: child.1) rest =
        archivePathBelow (base ++ '/' :: child'.1) rest' at same
      rw [← same] at lower'
      have names := Under.child_inj (valid child member).no_slash
        (valid child' member').no_slash lower lower'
      have equal := List.inj_on_of_nodup_map distinct member member' names
      subst equal
      rw [ih onward' same]

/-- **A plan is complete and unordered.** Every node of the tree is listed exactly once, as
an entry, as an exclusion or below an exclusion; what is listed are nodes, with the sizes of
regular files, and the totals are their saturating sums; directories that list their children
in another order give the same manifest. -/
theorem planArchive_complete_unordered {rootName : Text}
    (unfollowed : options.followSymlinks = false) (named : root.fileName = some rootName)
    (planned : planArchive fold fs root node options = .ok manifest) :
    (∀ names object, fs.Holds node names object →
        (listing manifest.entries manifest.excludedEntries (archivePathBelow rootName names) =
            ⟨1, 0, false⟩ ∨
          listing manifest.entries manifest.excludedEntries (archivePathBelow rootName names) =
            ⟨0, 1, false⟩ ∨
          listing manifest.entries manifest.excludedEntries (archivePathBelow rootName names) =
            ⟨0, 0, true⟩) ∧
        ∀ names' object', fs.Holds node names' object' →
          archivePathBelow rootName names = archivePathBelow rootName names' → names = names') ∧
      (∀ entry ∈ manifest.entries, ∃ names object, fs.Holds node names object ∧
        entry.archivePath = archivePathBelow rootName names ∧
          entry.fileType = object.fileType ∧ entry.size = object.regularFileBytes) ∧
      (∀ entry ∈ manifest.excludedEntries, ∃ names object, fs.Holds node names object ∧
        entry.archivePath = archivePathBelow rootName names ∧
          entry.size = object.regularFileBytes) ∧
      manifest.totalBytes.toNat =
        min ((fileSizes manifest.entries).map UInt64.toNat).sum (2 ^ 64 - 1) ∧
      manifest.excludedBytes.toNat =
        min ((manifest.excludedEntries.map ExcludedEntry.size).map UInt64.toNat).sum
          (2 ^ 64 - 1) ∧
      ∀ fs', fs.Reordered fs' → planArchive fold fs' root node options = .ok manifest := by
  obtain ⟨rootName', found, named', visited, finished⟩ := planArchive_eq_ok.mp planned
  rw [named] at named'
  cases named'
  have tree := visited_fromTree unfollowed visited
  have entriesPerm : manifest.entries.Perm found.entries := by
    rw [finished]
    exact sortBy_perm _
  have excludedPerm : manifest.excludedEntries.Perm found.excludedEntries := by
    rw [finished]
    exact sortBy_perm _
  refine ⟨?_, ?_, ?_, ?_, ?_, ?_⟩
  · intro names object holds
    refine ⟨?_, fun names' object' holds' same => archivePathBelow_inj holds holds' same⟩
    obtain ⟨last, reached, path⟩ :=
      @nodeAt_of_holds fs options (.ofRoot root rootName node) node names object unfollowed holds
        rfl
    change last.archivePath = archivePathBelow rootName names at path
    rw [listing_perm entriesPerm excludedPerm, ← path]
    rcases node_listed visited reached with ⟨-, kept⟩ | ⟨-, ruled | hidden⟩
    · exact .inl kept
    · exact .inr (.inl ruled)
    · exact .inr (.inr hidden)
  · intro entry member
    exact tree.entries entry (entriesPerm.mem_iff.mp member)
  · intro entry member
    exact tree.excluded entry (excludedPerm.mem_iff.mp member)
  · have total : manifest.totalBytes = (fileSizes found.entries).foldl saturatingAdd 0 := by
      rw [finished]
      rfl
    have sizes : (fileSizes manifest.entries).Perm (fileSizes found.entries) :=
      (entriesPerm.filter _).map _
    rw [total, foldl_saturatingAdd, (sizes.map UInt64.toNat).sum_nat]
    simp
  · have total : manifest.excludedBytes =
        (found.excludedEntries.map ExcludedEntry.size).foldl saturatingAdd 0 := by
      rw [finished]
      rfl
    rw [total, foldl_saturatingAdd, ((excludedPerm.map _).map UInt64.toNat).sum_nat]
    simp
  · intro fs' reordered
    obtain ⟨found', visited', same⟩ := visit_reordered reordered visited
    refine planArchive_eq_ok.mpr ⟨rootName, found', named, visited', ?_⟩
    rw [finished]
    exact finish_same same fold {} root rfl rfl rfl

end

/-- A file system of the given objects, the first of them at place 0. -/
def SourceFs.ofObjects (objects : List SourceObject)
    (named : ∀ object ∈ objects, ∀ metadata gitignore children,
      object = .directory metadata gitignore (.ok children) →
        (∀ child ∈ children, IsEntryName child.1) ∧ (children.map Prod.fst).Nodup) : SourceFs where
  object node :=
    match objects[node]? with
    | some object => .ok object
    | none => .error ⟨.notFound, ""⟩
  follow := .ok
  canonicalize := .ok
  named node metadata gitignore children present := by
    split at present
    · rename_i object found
      cases present
      exact named _ (List.mem_of_getElem? found) _ _ _ rfl
    · cases present

/-- What is known of an object when nothing but its size matters. -/
def SourceMetadata.ofLen (len : UInt64) : SourceMetadata := ⟨len, none, false, none⟩

theorem isEntryName_a : IsEntryName "a".toList :=
  ⟨by decide, by decide, by decide, by decide⟩

theorem isEntryName_dsStore : IsEntryName ".DS_Store".toList :=
  ⟨by decide, by decide, by decide, by decide⟩

/-- A project of a file and a metadata file, listed in the given order. -/
def projectFs (children : List (Text × NodeId))
    (perm : [("a".toList, 1), (".DS_Store".toList, 2)].Perm children) : SourceFs :=
  .ofObjects [.directory (.ofLen 0) (.error ⟨.notFound, ""⟩) (.ok children), .file (.ofLen 3),
    .file (.ofLen 5)] (by
      intro object member metadata gitignore listed same
      subst same
      have whole : metadata = .ofLen 0 ∧ gitignore = .error ⟨.notFound, ""⟩ ∧
          listed = children := by
        simpa using member
      rw [whole.2.2]
      refine ⟨?_, (perm.map Prod.fst).nodup_iff.mp (by decide)⟩
      intro child inside
      rcases List.mem_pair.mp (perm.mem_iff.mpr inside) with rfl | rfl
      · exact isEntryName_a
      · exact isEntryName_dsStore)

/-- A project planned in both orders. -/
theorem planArchive_project_unordered :
    ∃ manifest,
      planArchive .ascii (projectFs _ (List.Perm.refl _)) [.rootDir, .normal "project".toList] 0
        {} = .ok manifest ∧
      listing manifest.entries manifest.excludedEntries "project/.DS_Store".toList =
        ⟨0, 1, false⟩ ∧
      planArchive .ascii (projectFs _ (List.Perm.swap _ _ _))
        [.rootDir, .normal "project".toList] 0 {} = .ok manifest := by
  have listed : (visitAt (projectFs _ (List.Perm.refl _)) {} 1025 true
      (.ofRoot [.rootDir, .normal "project".toList] "project".toList 0)).toOption.map (fun found =>
        listing found.entries found.excludedEntries "project/.DS_Store".toList) =
          some ⟨0, 1, false⟩ := by
    decide +kernel
  obtain ⟨found, walked, excluded⟩ := Option.map_eq_some_iff.mp listed
  rw [Except.toOption_eq_some] at walked
  have planned : planArchive .ascii (projectFs _ (List.Perm.refl _))
      [.rootDir, .normal "project".toList] 0 {} = .ok ((({} : ManifestPlanner).add found).finish
        .ascii [.rootDir, .normal "project".toList]) :=
    planArchive_eq_ok.mpr ⟨_, found, rfl, walked, rfl⟩
  obtain ⟨-, -, -, -, -, unordered⟩ :=
    @planArchive_complete_unordered .ascii _ [.rootDir, .normal "project".toList] 0 {} _
      "project".toList rfl rfl planned
  refine ⟨_, planned, (listing_finish found _).trans excluded, unordered _ ⟨rfl, rfl, ?_⟩⟩
  intro node
  match node with
  | 0 => exact .inr ⟨_, _, _, _, rfl, rfl, List.Perm.swap _ _ _⟩
  | 1 => exact .inl rfl
  | 2 => exact .inl rfl
  | _ + 3 => exact .inl rfl

end ZManager
