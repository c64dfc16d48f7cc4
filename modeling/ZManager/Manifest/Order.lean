import ZManager.Manifest.Tree

/-! # The order of directory listings

What a walk finds is, key by key, the same in whatever order directories list their
children, and the manifest is sorted by these keys.
-/

namespace ZManager

/-! ## Keys -/

theorem textKey_injective {left right : Text} (same : textKey left = textKey right) :
    left = right := by
  unfold textKey at same
  exact utf8Bytes_injective
    (List.map_injective_iff.mpr (fun _ _ equal => UInt8.toNat_inj.mp equal) same)

theorem componentKey_injective : Function.Injective componentKey := by
  intro left right same
  cases left with
  | rootDir =>
    cases right with
    | rootDir => rfl
    | curDir => simp [componentKey] at same
    | parentDir => simp [componentKey] at same
    | normal name => simp [componentKey] at same
  | curDir =>
    cases right with
    | rootDir => simp [componentKey] at same
    | curDir => rfl
    | parentDir => simp [componentKey] at same
    | normal name => simp [componentKey] at same
  | parentDir =>
    cases right with
    | rootDir => simp [componentKey] at same
    | curDir => simp [componentKey] at same
    | parentDir => rfl
    | normal name => simp [componentKey] at same
  | normal name =>
    cases right with
    | rootDir => simp [componentKey] at same
    | curDir => simp [componentKey] at same
    | parentDir => simp [componentKey] at same
    | normal other =>
      rw [textKey_injective (List.cons.inj same).2]

theorem pathKey_injective : Function.Injective pathKey :=
  List.map_injective_iff.mpr componentKey_injective

/-! ## Two file systems -/

/-- The file systems differ only in the order in which directories list their
children. -/
structure SourceFs.Reordered (fs fs' : SourceFs) : Prop where
  follow : fs'.follow = fs.follow
  canonicalize : fs'.canonicalize = fs.canonicalize
  object : ∀ node, fs'.object node = fs.object node ∨
    ∃ metadata gitignore children children',
      fs.object node = .ok (.directory metadata gitignore (.ok children)) ∧
        fs'.object node = .ok (.directory metadata gitignore (.ok children')) ∧
          children.Perm children'

/-- What two walks find agrees on every key of the manifest. -/
structure Found.Same (found found' : Found) : Prop where
  entries : SameByKey (fun entry : ManifestEntry => textKey entry.archivePath)
    found.entries found'.entries
  excludedEntries : SameByKey (fun entry : ExcludedEntry => textKey entry.archivePath)
    found.excludedEntries found'.excludedEntries
  warnings : SameByKey (fun warning : ManifestWarning => pathKey warning.sourcePath)
    found.warnings found'.warnings

theorem Found.Same.refl (found : Found) : found.Same found :=
  ⟨SameByKey.refl _, SameByKey.refl _, SameByKey.refl _⟩

section

variable {fs fs' : SourceFs} {options : PlanOptions} {levels : Nat} {isRoot : Bool}
variable {position : Position} {found : Found}

/-- What reading an object gives in the other file system. -/
theorem SourceFs.Reordered.metadata (reordered : fs.Reordered fs') {node place : NodeId}
    {object : SourceObject} (read : fs.metadata options node = .ok (place, object)) :
    fs'.metadata options node = .ok (place, object) ∨
      ∃ metadata gitignore children children',
        object = .directory metadata gitignore (.ok children) ∧ children.Perm children' ∧
          fs'.metadata options node =
            .ok (place, .directory metadata gitignore (.ok children')) := by
  obtain ⟨found, placed, read⟩ := Except.bind_eq_ok_iff.mp read
  obtain ⟨object', present, read⟩ := Except.bind_eq_ok_iff.mp read
  cases read
  have placed' : fs'.place options node = .ok place := by
    unfold SourceFs.place at placed ⊢
    rw [reordered.follow]
    exact placed
  have again : ∀ other, fs'.object place = .ok other →
      fs'.metadata options node = .ok (place, other) := by
    intro other present'
    unfold SourceFs.metadata
    rw [placed']
    change (fs'.object place).bind (fun other => .ok (place, other)) = _
    rw [present']
    rfl
  rcases reordered.object place with same | ⟨metadata, gitignore, children, children', old, new, perm⟩
  · exact .inl (again object (same.trans present))
  · rw [present] at old
    cases old
    exact .inr ⟨metadata, gitignore, children, children', rfl, perm, again _ new⟩

theorem SourceFs.Reordered.startDirectory (reordered : fs.Reordered fs') (place : NodeId)
    (activeDirs : List NodeId) :
    startDirectory fs' options place activeDirs = startDirectory fs options place activeDirs := by
  unfold ZManager.startDirectory
  rw [reordered.canonicalize]

/-- What the children of a directory find shares no key. -/
theorem children_apart {place : NodeId} {metadata : SourceMetadata}
    {gitignore : Except IoError Text} {children : List (Text × NodeId)} {marker : Option NodeId}
    {part : Text × NodeId → Found}
    (read : fs.metadata options position.node =
      .ok (place, .directory metadata gitignore (.ok children)))
    (within : ∀ child ∈ children,
      (part child).Within (position.child options gitignore marker child)) :
    (∀ first ∈ children, ∀ second ∈ children, ∀ left ∈ (part first).entries,
        ∀ right ∈ (part second).entries,
          textKey left.archivePath = textKey right.archivePath → first = second) ∧
      (∀ first ∈ children, ∀ second ∈ children, ∀ left ∈ (part first).excludedEntries,
        ∀ right ∈ (part second).excludedEntries,
          textKey left.archivePath = textKey right.archivePath → first = second) ∧
      ∀ first ∈ children, ∀ second ∈ children, ∀ left ∈ (part first).warnings,
        ∀ right ∈ (part second).warnings,
          pathKey left.sourcePath = pathKey right.sourcePath → first = second := by
  obtain ⟨free, -, told⟩ := children_distinct read
  have split : ∀ first ∈ children, ∀ second ∈ children, ∀ left right : Text,
      Under (position.archivePath ++ '/' :: first.1) left →
        Under (position.archivePath ++ '/' :: second.1) right →
          textKey left = textKey right → first = second := by
    intro first inside second member left right below under same
    rw [← textKey_injective same] at under
    exact told first inside second member
      (Under.child_inj (free first inside) (free second member) below under)
  refine ⟨?_, ?_, ?_⟩
  · intro first inside second member left listed right also
    exact split first inside second member _ _ ((within first inside).entries left listed)
      ((within second member).entries right also)
  · intro first inside second member left listed right also
    exact split first inside second member _ _ ((within first inside).excluded left listed)
      ((within second member).excluded right also)
  · intro first inside second member left listed right also same
    have front := (within first inside).warnings left listed
    have front' := (within second member).warnings right also
    rw [← pathKey_injective same] at front'
    have equal : position.sourcePath ++ [Component.normal first.1] =
        position.sourcePath ++ [Component.normal second.1] :=
      (List.prefix_of_prefix_length_le front front' (by simp [Position.child])).eq_of_length
        (by simp [Position.child])
    have names := List.append_cancel_left equal
    exact told first inside second member (Component.normal.inj (List.cons.inj names).1)

theorem SourceFs.Reordered.excludedAt (reordered : fs.Reordered fs') {place : NodeId}
    {object : SourceObject} (read : fs.metadata options position.node = .ok (place, object)) :
    excludedAt fs' options position = excludedAt fs options position := by
  unfold ZManager.excludedAt
  rcases reordered.metadata read with same | ⟨metadata, gitignore, children, children', rfl, -, read'⟩
  · rw [same, read]
  · rw [read', read]
    rfl

/-- A directory finds the same in whatever order it lists its children. -/
theorem enteredFound_same {metadata : SourceMetadata} {gitignore : Except IoError Text}
    {children children' : List (Text × NodeId)} {place : NodeId} {marker : Option NodeId}
    {part part' : Text × NodeId → Found} {warnings : List ManifestWarning}
    (perm : children.Perm children')
    (read : fs.metadata options position.node =
      .ok (place, .directory metadata gitignore (.ok children)))
    (within : ∀ child ∈ children,
      (part child).Within (position.child options gitignore marker child))
    (same : ∀ child ∈ children, (part child).Same (part' child)) :
    (enteredFound position (.directory metadata gitignore (.ok children)) warnings children
      part).Same (enteredFound position (.directory metadata gitignore (.ok children')) warnings
        children' part') := by
  obtain ⟨entries, excluded, warned⟩ := children_apart read within
  have same' : ∀ child ∈ children', (part child).Same (part' child) :=
    fun child member => same child (perm.mem_iff.mpr member)
  refine ⟨?_, ?_, ?_⟩
  · rw [enteredFound_entries, enteredFound_entries]
    apply SameByKey.append (SameByKey.refl [_])
    apply (SameByKey.flatMap_perm perm entries).trans
    exact SameByKey.flatMap fun child member => (same' child member).entries
  · rw [enteredFound_excludedEntries, enteredFound_excludedEntries]
    apply (SameByKey.flatMap_perm perm excluded).trans
    exact SameByKey.flatMap fun child member => (same' child member).excludedEntries
  · rw [enteredFound_warnings, enteredFound_warnings]
    apply SameByKey.append (SameByKey.refl _)
    apply (SameByKey.flatMap_perm perm warned).trans
    exact SameByKey.flatMap fun child member => (same' child member).warnings

/-- **The order of listings does not matter**: the walk in the other file system succeeds
too and finds the same. -/
theorem visit_reordered (reordered : fs.Reordered fs')
    (visited : visitAt fs options levels isRoot position = .ok found) :
    ∃ found', visitAt fs' options levels isRoot position = .ok found' ∧ found.Same found' := by
  induction levels generalizing isRoot position found with
  | zero =>
    obtain ⟨below, -, -, levels, -⟩ := visit_cases visited
    omega
  | succ levels ih =>
    obtain ⟨below, place, object, same, read, outcome⟩ := visit_cases visited
    cases same
    have ruled' := reordered.excludedAt read
    cases outcome with
    | excluded reason below ruled =>
      rw [← ruled'] at ruled
      rcases reordered.metadata read with
        read' | ⟨metadata, gitignore, children, children', rfl, -, read'⟩
      · exact ⟨_, visit_of_cases read' (.excluded reason below ruled), Found.Same.refl _⟩
      · exact ⟨_, visit_of_cases read' (.excluded reason below ruled), Found.Same.refl _⟩
    | closed warnings kept ends =>
      rw [← ruled'] at kept
      rw [← reordered.startDirectory] at ends
      rcases reordered.metadata read with
        read' | ⟨metadata, gitignore, children, children', rfl, -, read'⟩
      · exact ⟨_, visit_of_cases read' (.closed warnings kept ends), Found.Same.refl _⟩
      · exact ⟨_, visit_of_cases read' (.closed warnings kept ends), Found.Same.refl _⟩
    | entered metadata gitignore children marker part kept listed start each =>
      subst listed
      rw [← ruled'] at kept
      rw [← reordered.startDirectory] at start
      obtain ⟨children', perm, read'⟩ : ∃ children', children.Perm children' ∧
          fs'.metadata options position.node =
            .ok (place, .directory metadata gitignore (.ok children')) := by
        rcases reordered.metadata read with
          read' | ⟨metadata', gitignore', listed, children', same, perm, read'⟩
        · exact ⟨children, List.Perm.refl _, read'⟩
        · cases same
          exact ⟨children', perm, read'⟩
      have others : ∀ child, ∃ found', child ∈ children →
          visitAt fs' options levels false (position.child options gitignore marker child) =
            .ok found' ∧ (part child).Same found' := by
        intro child
        by_cases member : child ∈ children
        · obtain ⟨found', visited', same⟩ := ih (each child member)
          exact ⟨found', fun _ => ⟨visited', same⟩⟩
        · exact ⟨{}, fun inside => absurd inside member⟩
      choose part' others using others
      have outcome' := visit_of_cases read' (.entered metadata gitignore children' marker part'
        kept rfl start fun child member => (others child (perm.mem_iff.mpr member)).1)
      refine ⟨_, outcome', ?_⟩
      exact enteredFound_same perm read (fun child member => visited_within (each child member))
        fun child member => (others child member).2

end

/-! ## Totals -/

theorem saturatingAdd_toNat_eq (left right : UInt64) :
    (saturatingAdd left right).toNat = min (left.toNat + right.toNat) (2 ^ 64 - 1) := by
  unfold saturatingAdd
  split_ifs with small
  · rw [UInt64.toNat_add, Nat.mod_eq_of_lt small]
    omega
  · change 18446744073709551615 = _
    omega

/-- A saturating sum is the sum, cut at the largest value. -/
theorem foldl_saturatingAdd (sizes : List UInt64) (start : UInt64) :
    (sizes.foldl saturatingAdd start).toNat =
      min (start.toNat + (sizes.map UInt64.toNat).sum) (2 ^ 64 - 1) := by
  induction sizes generalizing start with
  | nil =>
    have small := start.toNat_lt
    rw [List.foldl_nil, List.map_nil, List.sum_nil]
    omega
  | cons size rest ih =>
    rw [List.foldl_cons, ih, saturatingAdd_toNat_eq, List.map_cons, List.sum_cons]
    omega

theorem foldl_saturatingAdd_perm {sizes sizes' : List UInt64} (perm : sizes.Perm sizes')
    (start : UInt64) : sizes.foldl saturatingAdd start = sizes'.foldl saturatingAdd start := by
  apply UInt64.toNat_inj.mp
  rw [foldl_saturatingAdd, foldl_saturatingAdd, (perm.map UInt64.toNat).sum_nat]

/-- The manifest of what two walks found is the same when they agree on every key. -/
theorem finish_same {found found' : Found} (same : found.Same found') (fold : CaseFolding)
    (planner : ManifestPlanner) (root : PathBuf) (first : planner.entries = [])
    (ruled : planner.excludedEntries = []) (silent : planner.warnings = []) :
    (planner.add found).finish fold root = (planner.add found').finish fold root := by
  have entries := same.entries.sortBy_eq
  have total : (fileSizes found.entries).foldl saturatingAdd planner.totalBytes =
      (fileSizes found'.entries).foldl saturatingAdd planner.totalBytes :=
    foldl_saturatingAdd_perm ((same.entries.perm.filter _).map _) _
  have excludedTotal :
      (found.excludedEntries.map ExcludedEntry.size).foldl saturatingAdd planner.excludedBytes =
        (found'.excludedEntries.map ExcludedEntry.size).foldl saturatingAdd
          planner.excludedBytes :=
    foldl_saturatingAdd_perm (same.excludedEntries.perm.map _) _
  unfold ManifestPlanner.finish ManifestPlanner.add
  simp only [first, ruled, silent, List.nil_append, total, excludedTotal]
  rw [entries, same.excludedEntries.sortBy_eq,
    (same.warnings.append (SameByKey.refl _)).sortBy_eq]

end ZManager
