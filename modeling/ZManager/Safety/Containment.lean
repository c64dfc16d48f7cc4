import ZManager.Safety.PlannerRun

/-! # Destinations stay below the root

The destination of a member is the root followed by the member's names. A
conflict changes the last name only, and the new name is again an entry name,
so every write decision of every run goes to a proper descendant of the root.
-/

namespace ZManager

/-- The root followed by at least one entry name. -/
def IsBelow (root path : PathBuf) : Prop :=
  ∃ names, names ≠ [] ∧ (∀ name ∈ names, IsEntryName name) ∧ path = root ++ PathBuf.ofNames names

theorem stripArchiveComponents_zero (path : Text) : stripArchiveComponents path 0 = some path := by
  unfold stripArchiveComponents
  rw [List.drop_zero, if_neg (List.splitOn_ne_nil '/' path)]
  exact congrArg some (List.intercalate_splitOn '/')

namespace Planner

variable {planner : Planner} {name : Text} {path root : PathBuf}

/-! ## Members -/

/-- A selected member is the normalized archive path less the stripped
components. -/
theorem selectMember_ok {entry : ExtractionEntry}
    (selected : selectMember planner entry = .ok (.inr name)) :
    ∃ normalized, normalizeArchivePath entry.archivePath = .ok normalized ∧
      planner.isPathSelected normalized = true ∧
      stripArchiveComponents normalized planner.policy.stripComponents = some name := by
  obtain ⟨normalized, accepted, selected⟩ := Except.bind_eq_ok_iff.mp selected
  refine ⟨normalized, accepted, ?_⟩
  split_ifs at selected with chosen stripping
  · refine ⟨chosen, ?_⟩
    split at selected
    · rename_i stripped kept
      cases selected
      exact kept
    · cases selected
  · refine ⟨chosen, ?_⟩
    cases selected
    rw [Nat.eq_zero_of_not_pos stripping, stripArchiveComponents_zero]
  · cases selected

theorem selectMember_isMemberPath {entry : ExtractionEntry}
    (selected : selectMember planner entry = .ok (.inr name)) :
    ∃ names, IsMemberPath name names := by
  obtain ⟨normalized, accepted, -, stripped⟩ := selectMember_ok selected
  obtain ⟨names, member⟩ := normalizeArchivePath_ok accepted
  exact ⟨_, member.strip stripped⟩

/-- A hardlink source is the destination of the member its target names. -/
theorem resolveHardlinkTarget_ok {target : Text}
    (resolved : resolveHardlinkTarget planner target = .ok path) :
    ∃ normalized name, normalizeArchivePath target = .ok normalized ∧
      stripArchiveComponents normalized planner.policy.stripComponents = some name ∧
      path = planner.naturalDestination name := by
  unfold resolveHardlinkTarget at resolved
  cases accepted : normalizeArchivePath target with
  | error failure =>
    rw [accepted] at resolved
    cases resolved
  | ok normalized =>
    rw [accepted] at resolved
    have same : (if planner.policy.stripComponents > 0 then
        stripArchiveComponents normalized planner.policy.stripComponents
        else some normalized) =
          stripArchiveComponents normalized planner.policy.stripComponents := by
      split_ifs with stripping
      · rfl
      · rw [Nat.eq_zero_of_not_pos stripping, stripArchiveComponents_zero]
    dsimp only at resolved
    rw [same] at resolved
    cases kept : stripArchiveComponents normalized planner.policy.stripComponents with
    | none =>
      rw [kept] at resolved
      cases resolved
    | some name =>
      rw [kept] at resolved
      dsimp only at resolved
      split_ifs at resolved with inside
      cases resolved
      exact ⟨normalized, name, rfl, kept, rfl⟩

/-! ## Numbered siblings -/

theorem stemAndExtension_spec {stem : Text} {extension : Option Text}
    (split : PathBuf.stemAndExtension name = (stem, extension)) :
    (extension = none ∧ stem = name) ∨
      ∃ suffix, extension = some suffix ∧ name = stem ++ '.' :: suffix ∧ '.' ∉ suffix := by
  unfold PathBuf.stemAndExtension at split
  split_ifs at split with dots
  · cases split
    exact .inl ⟨rfl, rfl⟩
  · cases parts : Text.rsplitOnce '.' name with
    | none =>
      rw [parts] at split
      cases split
      exact .inl ⟨rfl, rfl⟩
    | some pair =>
      obtain ⟨before, suffix⟩ := pair
      rw [parts] at split
      dsimp only at split
      obtain ⟨recomposed, last⟩ := Text.rsplitOnce_eq_some parts
      split_ifs at split with leading
      · cases split
        exact .inl ⟨rfl, rfl⟩
      · cases split
        exact .inr ⟨suffix, rfl, recomposed, last⟩

/-- A numbered name is longer than the name. -/
theorem renamedFileName_ne (index : Nat) : renamedFileName name index ≠ name := by
  intro same
  have lengths := congrArg List.length same
  unfold renamedFileName at lengths
  split at lengths
  · rename_i stem suffix split
    rcases stemAndExtension_spec split with ⟨absent, -⟩ | ⟨_, found, recomposed, -⟩
    · cases absent
    · cases found
      rw [recomposed] at lengths
      simp only [List.length_append, List.length_cons] at lengths
      omega
  · rename_i stem split
    rcases stemAndExtension_spec split with ⟨-, rfl⟩ | ⟨_, absent, -⟩
    · simp only [List.length_append, List.length_cons] at lengths
      omega
    · cases absent

theorem slash_not_mem_decimal (index : Nat) : '/' ∉ Nat.toDigits 10 index := by
  intro member
  have digit := Text.isDigit_of_mem_decimal member
  revert digit
  decide

/-- A numbered sibling's name is an entry name. -/
theorem renamedFileName_isEntryName (valid : IsEntryName name) (index : Nat) :
    IsEntryName (renamedFileName name index) := by
  have spaced : ' ' ∈ renamedFileName name index := by
    unfold renamedFileName
    split
    · simp
    · simp
  refine ⟨?_, ?_, ?_, ?_⟩
  · intro empty
    rw [empty] at spaced
    cases spaced
  · intro dot
    rw [dot] at spaced
    revert spaced
    decide
  · intro dots
    rw [dots] at spaced
    revert spaced
    decide
  · have digits := slash_not_mem_decimal index
    unfold renamedFileName
    split
    · rename_i stem suffix split
      rcases stemAndExtension_spec split with ⟨absent, _⟩ | ⟨_, same, recomposed, _⟩
      · cases absent
      · cases same
        have noSlash := valid.no_slash
        rw [recomposed] at noSlash
        simp only [List.mem_append, List.mem_cons, not_or] at noSlash ⊢
        exact ⟨⟨noSlash.1, by decide, digits⟩, by decide, noSlash.2.2⟩
    · rename_i stem split
      rcases stemAndExtension_spec split with ⟨_, rfl⟩ | ⟨_, absent, _⟩
      · simp only [List.mem_append, List.mem_cons, not_or]
        exact ⟨valid.no_slash, by decide, digits⟩
      · cases absent

/-- A numbered sibling differs in the last name only. -/
theorem renameCandidate_append (base : PathBuf) (valid : IsEntryName name) (index : Nat) :
    renameCandidate (base ++ [Component.normal name]) index =
      base ++ [Component.normal (renamedFileName name index)] := by
  have joined := (IsEntryName.isMemberPath (renamedFileName_isEntryName valid index)).join base
  simpa [renameCandidate, PathBuf.parent, PathBuf.fileName, PathBuf.ofNames] using joined

/-- The search returns the path itself when it is free, and else a free
numbered sibling. -/
theorem nextAvailableDestinationPathFrom_ok {probe : Probe} {candidate : PathBuf}
    {startIndex budget resumeIndex : Nat}
    (found : nextAvailableDestinationPathFrom probe path startIndex budget =
      some (candidate, resumeIndex)) :
    (probe.pathExists path = false ∧ candidate = path) ∨
      (probe.pathExists path = true ∧ ∃ index, candidate = renameCandidate path index ∧
        probe.pathExists candidate = false) := by
  unfold nextAvailableDestinationPathFrom at found
  split_ifs at found with occupied
  · right
    refine ⟨occupied, ?_⟩
    obtain ⟨index, first, same⟩ := Option.map_eq_some_iff.mp found
    cases same
    have free := List.find?_some first
    exact ⟨index, rfl, by simpa using free⟩
  · left
    cases found
    exact ⟨by simpa using occupied, rfl⟩

/-! ## Containment -/

/-- The destination of a member below a canonical root. -/
theorem naturalDestination_eq (canonical : IsCanonical planner.destinationRoot)
    {names : List Text} (member : IsMemberPath name names) :
    planner.naturalDestination name = planner.destinationRoot ++ PathBuf.ofNames names :=
  member.lexicallyNormalize_join canonical

theorem naturalDestination_isBelow (canonical : IsCanonical planner.destinationRoot)
    {names : List Text} (member : IsMemberPath name names) :
    IsBelow planner.destinationRoot (planner.naturalDestination name) :=
  ⟨names, member.ne_nil, member.valid, naturalDestination_eq canonical member⟩

/-- The numbered sibling of a member below a root. -/
theorem renameCandidate_ofNames (root : PathBuf) {front : List Text} {last : Text} (valid :
    IsEntryName last) (index : Nat) :
    renameCandidate (root ++ PathBuf.ofNames (front ++ [last])) index =
      root ++ PathBuf.ofNames (front ++ [renamedFileName last index]) := by
  have grouped := renameCandidate_append (root ++ PathBuf.ofNames front) valid index
  simpa [PathBuf.ofNames] using grouped

/-- Renaming keeps a path below the root. -/
theorem renameCandidate_isBelow (below : IsBelow root path) (index : Nat) :
    IsBelow root (renameCandidate path index) := by
  obtain ⟨names, nonempty, valid, rfl⟩ := below
  obtain ⟨front, last, rfl⟩ := List.eq_nil_or_concat' names |>.resolve_left nonempty
  have lastValid : IsEntryName last := valid last (by simp)
  rw [renameCandidate_ofNames root lastValid]
  refine ⟨front ++ [renamedFileName last index], by simp, ?_, rfl⟩
  intro name member
  rcases List.mem_append.mp member with member | member
  · exact valid name (by simp [member])
  · rw [List.mem_singleton.mp member]
    exact renamedFileName_isEntryName lastValid index

theorem DestinationChoice.isBelow {probe : Probe} {resolver : Option OverwriteResolver}
    {entry : ExtractionEntry} {natural destination : PathBuf} {replaceExisting : Bool}
    (choice : DestinationChoice probe resolver planner entry natural destination replaceExisting)
    (below : IsBelow root natural) : IsBelow root destination := by
  cases choice with
  | absent => exact below
  | kept => exact below
  | replaced => exact below
  | answered => exact below
  | renamed fileType _ resumeIndex probed chosen conflict searched =>
    rcases nextAvailableDestinationPathFrom_ok searched with ⟨-, rfl⟩ | ⟨-, index, rfl, -⟩
    · exact below
    · exact renameCandidate_isBelow below index

variable {fold : CaseFolding} {probe : Probe} {resolver : Option OverwriteResolver}
  {before after : Planner} {entry : ExtractionEntry} {plan : PlannedWrite}

section

variable (step : WriteStep fold probe resolver before after entry plan)
include step

/-- The natural destination of a written entry is below the root. -/
theorem WriteStep.natural_isBelow (canonical : IsCanonical before.destinationRoot) :
    IsBelow before.destinationRoot (before.naturalDestination plan.normalizedArchivePath) := by
  obtain ⟨names, member⟩ := selectMember_isMemberPath step.member
  exact naturalDestination_isBelow canonical member

theorem WriteStep.destination_isBelow (canonical : IsCanonical before.destinationRoot) :
    IsBelow before.destinationRoot plan.destinationPath :=
  step.destination.isBelow (step.natural_isBelow canonical)

/-- Only hardlinks have a link target path, which is a resolved target. -/
theorem WriteStep.linkTargetPath_eq (linked : plan.linkTargetPath = some path) :
    ∃ target, entry.kind = .hardlink target ∧ resolveHardlinkTarget before target = .ok path := by
  have link := step.link
  rw [linked] at link
  unfold planLink at link
  cases kind : entry.kind with
  | symlink target =>
    rw [kind] at link
    dsimp only at link
    split_ifs at link
    · cases link
    · obtain ⟨_, _, finished⟩ := Except.bind_eq_ok_iff.mp link
      cases finished
  | hardlink target =>
    rw [kind] at link
    obtain ⟨resolved, found, finished⟩ := Except.bind_eq_ok_iff.mp link
    cases finished
    exact ⟨target, rfl, found⟩
  | device =>
    rw [kind] at link
    dsimp only at link
    split_ifs at link
    cases link
  | special =>
    rw [kind] at link
    dsimp only at link
    split_ifs at link
    cases link
  | file =>
    rw [kind] at link
    cases link
  | directory =>
    rw [kind] at link
    cases link

/-- A planned hardlink has its resolved target as its source. -/
theorem WriteStep.linkTargetPath_of_hardlink {target : Text}
    (kind : entry.kind = .hardlink target) :
    ∃ path, resolveHardlinkTarget before target = .ok path ∧ plan.linkTargetPath = some path := by
  have link := step.link
  unfold planLink at link
  rw [kind] at link
  obtain ⟨resolved, found, finished⟩ := Except.bind_eq_ok_iff.mp link
  injection finished with same
  injection same with same
  exact ⟨resolved, found, same.symm⟩

theorem WriteStep.linkTarget_isBelow (canonical : IsCanonical before.destinationRoot)
    (linked : plan.linkTargetPath = some path) :
    IsBelow before.destinationRoot path := by
  obtain ⟨target, -, resolved⟩ := step.linkTargetPath_eq linked
  obtain ⟨normalized, name, accepted, stripped, rfl⟩ := resolveHardlinkTarget_ok resolved
  obtain ⟨names, member⟩ := normalizeArchivePath_ok accepted
  exact naturalDestination_isBelow canonical (member.strip stripped)

end

/-- The root a planner keeps when it is created with a canonical one. -/
theorem new_destinationRoot (canonical : IsCanonical root) (policy : ExtractionPolicy) :
    (new root policy).destinationRoot = root :=
  canonical.lexicallyNormalize

theorem run_destinationRoot (canonical : IsCanonical root) {policy : ExtractionPolicy}
    {requests : List Request} {made : Call}
    (member : made ∈ run fold resolver (new root policy) requests) :
    made.before.destinationRoot = root :=
  (run_settings made member).destinationRoot.trans (new_destinationRoot canonical policy)

/-- Every write decision of every run goes below the root, and so does the
source of every planned hardlink. -/
theorem run_writes_below_root (fold : CaseFolding) (resolver : Option OverwriteResolver)
    (root : PathBuf) (canonical : IsCanonical root) (policy : ExtractionPolicy)
    (requests : List Request) (made : Call)
    (member : made ∈ run fold resolver (new root policy) requests) (plan : PlannedWrite)
    (written : made.result = .ok (.write plan)) :
    IsBelow root plan.destinationPath ∧
      ∀ target, plan.linkTargetPath = some target → IsBelow root target := by
  have step := (isOutcome_of_mem_run member).writeStep (Call.plan?_of_result written)
  have kept := run_destinationRoot canonical member
  have anchored : IsCanonical made.before.destinationRoot := kept ▸ canonical
  rw [← kept]
  exact ⟨step.destination_isBelow anchored, fun target linked =>
    step.linkTarget_isBelow anchored linked⟩

end Planner

/-- The destination root of the runs on fixed entries. -/
def outRoot : PathBuf := [.rootDir, .normal "out".toList]

theorem outRoot_isCanonical : IsCanonical outRoot :=
  ⟨["out".toList], fun name member => by
    rw [List.mem_singleton.mp member]
    exact ⟨by decide, by decide, by decide, by decide⟩, rfl⟩

/-- A disk with the given objects below the root of the fixed runs. -/
def outDisk (objects : List (Location × Node Text)) : FileSystem Text :=
  .ofObjects ((["out".toList], .directory) :: objects)

theorem run_writes_below_root_hardlink :
    IsBelow outRoot (outRoot ++ PathBuf.ofNames ["c".toList]) ∧
      ∀ target, some (outRoot ++ PathBuf.ofNames ["a".toList, "b.txt".toList]) = some target →
        IsBelow outRoot target :=
  Planner.run_writes_below_root .ascii none outRoot outRoot_isCanonical {}
    [⟨(outDisk []).probe, ⟨"./a//b.txt".toList, .file, none, none⟩⟩,
      ⟨(outDisk []).probe, ⟨"c".toList, .hardlink "a\\b.txt".toList, none, none⟩⟩]
    _ (List.mem_cons_of_mem _ (List.mem_cons_self ..))
    ⟨"c".toList, outRoot ++ PathBuf.ofNames ["c".toList],
      some (outRoot ++ PathBuf.ofNames ["a".toList, "b.txt".toList]), false⟩
    (by decide +kernel)

end ZManager
