import ZManager.Rar.LinkSource
import ZManager.Safety.Rejection

/-! # RAR links to members planned earlier

The directories that lead to a planned file stay clear of symlinks until the end
of planning, so a link to it is rejected as unsafe only because of how its
target was rewritten or because the file's own place is a symlink
(`rar_links_validated_iff`).
-/

namespace ZManager

open Planner

/-! ## Paths that stay clear -/

/-- A path that is clear and that later entries may not make a symlink. -/
def StaysClear (fold : CaseFolding) (probe : Probe) (planner : Planner) (path : PathBuf) : Prop :=
  IsClear fold probe planner path ∧
    Planner.pathKey fold path ∈ planner.requiredNonSymlinkPaths

section

variable {fold : CaseFolding} {probe : Probe} {resolver : Option OverwriteResolver}
  {planner after : Planner}

variable {entry : ExtractionEntry} {plan : PlannedWrite} {path : PathBuf} {cancelled : Nat → Bool}
  {outcomes : List (RarEntry × EntryOutcome)} {entries : List RarEntry}

theorem StaysClear.write (clear : StaysClear fold probe planner path)
    (step : WriteStep fold probe resolver planner after entry plan) :
    StaysClear fold probe after path := by
  obtain ⟨⟨unplanned, notSymlink⟩, required⟩ := clear
  refine ⟨⟨?_, notSymlink⟩, step.requiredNonSymlinkPaths_mono required⟩
  rw [step.plannedSymlinks]
  unfold recordWritePaths
  dsimp only
  split_ifs with symlink
  · rw [Finset.mem_insert, not_or]
    exact ⟨fun same => step.checked.2.1 symlink (same ▸ required), unplanned⟩
  · exact fun member => unplanned (Finset.mem_of_mem_erase member)

theorem StaysClear.quiet (clear : StaysClear fold probe planner path)
    (step : QuietStep fold planner after entry) : StaysClear fold probe after path := by
  obtain ⟨⟨unplanned, notSymlink⟩, required⟩ := clear
  exact ⟨⟨step.plannedSymlinks ▸ unplanned, notSymlink⟩, step.requiredNonSymlinkPaths ▸ required⟩

/-- The ancestors of a written destination stay clear. -/
theorem Planner.WriteStep.ancestors_stayClear
    (step : WriteStep fold probe resolver planner after entry plan)
    (passed : path ∈ planner.destinationAncestors plan.destinationPath)
    (notSymlink : entry.kind.isSymlink = false) :
    StaysClear fold probe after path := by
  obtain ⟨unplanned, onDisk⟩ := step.checked.1 path passed
  refine ⟨⟨?_, onDisk⟩, ?_⟩
  · rw [step.plannedSymlinks]
    unfold recordWritePaths
    dsimp only
    rw [if_neg (by simp [notSymlink])]
    exact fun member => unplanned (Finset.mem_of_mem_erase member)
  · rw [step.requiredNonSymlinkPaths]
    refine Finset.mem_union_right _ (List.mem_toFinset.mpr (List.mem_map_of_mem ?_))
    exact List.mem_append_left _ (List.mem_append_left _ (List.mem_append_left _ passed))

theorem chargeFileCopy_exec (entry : RarEntry) (planner : Planner) :
    ∃ bytes, ((chargeFileCopy entry).exec planner).2 =
      { planner with plannedExpandedBytes := bytes } := by
  unfold chargeFileCopy
  split_ifs
  · rw [StepM.exec_mapError]
    unfold reserveExpandedBytes
    rw [StepM.exec_bind, StepM.exec_get]
    dsimp only
    cases planner.policy.limits.maxExpandedBytes with
    | none => exact ⟨_, rfl⟩
    | some limit =>
      dsimp only
      split_ifs
      · exact ⟨_, rfl⟩
      · exact ⟨_, rfl⟩
  · exact ⟨_, rfl⟩

variable {destination : PathBuf} {policy : ExtractionPolicy}

/-- Whatever the outcome, planning an entry keeps the settings and the paths
that stay clear. -/
theorem planRarEntry_keeps {entry : RarEntry} {result : Except RarBackendError EntryOutcome}
    (finished : (planRarEntry fold probe resolver destination policy entry).exec planner =
      (result, after)) :
    SameSettings planner after ∧
      ∀ path, StaysClear fold probe planner path → StaysClear fold probe after path := by
  have quiet : ∀ {asked : ExtractionEntry} {decision middle},
      (validateEntry fold probe resolver asked).exec planner = (decision, middle) →
      (∀ plan, decision ≠ .ok (.write plan)) → SameSettings planner middle ∧
        ∀ path, StaysClear fold probe planner path → StaysClear fold probe middle path := by
    intro asked decision middle validated unwritten
    have step := validateEntry_quiet validated unwritten
    exact ⟨step.settings, fun path clear => clear.quiet step⟩
  rcases planRarEntry_cases finished with ⟨rfl, -⟩ | ⟨_, asked, -, -, outcome⟩
  · exact ⟨.refl after, fun _ clear => clear⟩
  rcases outcome with ⟨_, validated, -⟩ | ⟨_, _, validated, -⟩ | ⟨write, middle, validated, outcome⟩
  · exact quiet validated (by simp)
  · exact quiet validated (by simp)
  have step := validateEntry_write validated
  have charged : ((chargeFileCopy entry).exec middle).2 = after := by
    rcases outcome with ⟨_, charged, -⟩ | ⟨charged, -⟩
    · rw [charged]
    · rw [charged]
  obtain ⟨bytes, same⟩ := chargeFileCopy_exec entry middle
  rw [charged] at same
  subst same
  refine ⟨⟨step.settings.1, step.settings.2, step.settings.3, step.settings.4⟩,
    fun path clear => ?_⟩
  obtain ⟨isClear, required⟩ := clear.write step
  exact ⟨isClear, required⟩

theorem planRarLoop_cons {poll : Nat} {entry : RarEntry} {rest : List RarEntry}
    (finished : (planRarLoop fold probe resolver destination policy cancelled poll
      (entry :: rest)).exec planner = (.ok outcomes, after)) :
    ∃ outcome middle others,
      (planRarEntry fold probe resolver destination policy entry).exec planner =
        (.ok outcome, middle) ∧
      (planRarLoop fold probe resolver destination policy cancelled (poll + 1) rest).exec middle =
        (.ok others, after) ∧ outcomes = (entry, outcome) :: others := by
  unfold planRarLoop at finished
  split_ifs at finished
  · cases finished
  obtain ⟨outcome, middle, planned, finished⟩ := StepM.exec_bind_eq_ok.mp finished
  obtain ⟨others, last, looped, finished⟩ := StepM.exec_bind_eq_ok.mp finished
  cases finished
  exact ⟨outcome, middle, others, planned, looped, rfl⟩

theorem planRarLoop_keeps {poll : Nat}
    (finished : (planRarLoop fold probe resolver destination policy cancelled poll entries).exec
      planner = (.ok outcomes, after)) :
    SameSettings planner after ∧
      ∀ path, StaysClear fold probe planner path → StaysClear fold probe after path := by
  induction entries generalizing planner poll outcomes with
  | nil =>
    cases finished
    exact ⟨.refl after, fun _ clear => clear⟩
  | cons entry rest ih =>
    obtain ⟨_, middle, others, planned, looped, -⟩ := planRarLoop_cons finished
    obtain ⟨settings, keeps⟩ := planRarEntry_keeps planned
    obtain ⟨settings', keeps'⟩ := ih looped
    exact ⟨settings.trans _ _ _ settings', fun path clear => keeps' path (keeps path clear)⟩

theorem destinationAncestors_congr {left right : Planner}
    (same : left.destinationRoot = right.destinationRoot) :
    left.destinationAncestors = right.destinationAncestors := by
  funext path
  unfold destinationAncestors
  rw [same]

/-- A conflict does not change the ancestors of a destination. -/
theorem Planner.WriteStep.destinationAncestors_natural {root : Location} (valid : root.IsValid)
    (anchored : planner.destinationRoot = root.toPath)
    (step : WriteStep fold probe resolver planner after entry plan) :
    planner.destinationAncestors (planner.naturalDestination plan.normalizedArchivePath) =
      planner.destinationAncestors plan.destinationPath := by
  obtain ⟨names, last, last', natural, destination⟩ := step.exists_sibling valid anchored
  unfold destinationAncestors
  rw [natural, destination, ← List.append_assoc, ← List.append_assoc, parent_toPath,
    parent_toPath]

/-- The step of a file that is planned. -/
theorem planRarEntry_file {entry : RarEntry} (isFile : entry.kind = .file) {plan : PlannedEntry}
    (finished : (planRarEntry fold probe resolver destination policy entry).exec planner =
      (.ok (.planned plan), after)) :
    ∃ write, WriteStep fold probe resolver planner after
      ⟨entry.path, .file, some entry.unpackedSize, none⟩ write := by
  rcases planRarEntry_cases finished with
    ⟨-, ⟨_, failed, -⟩ | ⟨-, _, skipped⟩⟩ | ⟨presented, asked, -, presents, outcome⟩
  · cases failed
  · cases skipped
  unfold safetyEntry extractionEntryKind at presents
  rw [isFile] at presents
  cases presents
  rcases outcome with ⟨_, -, failed⟩ | ⟨_, _, -, skipped⟩ | ⟨write, middle, validated, outcome⟩
  · cases failed
  · cases skipped
  rcases outcome with ⟨_, -, failed⟩ | ⟨charged, -⟩
  · cases failed
  unfold chargeFileCopy at charged
  rw [isFile, if_neg (by decide)] at charged
  cases charged
  exact ⟨write, validateEntry_write validated⟩

/-- The directories that lead to a file planned earlier stay clear. -/
theorem planRarLoop_file {poll : Nat} {root : Location} (valid : root.IsValid)
    (anchored : planner.destinationRoot = root.toPath)
    (finished : (planRarLoop fold probe resolver destination policy cancelled poll entries).exec
      planner = (.ok outcomes, after))
    {file : RarEntry} {plan : PlannedEntry} (planned : (file, .planned plan) ∈ outcomes)
    (isFile : file.kind = .file) {normalized name : Text}
    (accepted : normalizeArchivePath file.path = .ok normalized)
    (stripped : stripArchiveComponents normalized planner.policy.stripComponents = some name) :
    ∀ path ∈ planner.destinationAncestors (planner.naturalDestination name),
      StaysClear fold probe after path := by
  induction entries generalizing planner poll outcomes with
  | nil =>
    cases finished
    cases planned
  | cons entry rest ih =>
    obtain ⟨outcome, middle, others, first, looped, rfl⟩ := planRarLoop_cons finished
    obtain ⟨settings, -⟩ := planRarEntry_keeps first
    intro path passed
    rcases List.mem_cons.mp planned with same | planned
    · obtain ⟨rfl, rfl⟩ := Prod.mk.inj same
      obtain ⟨write, step⟩ := planRarEntry_file isFile first
      obtain ⟨found, found', -, kept⟩ := selectMember_ok step.member
      rw [accepted] at found'
      cases found'
      rw [stripped] at kept
      obtain rfl := Option.some.inj kept
      rw [step.destinationAncestors_natural valid anchored] at passed
      exact (planRarLoop_keeps looped).2 path (step.ancestors_stayClear passed rfl)
    · refine ih (settings.destinationRoot.trans anchored) looped planned
        (settings.policy.symm ▸ stripped) path ?_
      have root' := settings.destinationRoot
      rw [destinationAncestors_congr root']
      unfold naturalDestination at passed ⊢
      rwa [root']

end

/-! ## Links that are not rejected -/

/-- The failures that reject a RAR entry as unsafe. -/
def RarBackendError.isUnsafe : RarBackendError → Bool
  | safety source => source.isUnsafe
  | invalidLinkTarget .. => true
  | unrar _ | io .. | missingLinkTarget _ | dictionaryTooLarge .. | cancelled => false

section

variable {fold : CaseFolding} {probe : Probe} {resolver : Option OverwriteResolver}
  {planner after : Planner} {policy : ExtractionPolicy} {root : Location}

variable {failure : RarBackendError}

theorem chargeFileCopy_harmless {entry : RarEntry}
    (failed : (chargeFileCopy entry).exec planner = (.error failure, after)) :
    failure.isUnsafe = false := by
  unfold chargeFileCopy at failed
  split_ifs at failed
  · rw [StepM.exec_mapError] at failed
    obtain ⟨stopped, -⟩ := Prod.mk.inj failed
    cases outcome : (StepM.exec (reserveExpandedBytes entry.path entry.unpackedSize) planner).1 with
    | ok _ =>
      rw [outcome] at stopped
      cases stopped
    | error found =>
      rw [outcome] at stopped
      cases stopped
      exact reserveExpandedBytes_neverUnsafe _ _ planner found outcome
  · cases failed

/-- Nothing lies between the root and a name right below it. -/
theorem destinationAncestors_topLevel (anchored : planner.destinationRoot = root.toPath)
    (last : Text) : planner.destinationAncestors (Location.toPath (root ++ [last])) = [] := by
  unfold destinationAncestors
  rw [parent_toPath, anchored]
  simp [PathBuf.stripPrefix]

theorem selectMember_ne_error {entry : ExtractionEntry} {normalized : Text}
    (accepted : normalizeArchivePath entry.archivePath = .ok normalized)
    (failure : ExtractionSafetyError) : selectMember planner entry ≠ .error failure := by
  unfold selectMember
  rw [accepted]
  change (if planner.isPathSelected normalized = true then _ else _) ≠ _
  split_ifs
  · split
    · intro failed
      cases failed
    · intro failed
      cases failed
  · intro failed
    cases failed
  · intro failed
    cases failed

/-- The target of a link that names a plain member resolves to its destination. -/
theorem resolveHardlinkTarget_plain (canonical : IsCanonical planner.destinationRoot)
    (unstripped : planner.policy.stripComponents = 0) {member : Text} {names : List Text}
    (named : IsMemberPath member names) (plain : ∀ name ∈ names, IsPlainName name)
    (noDrive : hasWindowsPrefix member = false) :
    resolveHardlinkTarget planner member = .ok (planner.naturalDestination member) := by
  unfold resolveHardlinkTarget
  rw [normalizeArchivePath_of_plain named plain, noDrive, unstripped]
  have inside : planner.destinationRoot <+: planner.naturalDestination member := by
    rw [naturalDestination_eq canonical named]
    exact List.prefix_append ..
  simp [inside]

/-- A top-level link to a plain member below clear directories is not rejected
as unsafe. -/
theorem planRarEntry_link_harmless (valid : root.IsValid)
    (anchored : planner.destinationRoot = root.toPath) (settings : planner.policy = policy)
    (unstripped : policy.stripComponents = 0) {entry : RarEntry}
    (isLink : entry.kind.isMemberLink = true) {target member : Text}
    (stored : entry.linkTarget = some target)
    (accepted : normalizeArchivePath target = .ok member) (top : IsTopLevel entry.path)
    (noDrive : hasWindowsPrefix member = false)
    (clear : ∀ path ∈ planner.destinationAncestors (planner.naturalDestination member) ++
      [planner.naturalDestination member], IsClear fold probe planner path)
    (failed : (planRarEntry fold probe resolver root.toPath policy entry).exec planner =
      (.error failure, after)) :
    failure.isUnsafe = false := by
  have canonical : IsCanonical planner.destinationRoot := anchored ▸ valid.isCanonical
  obtain ⟨linkName, linkAccepted, level⟩ := top
  obtain ⟨linkNames, linkMember⟩ := normalizeArchivePath_ok linkAccepted
  obtain ⟨names, named, plain⟩ := normalizeArchivePath_plain accepted
  have stripped : strippedLinkTarget entry policy = .ok (some member) := by
    unfold strippedLinkTarget
    rw [if_pos isLink, linkTarget_eq stored, unstripped]
    change strippedArchivePath target 0 >>= (fun stripped => .ok (some stripped)) = _
    rw [strippedArchivePath_of_normalized accepted]
    rfl
  have presented : safetyEntry entry policy (some member) =
      .ok (some ⟨entry.path, .hardlink member, some entry.unpackedSize, none⟩) := by
    rw [safetyEntry_of_link isLink stored, unstripped,
      strippedArchivePath_of_normalized linkAccepted]
    simp only [Except.map]
    rw [(linkParent_eq_nil_iff linkMember).mpr level, relativePath_nil]
  rcases planRarEntry_cases failed with
    ⟨-, ⟨_, same, large | rejected⟩ | ⟨-, _, skipped⟩⟩ | ⟨_, asked, same, presents, outcome⟩
  · cases same
    unfold rejectLargeDictionary at large
    split_ifs at large
    cases large
    rfl
  · rw [stripped] at rejected
    change safetyEntry entry policy (some member) = _ at rejected
    rw [presented] at rejected
    cases rejected
  · cases skipped
  rw [stripped] at same
  cases same
  rw [presented] at presents
  cases presents
  rcases outcome with ⟨found, validated, same⟩ | ⟨_, _, -, skipped⟩ | ⟨write, middle, -, outcome⟩
  · cases same
    by_contra harmful
    have isUnsafe : found.isUnsafe = true := by simpa [RarBackendError.isUnsafe] using harmful
    rcases validateEntry_unsafe validated isUnsafe with
      unselected | ⟨name, selected, outside | unlinked | ⟨plan, linked, choice, invalid⟩⟩
    · exact selectMember_ne_error linkAccepted _ unselected
    · obtain ⟨placed, placedMember⟩ := selectMember_isMemberPath selected
      have inside : planner.destinationRoot <+: planner.naturalDestination name := by
        rw [naturalDestination_eq canonical placedMember]
        exact List.prefix_append ..
      unfold ensureInsideDestination at outside
      rw [if_pos inside] at outside
      cases outside
    · unfold planLink at unlinked
      dsimp only at unlinked
      rw [resolveHardlinkTarget_plain canonical (settings ▸ unstripped) named plain noDrive]
        at unlinked
      cases unlinked
    · obtain ⟨normalized, accepted', -, kept⟩ := selectMember_ok selected
      rw [linkAccepted] at accepted'
      cases accepted'
      rw [settings, unstripped, stripArchiveComponents_zero] at kept
      obtain rfl := Option.some.inj kept
      obtain ⟨front, last, last', single, -, destination⟩ :=
        choice.exists_sibling valid anchored linkMember
      rw [← linkMember.splitOn_eq, List.splitOn_eq_singleton level] at single
      obtain rfl : front = [] := by
        have lengths := congrArg List.length single
        simp only [List.length_append, List.length_singleton] at lengths
        exact List.length_eq_zero_iff.mp (by omega)
      unfold planLink at linked
      dsimp only at linked
      rw [resolveHardlinkTarget_plain canonical (settings ▸ unstripped) named plain noDrive]
        at linked
      have target : some (planner.naturalDestination member) = plan.linkTargetPath := by
        injection linked with linked
        injection linked
      unfold validateWritePaths symlinkTargetAncestors linkTargetPaths at invalid
      rw [destination, List.nil_append, destinationAncestors_topLevel anchored, ← target]
        at invalid
      change requireNonSymlinks fold probe planner _ _ >>= (fun _ =>
        requireNonSymlinks fold probe planner [] _) = _ at invalid
      cases checked : requireNonSymlinks fold probe planner
          (planner.destinationAncestors (planner.naturalDestination member) ++
            [planner.naturalDestination member]) entry.path with
      | ok _ =>
        rw [checked] at invalid
        cases invalid
      | error stopped =>
        rw [checked] at invalid
        cases invalid
        rw [requireNonSymlinks_of_clear clear checked] at isUnsafe
        cases isUnsafe
  · cases skipped
  · obtain ⟨made, planned, -⟩ := @planEntry_of_link root.toPath policy entry isLink target member
      stored write
    rcases outcome with ⟨_, charged, same⟩ | ⟨-, same⟩
    · cases same
      exact chargeFileCopy_harmless charged
    · rw [planned] at same
      cases same

end

/-- The outcomes the rules on links speak about: the link is planned, or it is
rejected as unsafe. -/
def IsJudged (result : Except RarBackendError EntryOutcome) : Prop :=
  (∃ plan, result = .ok (.planned plan)) ∨
    ∃ failure, result = .error failure ∧ failure.isUnsafe = true

/-- **Links and validated paths.** However the entries before it were planned, a
planned hardlink or file copy is made from the path that was validated for it
exactly when nothing is stripped and the link lies at the top level; the path is
then below the root, and no directory that leads to it is a symlink. A link to a
file planned earlier that is planned or rejected as unsafe is planned from the
validated path exactly when in addition its target does not look like a drive and
the file's own place is no symlink. -/
theorem rar_links_validated_iff (fold : CaseFolding) (probe : Probe)
    (resolver : Option OverwriteResolver) (root : Location) (valid : root.IsValid)
    (policy : ExtractionPolicy) (cancelled : Nat → Bool) (poll : Nat) (front : List RarEntry)
    (outcomes : List (RarEntry × EntryOutcome)) (before : Planner)
    (reached : (planRarLoop fold probe resolver root.toPath policy cancelled poll front).exec
      (new root.toPath policy) = (.ok outcomes, before))
    (link : RarEntry) (isLink : link.kind.isMemberLink = true)
    (result : Except RarBackendError EntryOutcome) (after : Planner)
    (finished : (planRarEntry fold probe resolver root.toPath policy link).exec before =
      (result, after)) :
    (∀ plan source, result = .ok (.planned plan) → plan.sourcePath? = some source →
      (validatedLinkTarget fold probe resolver policy before link = some source ↔
        policy.stripComponents = 0 ∧ IsTopLevel link.path) ∧
      (policy.stripComponents = 0 ∧ IsTopLevel link.path → IsBelow root.toPath source ∧
        ∀ path ∈ before.destinationAncestors source, IsClear fold probe before path)) ∧
    ∀ target member file filePlan, link.linkTarget = some target →
      normalizeArchivePath target = .ok member → (file, .planned filePlan) ∈ outcomes →
      file.kind = .file → normalizeArchivePath file.path = .ok member → IsJudged result →
      ((∃ plan source, result = .ok (.planned plan) ∧ plan.sourcePath? = some source ∧
          validatedLinkTarget fold probe resolver policy before link = some source) ↔
        policy.stripComponents = 0 ∧ IsTopLevel link.path ∧ hasWindowsPrefix member = false ∧
          IsClear fold probe before (root.toPath.join member)) := by
  obtain ⟨settings, -⟩ := planRarLoop_keeps reached
  have started := new_destinationRoot valid.isCanonical policy
  have anchored : before.destinationRoot = root.toPath := settings.destinationRoot.trans started
  have samePolicy : before.policy = policy := settings.policy
  have canonical : IsCanonical before.destinationRoot := anchored ▸ valid.isCanonical
  have planned : ∀ plan source, result = .ok (.planned plan) → plan.sourcePath? = some source →
      ∃ target strippedTarget, link.linkTarget = some target ∧
        strippedArchivePath target policy.stripComponents = .ok strippedTarget ∧
        source = before.destinationRoot.join strippedTarget ∧
        (validatedLinkTarget fold probe resolver policy before link = some source ↔
          policy.stripComponents = 0 ∧ IsTopLevel link.path) ∧
        (validatedLinkTarget fold probe resolver policy before link = some source →
          IsBelow root.toPath source ∧
          (∀ path ∈ before.destinationAncestors source ++ [source],
            IsClear fold probe before path) ∧
          ∃ path, normalizeArchivePath strippedTarget = .ok path) := by
    rintro plan source rfl found
    obtain ⟨target, strippedTarget, strippedLink, write, middle, stored, kept, linkPath, step,
      source', validated⟩ := planRarEntry_link isLink finished
    rw [found, ← anchored] at source'
    obtain rfl := Option.some.inj source'
    have agree := validated_eq_source_iff canonical samePolicy kept linkPath step
    rw [validated]
    refine ⟨target, strippedTarget, stored, kept, rfl, agree, fun linked => ⟨?_, ?_, ?_⟩⟩
    · exact anchored ▸ step.linkTarget_isBelow canonical linked
    · have checked := step.checked.2.2.1
      unfold linkTargetPaths at checked
      rw [linked] at checked
      exact checked
    · obtain ⟨zero, name, accepted, level⟩ := agree.mp linked
      rw [zero, strippedArchivePath_of_normalized accepted] at linkPath
      cases linkPath
      obtain ⟨names, member⟩ := normalizeArchivePath_ok accepted
      obtain ⟨path, resolved, -⟩ := step.linkTargetPath_of_hardlink rfl
      rw [(linkParent_eq_nil_iff member).mpr level, relativePath_nil] at resolved
      obtain ⟨normalized, -, again, -⟩ := resolveHardlinkTarget_ok resolved
      exact ⟨normalized, again⟩
  refine ⟨fun plan source same found => ?_, ?_⟩
  · obtain ⟨_, _, -, -, -, agree, safe⟩ := planned plan source same found
    refine ⟨agree, fun condition => ?_⟩
    obtain ⟨below, clear, -⟩ := safe (agree.mpr condition)
    exact ⟨below, fun path member => clear path (List.mem_append_left _ member)⟩
  intro target member file filePlan stored accepted earlier isFile fileAccepted judged
  obtain ⟨names, named, plain⟩ := normalizeArchivePath_plain accepted
  have place : root.toPath.join member = before.naturalDestination member := by
    rw [naturalDestination_eq canonical named, named.join, anchored]
  constructor
  · rintro ⟨plan, source, same, found, validated⟩
    obtain ⟨_, strippedTarget, stored', kept, rfl, agree, safe⟩ := planned plan source same found
    rw [stored] at stored'
    cases stored'
    obtain ⟨zero, top⟩ := agree.mp validated
    obtain ⟨-, clear, path, again⟩ := safe validated
    rw [zero, strippedArchivePath_of_normalized accepted] at kept
    cases kept
    refine ⟨zero, top, ?_, ?_⟩
    · rw [normalizeArchivePath_of_plain named plain] at again
      by_contra drive
      rw [if_pos (by simpa using drive)] at again
      cases again
    · rw [anchored] at clear
      exact clear _ (by simp)
  · rintro ⟨zero, top, noDrive, clear⟩
    rw [place] at clear
    have unstripped : stripArchiveComponents member policy.stripComponents = some member := by
      rw [zero, stripArchiveComponents_zero]
    have directories : ∀ path ∈ before.destinationAncestors (before.naturalDestination member),
        IsClear fold probe before path := by
      intro path passed
      refine (planRarLoop_file valid started reached earlier isFile fileAccepted unstripped path
        ?_).1
      rw [destinationAncestors_congr settings.destinationRoot] at passed
      unfold naturalDestination at passed ⊢
      rwa [settings.destinationRoot] at passed
    rcases judged with ⟨plan, same⟩ | ⟨failure, rfl, harmful⟩
    · rw [same] at finished
      obtain ⟨_, strippedTarget, _, _, _, _, _, _, _, found, -⟩ :=
        planRarEntry_link isLink finished
      obtain ⟨_, _, -, -, -, agree, -⟩ := planned plan _ same found
      exact ⟨plan, _, same, found, agree.mpr ⟨zero, top⟩⟩
    · have harmless := planRarEntry_link_harmless valid anchored samePolicy zero isLink stored
        accepted top noDrive (fun path passed => by
          rcases List.mem_append.mp passed with passed | passed
          · exact directories path passed
          · rwa [List.mem_singleton.mp passed]) finished
      rw [harmless] at harmful
      cases harmful

/-- The planner after a file `d/t` has been planned for an empty root. -/
def plannedFile : Planner :=
  ((planRarLoop .ascii (outDisk []).probe none (Location.toPath ["out".toList]) {} (fun _ => false)
    0 [{ path := "d/t".toList, kind := .file }]).exec
      (new (Location.toPath ["out".toList]) {})).2

/-- A hardlink at the top level to a file in a directory. -/
theorem rar_links_validated_topLevel :
    ∃ plan source,
      ((planRarEntry .ascii (outDisk []).probe none (Location.toPath ["out".toList]) {}
          { path := "l".toList, kind := .hardlink, linkTarget := some "d/t".toList }).exec
        plannedFile).1 = .ok (.planned plan) ∧ plan.sourcePath? = some source ∧
      validatedLinkTarget .ascii (outDisk []).probe none {} plannedFile
        { path := "l".toList, kind := .hardlink, linkTarget := some "d/t".toList } =
          some source :=
  ((rar_links_validated_iff .ascii (outDisk []).probe none ["out".toList] out_isValid {}
    (fun _ => false) 0 [{ path := "d/t".toList, kind := .file }]
    [({ path := "d/t".toList, kind := .file },
      .planned (.file "d/t".toList (outRoot ++ PathBuf.ofNames ["d".toList, "t".toList]) false
        0 0 0))]
    plannedFile (Prod.ext (by decide +kernel) rfl)
    { path := "l".toList, kind := .hardlink, linkTarget := some "d/t".toList } rfl
    _ _ rfl).2 "d/t".toList "d/t".toList { path := "d/t".toList, kind := .file }
      (.file "d/t".toList (outRoot ++ PathBuf.ofNames ["d".toList, "t".toList]) false 0 0 0)
      rfl (by decide +kernel) (by decide +kernel) rfl (by decide +kernel)
      (.inl ⟨.hardlink (outRoot ++ PathBuf.ofNames ["l".toList]) false
        (outRoot ++ PathBuf.ofNames ["d".toList, "t".toList]) 0 0, by decide +kernel⟩)).mpr
    ⟨rfl, ⟨"l".toList, by decide +kernel, by decide +kernel⟩, by decide +kernel,
      by decide +kernel, by decide +kernel⟩

/-- A hardlink inside `d` to its neighbour `d/t` is made from `d/t` while `t` was
validated, and one to the planned file `t` of the top level is rejected. -/
theorem rar_links_miss_validated :
    (((planRarEntry .ascii (outDisk []).probe none (Location.toPath ["out".toList]) {}
        { path := "d/l".toList, kind := .hardlink, linkTarget := some "d/t".toList }).exec
          plannedFile).1 =
      .ok (.planned (.hardlink (outRoot ++ PathBuf.ofNames ["d".toList, "l".toList]) false
        (outRoot ++ PathBuf.ofNames ["d".toList, "t".toList]) 0 0)) ∧
    validatedLinkTarget .ascii (outDisk []).probe none {} plannedFile
        { path := "d/l".toList, kind := .hardlink, linkTarget := some "d/t".toList } =
      some (outRoot ++ PathBuf.ofNames ["t".toList])) ∧
    ((planRarLoop .ascii (outDisk []).probe none (Location.toPath ["out".toList]) {}
        (fun _ => false) 0 [{ path := "t".toList, kind := .file },
          { path := "d/l".toList, kind := .hardlink, linkTarget := some "t".toList }]).exec
      (new (Location.toPath ["out".toList]) {})).1 =
        .error (.safety (.linkTargetEscapes "../t".toList)) := by
  decide +kernel

end ZManager
