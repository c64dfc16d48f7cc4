import ZManager.Safety.Planner

/-! # What a planner step can do

A call of `Planner.validateEntry` never changes the root or the policy
(`Planner.validateEntry_preserves`), and when it returns a write decision every
check of the planner has passed in the state before the call
(`Planner.WriteStep`). The destination it writes to is one of the few choices
of `Planner.DestinationChoice`.
-/

namespace ZManager

namespace Planner

variable {name : Text} {entry : ExtractionEntry} {natural : PathBuf}
  {failure : ExtractionSafetyError}

/-- The settings a planner is created with. -/
structure SameSettings (before after : Planner) : Prop where
  destinationRoot : after.destinationRoot = before.destinationRoot
  policy : after.policy = before.policy
  compiledIncludes : after.compiledIncludes = before.compiledIncludes
  compiledExcludes : after.compiledExcludes = before.compiledExcludes

namespace SameSettings

theorem refl (planner : Planner) : SameSettings planner planner := ⟨rfl, rfl, rfl, rfl⟩

theorem trans (first second third : Planner) (left : SameSettings first second)
    (right : SameSettings second third) : SameSettings first third :=
  ⟨right.destinationRoot.trans left.destinationRoot, right.policy.trans left.policy,
    right.compiledIncludes.trans left.compiledIncludes,
    right.compiledExcludes.trans left.compiledExcludes⟩

end SameSettings

variable {fold : CaseFolding} {probe : Probe} {resolver : Option OverwriteResolver}

/-! ## Settings are never changed -/

theorem reserveEntry_preserves (archivePath : Text) :
    StepM.Preserves SameSettings (reserveEntry archivePath) := by
  intro planner
  unfold reserveEntry
  rw [StepM.exec_bind, StepM.exec_get]
  dsimp only
  cases planner.policy.limits.maxEntries with
  | none => exact .refl planner
  | some limit =>
    dsimp only
    split_ifs
    · exact .refl planner
    · exact ⟨rfl, rfl, rfl, rfl⟩

theorem rejectCollision_preserves (normalizedArchivePath : Text) :
    StepM.Preserves SameSettings (rejectCollision fold normalizedArchivePath) := by
  intro planner
  unfold rejectCollision
  rw [StepM.exec_bind, StepM.exec_get]
  dsimp only
  rw [StepM.exec_bind, StepM.exec_set]
  dsimp only
  cases planner.seenPaths (caseCollisionKey fold normalizedArchivePath) with
  | none => exact ⟨rfl, rfl, rfl, rfl⟩
  | some previous => exact ⟨rfl, rfl, rfl, rfl⟩

theorem resolveOverwriteConflict_preserves (entry : ExtractionEntry) (path : PathBuf) :
    StepM.Preserves SameSettings (resolveOverwriteConflict resolver entry path) := by
  intro planner
  unfold resolveOverwriteConflict
  cases resolver with
  | none => exact .refl planner
  | some decide => exact ⟨rfl, rfl, rfl, rfl⟩

theorem renameCandidateOrError_preserves (entry : ExtractionEntry) (path : PathBuf) :
    StepM.Preserves SameSettings (renameCandidateOrError probe entry path) := by
  intro planner
  unfold renameCandidateOrError
  rw [StepM.exec_bind, StepM.exec_get]
  dsimp only
  split
  · exact .refl planner
  · exact ⟨rfl, rfl, rfl, rfl⟩

theorem reserveExpandedBytes_preserves (archivePath : Text) (bytes : UInt64) :
    StepM.Preserves SameSettings (reserveExpandedBytes archivePath bytes) := by
  intro planner
  unfold reserveExpandedBytes
  rw [StepM.exec_bind, StepM.exec_get]
  dsimp only
  cases planner.policy.limits.maxExpandedBytes with
  | none => exact .refl planner
  | some limit =>
    dsimp only
    split_ifs
    · exact .refl planner
    · exact ⟨rfl, rfl, rfl, rfl⟩

theorem get_preserves : StepM.Preserves SameSettings (get : PlanM Planner) :=
  .of_exec_eq SameSettings.refl fun _ => rfl

theorem pure_preserves {α : Type} (value : α) :
    StepM.Preserves SameSettings (pure value : PlanM α) :=
  .of_exec_eq SameSettings.refl fun _ => rfl

theorem throw_preserves {α : Type} (failure : ExtractionSafetyError) :
    StepM.Preserves SameSettings (throw failure : PlanM α) :=
  .of_exec_eq SameSettings.refl fun _ => rfl

theorem lift_preserves {α : Type} (result : Except ExtractionSafetyError α) :
    StepM.Preserves SameSettings (liftM result : PlanM α) :=
  .of_exec_eq SameSettings.refl fun _ => by rw [StepM.exec_lift]

theorem reserveExpandedSize_preserves (entry : ExtractionEntry) :
    StepM.Preserves SameSettings (reserveExpandedSize entry) := by
  unfold reserveExpandedSize
  split
  · refine .bind SameSettings.trans get_preserves fun planner => ?_
    exact .bind SameSettings.trans (lift_preserves _) fun _ => reserveExpandedBytes_preserves _ _
  · exact pure_preserves _

theorem rejectCollisionUnlessReplacing_preserves (normalizedArchivePath : Text) :
    StepM.Preserves SameSettings (rejectCollisionUnlessReplacing fold normalizedArchivePath) := by
  unfold rejectCollisionUnlessReplacing
  refine .bind SameSettings.trans get_preserves fun planner => ?_
  split_ifs
  · exact rejectCollision_preserves _
  · exact pure_preserves _

theorem planDestinationWrite_preserves (entry : ExtractionEntry) (normalizedArchivePath : Text)
    (destinationPath : PathBuf) (linkTargetPath : Option PathBuf) :
    StepM.Preserves SameSettings (planDestinationWrite probe resolver entry
      normalizedArchivePath destinationPath linkTargetPath) := by
  unfold planDestinationWrite
  refine .bind SameSettings.trans get_preserves fun planner => ?_
  dsimp only
  split
  · split_ifs
    · exact pure_preserves _
    · exact throw_preserves _
  · split
    · split_ifs
      · exact pure_preserves _
      · exact throw_preserves _
    · exact pure_preserves _
    · split_ifs
      · exact pure_preserves _
      · exact .bind SameSettings.trans (renameCandidateOrError_preserves _ _) fun _ =>
          pure_preserves _
    · split_ifs
      · exact pure_preserves _
      · refine .bind SameSettings.trans (resolveOverwriteConflict_preserves _ _) fun answer => ?_
        cases answer with
        | replace => exact pure_preserves _
        | skip => exact pure_preserves _
        | rename =>
          exact .bind SameSettings.trans (renameCandidateOrError_preserves _ _) fun _ =>
            pure_preserves _
        | quit => exact throw_preserves _

/-- No call changes the settings, whatever its result. -/
theorem validateEntry_preserves (entry : ExtractionEntry) :
    StepM.Preserves SameSettings (validateEntry fold probe resolver entry) := by
  unfold validateEntry
  refine .bind SameSettings.trans get_preserves fun start => ?_
  refine .bind SameSettings.trans (lift_preserves _) fun member => ?_
  cases member with
  | inl skipped => exact pure_preserves _
  | inr name =>
    refine .bind SameSettings.trans (reserveEntry_preserves _) fun _ => ?_
    refine .bind SameSettings.trans get_preserves fun planner => ?_
    refine .bind SameSettings.trans (lift_preserves _) fun _ => ?_
    refine .bind SameSettings.trans (lift_preserves _) fun link => ?_
    cases link with
    | inl reason => exact pure_preserves _
    | inr linkTargetPath =>
      refine .bind SameSettings.trans (rejectCollisionUnlessReplacing_preserves _) fun _ => ?_
      refine .bind SameSettings.trans (planDestinationWrite_preserves _ _ _ _) fun chosen => ?_
      cases chosen with
      | skip _ reason => exact pure_preserves _
      | write plan =>
        refine .bind SameSettings.trans get_preserves fun current => ?_
        refine .bind SameSettings.trans (lift_preserves _) fun _ => ?_
        refine .bind SameSettings.trans (reserveExpandedSize_preserves _) fun _ => ?_
        refine .bind SameSettings.trans ?_ fun _ => pure_preserves _
        exact fun _ => ⟨rfl, rfl, rfl, rfl⟩

/-! ## Successful stages -/

variable {planner after : Planner}

theorem reserveEntry_ok {archivePath : Text}
    (finished : (reserveEntry archivePath).exec planner = (.ok (), after)) :
    ∃ entries, after = { planner with plannedEntries := entries } := by
  unfold reserveEntry at finished
  rw [StepM.exec_bind, StepM.exec_get] at finished
  dsimp only at finished
  cases limit : planner.policy.limits.maxEntries with
  | none =>
    rw [limit] at finished
    cases finished
    exact ⟨_, rfl⟩
  | some bound =>
    rw [limit] at finished
    dsimp only at finished
    split_ifs at finished
    · cases finished
    · cases finished
      exact ⟨_, rfl⟩

theorem rejectCollisionUnlessReplacing_ok
    (finished : (rejectCollisionUnlessReplacing fold name).exec planner = (.ok (), after)) :
    (planner.policy.overwrite = .replace ∧ after = planner) ∨
      (planner.policy.overwrite ≠ .replace ∧
        planner.seenPaths (caseCollisionKey fold name) = none ∧
        after = { planner with
          seenPaths := Function.update planner.seenPaths (caseCollisionKey fold name)
            (some name) }) := by
  unfold rejectCollisionUnlessReplacing at finished
  rw [StepM.exec_bind, StepM.exec_get] at finished
  dsimp only at finished
  split_ifs at finished with replacing
  · right
    unfold rejectCollision at finished
    rw [StepM.exec_bind, StepM.exec_get] at finished
    dsimp only at finished
    rw [StepM.exec_bind, StepM.exec_set] at finished
    dsimp only at finished
    cases seen : planner.seenPaths (caseCollisionKey fold name) with
    | some previous =>
      rw [seen] at finished
      cases finished
    | none =>
      rw [seen] at finished
      cases finished
      exact ⟨replacing, rfl, rfl⟩
  · left
    cases finished
    exact ⟨not_not.mp replacing, rfl⟩

/-- The bytes charged for an accepted entry stay within the limit. -/
structure IsCharge (planner : Planner) (entry : ExtractionEntry) (bytes : UInt64) : Prop where
  file : ∀ size limit, entry.kind = .file → entry.uncompressedSize = some size →
    planner.policy.limits.maxExpandedBytes = some limit →
      bytes = saturatingAdd planner.plannedExpandedBytes size ∧ bytes ≤ limit
  other : entry.kind ≠ .file → bytes = planner.plannedExpandedBytes

theorem reserveExpandedSize_ok
    (finished : (reserveExpandedSize entry).exec planner = (.ok (), after)) :
    ∃ bytes, after = { planner with plannedExpandedBytes := bytes } ∧
      IsCharge planner entry bytes := by
  unfold reserveExpandedSize at finished
  split at finished
  · rename_i size kind declared
    rw [StepM.exec_bind, StepM.exec_get] at finished
    dsimp only at finished
    obtain ⟨_, middle, checked, finished⟩ := StepM.exec_bind_eq_ok.mp finished
    rw [StepM.exec_lift] at checked
    obtain ⟨-, rfl⟩ := Prod.mk.inj checked
    unfold reserveExpandedBytes at finished
    rw [StepM.exec_bind, StepM.exec_get] at finished
    dsimp only at finished
    cases bounded : planner.policy.limits.maxExpandedBytes with
    | none =>
      rw [bounded] at finished
      cases finished
      refine ⟨_, rfl, fun _ _ _ _ found => ?_, fun different => absurd kind different⟩
      rw [bounded] at found
      cases found
    | some bound =>
      rw [bounded] at finished
      dsimp only at finished
      split_ifs at finished with exceeded
      · cases finished
      · cases finished
        refine ⟨_, rfl, fun size' limit _ declared' found => ?_,
          fun different => absurd kind different⟩
        rw [declared] at declared'
        cases declared'
        rw [bounded] at found
        cases found
        exact ⟨rfl, UInt64.not_lt.mp exceeded⟩
  · rename_i uncharged
    cases finished
    exact ⟨_, rfl, fun size _ kind declared => absurd declared (uncharged size kind), fun _ => rfl⟩

theorem renameCandidateOrError_ok {candidate : PathBuf}
    (finished : (renameCandidateOrError probe entry natural).exec planner =
      (.ok candidate, after)) :
    ∃ resumeIndex, nextAvailableDestinationPathFrom probe natural
        ((planner.nextRenameIndex natural).getD firstRenameIndex) maxRenameCandidates =
          some (candidate, resumeIndex) ∧
      after = { planner with
        nextRenameIndex := Function.update planner.nextRenameIndex natural
          (some resumeIndex) } := by
  unfold renameCandidateOrError at finished
  rw [StepM.exec_bind, StepM.exec_get] at finished
  dsimp only at finished
  split at finished
  · cases finished
  · rename_i found resumeIndex searched
    cases finished
    exact ⟨resumeIndex, searched, rfl⟩

/-- The answer of the overwrite resolver to a conflict in a planner state. -/
def answer (resolver : Option OverwriteResolver) (planner : Planner) (entry : ExtractionEntry)
    (natural : PathBuf) : Option OverwriteDecision :=
  resolver.map fun decide => decide planner.askedConflicts ⟨entry.archivePath, natural⟩

theorem resolveOverwriteConflict_ok {decision : OverwriteDecision}
    (finished : (resolveOverwriteConflict resolver entry natural).exec planner =
      (.ok decision, after)) :
    answer resolver planner entry natural = some decision ∧
      ∃ conflicts, after = { planner with askedConflicts := conflicts } := by
  unfold resolveOverwriteConflict at finished
  cases resolver with
  | none => cases finished
  | some decide =>
    cases finished
    exact ⟨rfl, _, rfl⟩

/-- Why a write goes where it goes: the natural destination is absent, a
directory that is kept, or replaced by policy or by the resolver's answer; or
the conflict is resolved by a numbered sibling. -/
inductive DestinationChoice (probe : Probe) (resolver : Option OverwriteResolver)
    (planner : Planner) (entry : ExtractionEntry) (natural : PathBuf) : PathBuf → Bool → Prop
  | absent (error : IoError) (probed : probe.symlinkMetadata natural = .error error)
      (isAbsent : destinationIsAbsent error = true) :
      DestinationChoice probe resolver planner entry natural natural
        (planner.policy.overwrite = .replace ∧ ¬ entry.kind.isDirectory)
  | kept (probed : probe.symlinkMetadata natural = .ok .directory)
      (directory : entry.kind.isDirectory = true)
      (policy : planner.policy.overwrite ≠ .replace) :
      DestinationChoice probe resolver planner entry natural natural false
  | replaced (fileType : FileType) (probed : probe.symlinkMetadata natural = .ok fileType)
      (policy : planner.policy.overwrite = .replace) :
      DestinationChoice probe resolver planner entry natural natural
        (¬ entry.kind.isDirectory ∨ fileType ≠ .directory)
  | answered (fileType : FileType) (probed : probe.symlinkMetadata natural = .ok fileType)
      (policy : planner.policy.overwrite = .ask)
      (conflict : ¬ (entry.kind.isDirectory = true ∧ fileType = .directory))
      (asked : answer resolver planner entry natural = some .replace) :
      DestinationChoice probe resolver planner entry natural natural true
  | renamed (fileType : FileType) (candidate : PathBuf) (resumeIndex : Nat)
      (probed : probe.symlinkMetadata natural = .ok fileType)
      (policy : planner.policy.overwrite = .rename ∨ planner.policy.overwrite = .ask ∧
        answer resolver planner entry natural = some .rename)
      (conflict : ¬ (entry.kind.isDirectory = true ∧ fileType = .directory))
      (searched : nextAvailableDestinationPathFrom probe natural
        ((planner.nextRenameIndex natural).getD firstRenameIndex) maxRenameCandidates =
          some (candidate, resumeIndex)) :
      DestinationChoice probe resolver planner entry natural candidate false

/-- A destination choice reads the policy, the rename counters and the earlier
conflicts of the planner only. -/
theorem DestinationChoice.of_settings {destination : PathBuf} {replaceExisting : Bool}
    (choice : DestinationChoice probe resolver planner entry natural destination replaceExisting)
    (policy : planner.policy = after.policy)
    (indices : planner.nextRenameIndex = after.nextRenameIndex)
    (conflicts : planner.askedConflicts = after.askedConflicts) :
    DestinationChoice probe resolver after entry natural destination replaceExisting := by
  have answers : answer resolver planner entry natural = answer resolver after entry natural := by
    unfold answer
    rw [conflicts]
  cases choice with
  | absent error probed isAbsent =>
    rw [policy]
    exact .absent error probed isAbsent
  | kept probed directory different => exact .kept probed directory (policy ▸ different)
  | replaced fileType probed replacing => exact .replaced fileType probed (policy ▸ replacing)
  | answered fileType probed asking conflict asked =>
    exact .answered fileType probed (policy ▸ asking) conflict (answers ▸ asked)
  | renamed fileType candidate resumeIndex probed chosen conflict searched =>
    exact .renamed fileType _ resumeIndex probed (answers ▸ policy ▸ chosen) conflict
      (indices ▸ searched)

theorem ensureInsideDestination_ok {root destination : PathBuf} {archivePath : Text}
    (passed : ensureInsideDestination root destination archivePath = .ok ()) :
    root <+: destination := by
  unfold ensureInsideDestination at passed
  split_ifs at passed with inside
  exact inside

/-- The bookkeeping a destination choice may change. -/
def Renumbered (natural : PathBuf) (before after : Planner) : Prop :=
  ∃ indices conflicts,
    after = { before with nextRenameIndex := indices, askedConflicts := conflicts } ∧
      ∀ path, path ≠ natural → indices path = before.nextRenameIndex path

theorem Renumbered.refl (natural : PathBuf) (planner : Planner) :
    Renumbered natural planner planner :=
  ⟨_, _, rfl, fun _ _ => rfl⟩

theorem planDestinationWrite_write {link : Option PathBuf} {plan : PlannedWrite}
    (finished : (planDestinationWrite probe resolver entry name natural link).exec planner =
      (.ok (.write plan), after)) :
    plan.normalizedArchivePath = name ∧ plan.linkTargetPath = link ∧
      DestinationChoice probe resolver planner entry natural plan.destinationPath
        plan.replaceExisting ∧
      Renumbered natural planner after := by
  unfold planDestinationWrite at finished
  rw [StepM.exec_bind, StepM.exec_get] at finished
  dsimp only at finished
  cases probed : probe.symlinkMetadata natural with
  | error error =>
    rw [probed] at finished
    dsimp only at finished
    split_ifs at finished with isAbsent
    · cases finished
      exact ⟨rfl, rfl, .absent error probed isAbsent, .refl natural planner⟩
    · cases finished
  | ok fileType =>
    rw [probed] at finished
    dsimp only at finished
    cases policy : planner.policy.overwrite with
    | refuse =>
      rw [policy] at finished
      dsimp only at finished
      split_ifs at finished with keeps
      · cases finished
        rw [keeps.2] at probed
        exact ⟨rfl, rfl, .kept probed keeps.1 (by rw [policy]; decide), .refl natural planner⟩
      · cases finished
    | replace =>
      rw [policy] at finished
      cases finished
      exact ⟨rfl, rfl, .replaced fileType probed policy, .refl natural planner⟩
    | rename =>
      rw [policy] at finished
      dsimp only at finished
      split_ifs at finished with keeps
      · cases finished
        rw [keeps.2] at probed
        exact ⟨rfl, rfl, .kept probed keeps.1 (by rw [policy]; decide), .refl natural planner⟩
      · obtain ⟨candidate, middle, searched, finished⟩ := StepM.exec_bind_eq_ok.mp finished
        obtain ⟨resumeIndex, found, rfl⟩ := renameCandidateOrError_ok searched
        cases finished
        exact ⟨rfl, rfl, .renamed fileType candidate resumeIndex probed (.inl policy) keeps
          found, _, _, rfl, fun path other => Function.update_of_ne other _ _⟩
    | ask =>
      rw [policy] at finished
      dsimp only at finished
      split_ifs at finished with keeps
      · cases finished
        rw [keeps.2] at probed
        exact ⟨rfl, rfl, .kept probed keeps.1 (by rw [policy]; decide), .refl natural planner⟩
      · obtain ⟨decision, middle, asked, finished⟩ := StepM.exec_bind_eq_ok.mp finished
        obtain ⟨answered, conflicts, rfl⟩ := resolveOverwriteConflict_ok asked
        cases decision with
        | replace =>
          cases finished
          exact ⟨rfl, rfl, .answered fileType probed policy keeps answered,
            _, _, rfl, fun _ _ => rfl⟩
        | skip => cases finished
        | quit => cases finished
        | rename =>
          obtain ⟨candidate, middle, searched, finished⟩ :=
            StepM.exec_bind_eq_ok.mp finished
          obtain ⟨resumeIndex, found, rfl⟩ := renameCandidateOrError_ok searched
          cases finished
          exact ⟨rfl, rfl, .renamed fileType candidate resumeIndex probed
            (.inr ⟨policy, answered⟩) keeps found, _, _, rfl,
            fun path other => Function.update_of_ne other _ _⟩

/-- Whatever the result, a destination choice changes bookkeeping only. -/
theorem planDestinationWrite_renumbered (entry : ExtractionEntry) (name : Text)
    (natural : PathBuf) (link : Option PathBuf) :
    StepM.Preserves (Renumbered natural)
      (planDestinationWrite probe resolver entry name natural link) := by
  have trans : ∀ first second third : Planner, Renumbered natural first second →
      Renumbered natural second third → Renumbered natural first third := by
    rintro first _ _ ⟨_, _, rfl, left⟩ ⟨indices, conflicts, rfl, right⟩
    exact ⟨indices, conflicts, rfl, fun path other => (right path other).trans (left path other)⟩
  have quiet : ∀ {α : Type} {computation : PlanM α},
      (∀ planner, (computation.exec planner).2 = planner) →
      StepM.Preserves (Renumbered natural) computation :=
    fun unchanged => .of_exec_eq (Renumbered.refl natural) unchanged
  have renumber : StepM.Preserves (Renumbered natural)
      (renameCandidateOrError probe entry natural) := by
    intro planner
    unfold renameCandidateOrError
    rw [StepM.exec_bind, StepM.exec_get]
    dsimp only
    split
    · exact .refl natural planner
    · exact ⟨_, _, rfl, fun path other => Function.update_of_ne other _ _⟩
  have ask : StepM.Preserves (Renumbered natural)
      (resolveOverwriteConflict resolver entry natural) := by
    intro planner
    unfold resolveOverwriteConflict
    cases resolver with
    | none => exact .refl natural planner
    | some decide => exact ⟨_, _, rfl, fun _ _ => rfl⟩
  unfold planDestinationWrite
  refine .bind trans (quiet fun _ => rfl) fun planner => ?_
  dsimp only
  split
  · split_ifs
    · exact quiet fun _ => rfl
    · exact quiet fun _ => rfl
  · split
    · split_ifs
      · exact quiet fun _ => rfl
      · exact quiet fun _ => rfl
    · exact quiet fun _ => rfl
    · split_ifs
      · exact quiet fun _ => rfl
      · exact .bind trans renumber fun _ => quiet fun _ => rfl
    · split_ifs
      · exact quiet fun _ => rfl
      · refine .bind trans ask fun answer => ?_
        cases answer with
        | replace => exact quiet fun _ => rfl
        | skip => exact quiet fun _ => rfl
        | rename => exact .bind trans renumber fun _ => quiet fun _ => rfl
        | quit => exact quiet fun _ => rfl

/-! ## Successful calls -/

/-- What holds of a call that returns a write decision. Every check is stated in
the planner before the call. -/
structure WriteStep (fold : CaseFolding) (probe : Probe) (resolver : Option OverwriteResolver)
    (before after : Planner) (entry : ExtractionEntry) (plan : PlannedWrite) : Prop where
  settings : SameSettings before after
  member : selectMember before entry = .ok (.inr plan.normalizedArchivePath)
  inside : before.destinationRoot <+: before.naturalDestination plan.normalizedArchivePath
  link : planLink fold probe before entry
    (before.naturalDestination plan.normalizedArchivePath) = .ok (.inr plan.linkTargetPath)
  fresh : before.policy.overwrite ≠ .replace →
    before.seenPaths (caseCollisionKey fold plan.normalizedArchivePath) = none ∧
      after.seenPaths = Function.update before.seenPaths
        (caseCollisionKey fold plan.normalizedArchivePath) (some plan.normalizedArchivePath)
  destination : DestinationChoice probe resolver before entry
    (before.naturalDestination plan.normalizedArchivePath) plan.destinationPath
    plan.replaceExisting
  validated : validateWritePaths fold probe before entry plan = .ok ()
  plannedSymlinks : after.plannedSymlinks =
    (recordWritePaths fold before entry plan).plannedSymlinks
  requiredNonSymlinkPaths : after.requiredNonSymlinkPaths =
    (recordWritePaths fold before entry plan).requiredNonSymlinkPaths
  nextRenameIndex : ∀ path, path ≠ before.naturalDestination plan.normalizedArchivePath →
    after.nextRenameIndex path = before.nextRenameIndex path
  charge : IsCharge before entry after.plannedExpandedBytes

/-- What holds of a call that returns no write decision: no path is recorded, and
a rename counter moves only for a name the call was the first to claim. -/
structure QuietStep (fold : CaseFolding) (before after : Planner) (entry : ExtractionEntry) :
    Prop where
  settings : SameSettings before after
  plannedSymlinks : after.plannedSymlinks = before.plannedSymlinks
  requiredNonSymlinkPaths : after.requiredNonSymlinkPaths = before.requiredNonSymlinkPaths
  plannedExpandedBytes : after.plannedExpandedBytes = before.plannedExpandedBytes
  seenPaths : ∀ key, before.seenPaths key ≠ none → after.seenPaths key ≠ none
  nextRenameIndex : ∀ path, after.nextRenameIndex path ≠ before.nextRenameIndex path →
    ∃ name, selectMember before entry = .ok (.inr name) ∧
      path = before.naturalDestination name ∧
      (before.policy.overwrite ≠ .replace →
        after.seenPaths (caseCollisionKey fold name) ≠ none)

theorem validateEntry_write {plan : PlannedWrite}
    (finished : (validateEntry fold probe resolver entry).exec planner =
      (.ok (.write plan), after)) :
    WriteStep fold probe resolver planner after entry plan := by
  have settings : SameSettings planner after := (validateEntry_preserves entry).of_exec finished
  unfold validateEntry at finished
  rw [StepM.exec_bind, StepM.exec_get] at finished
  dsimp only at finished
  obtain ⟨selected, start, lifted, finished⟩ := StepM.exec_bind_eq_ok.mp finished
  rw [StepM.exec_lift] at lifted
  obtain ⟨member, rfl⟩ := Prod.mk.inj lifted
  cases selected with
  | inl skipped => cases finished
  | inr name =>
    obtain ⟨_, counted, reserved, finished⟩ := StepM.exec_bind_eq_ok.mp finished
    obtain ⟨entries, rfl⟩ := reserveEntry_ok reserved
    rw [StepM.exec_bind, StepM.exec_get] at finished
    dsimp only at finished
    obtain ⟨_, _, lifted, finished⟩ := StepM.exec_bind_eq_ok.mp finished
    rw [StepM.exec_lift] at lifted
    obtain ⟨inside, rfl⟩ := Prod.mk.inj lifted
    obtain ⟨linked, _, lifted, finished⟩ := StepM.exec_bind_eq_ok.mp finished
    rw [StepM.exec_lift] at lifted
    obtain ⟨link, rfl⟩ := Prod.mk.inj lifted
    cases linked with
    | inl reason => cases finished
    | inr linkTargetPath =>
      obtain ⟨_, distinct, collision, finished⟩ := StepM.exec_bind_eq_ok.mp finished
      obtain ⟨chosen, placed, choice, finished⟩ := StepM.exec_bind_eq_ok.mp finished
      cases chosen with
      | skip skipped reason => cases finished
      | write chosenPlan =>
        obtain ⟨rfl, rfl, destination, indices, conflicts, rfl, unchanged⟩ :=
          planDestinationWrite_write choice
        rw [StepM.exec_bind, StepM.exec_get] at finished
        dsimp only at finished
        obtain ⟨_, _, lifted, finished⟩ := StepM.exec_bind_eq_ok.mp finished
        rw [StepM.exec_lift] at lifted
        obtain ⟨validated, rfl⟩ := Prod.mk.inj lifted
        obtain ⟨_, charged, expanded, finished⟩ := StepM.exec_bind_eq_ok.mp finished
        obtain ⟨bytes, rfl, charge⟩ := reserveExpandedSize_ok expanded
        cases finished
        rcases rejectCollisionUnlessReplacing_ok collision with
          ⟨replacing, rfl⟩ | ⟨notReplacing, unseen, rfl⟩
        · exact ⟨settings, member, ensureInsideDestination_ok inside, link,
            fun different => absurd replacing different, destination.of_settings rfl rfl rfl,
            validated, rfl, rfl, unchanged, ⟨charge.file, charge.other⟩⟩
        · exact ⟨settings, member, ensureInsideDestination_ok inside, link,
            fun _ => ⟨unseen, rfl⟩, destination.of_settings rfl rfl rfl, validated, rfl, rfl,
            unchanged, ⟨charge.file, charge.other⟩⟩

theorem reserveEntry_exec (archivePath : Text) (planner : Planner) :
    ∃ entries, ((reserveEntry archivePath).exec planner).2 =
      { planner with plannedEntries := entries } := by
  unfold reserveEntry
  rw [StepM.exec_bind, StepM.exec_get]
  dsimp only
  cases planner.policy.limits.maxEntries with
  | none => exact ⟨_, rfl⟩
  | some limit =>
    dsimp only
    split_ifs
    · exact ⟨_, rfl⟩
    · exact ⟨_, rfl⟩

theorem rejectCollisionUnlessReplacing_error
    (failed : (rejectCollisionUnlessReplacing fold name).exec planner = (.error failure, after)) :
    after = { planner with
      seenPaths := Function.update planner.seenPaths (caseCollisionKey fold name)
        (some name) } := by
  unfold rejectCollisionUnlessReplacing at failed
  rw [StepM.exec_bind, StepM.exec_get] at failed
  dsimp only at failed
  split_ifs at failed with replacing
  · unfold rejectCollision at failed
    rw [StepM.exec_bind, StepM.exec_get] at failed
    dsimp only at failed
    rw [StepM.exec_bind, StepM.exec_set] at failed
    dsimp only at failed
    cases seen : planner.seenPaths (caseCollisionKey fold name) with
    | some previous =>
      rw [seen] at failed
      cases failed
      rfl
    | none =>
      rw [seen] at failed
      cases failed
  · cases failed

theorem reserveExpandedSize_error
    (failed : (reserveExpandedSize entry).exec planner = (.error failure, after)) :
    after = planner := by
  unfold reserveExpandedSize at failed
  split at failed
  · rw [StepM.exec_bind, StepM.exec_get] at failed
    dsimp only at failed
    rcases StepM.exec_bind_cases failed with ⟨_, checked, -⟩ | ⟨_, middle, checked, failed⟩
    · rw [StepM.exec_lift] at checked
      exact (Prod.mk.inj checked).2.symm
    · rw [StepM.exec_lift] at checked
      obtain ⟨-, rfl⟩ := Prod.mk.inj checked
      unfold reserveExpandedBytes at failed
      rw [StepM.exec_bind, StepM.exec_get] at failed
      dsimp only at failed
      cases limit : planner.policy.limits.maxExpandedBytes with
      | none =>
        rw [limit] at failed
        cases failed
      | some bound =>
        rw [limit] at failed
        dsimp only at failed
        split_ifs at failed
        · cases failed
          rfl
        · cases failed
  · cases failed

theorem update_some_ne_none {seen : Text → Option Text} {key : Text} :
    ∀ other, seen other ≠ none → Function.update seen key (some name) other ≠ none := by
  intro other present
  by_cases same : other = key
  · simp [same]
  · rwa [Function.update_of_ne same]

/-- A call that returns no write decision is quiet. -/
theorem validateEntry_quiet {result : Except ExtractionSafetyError ExtractionDecision}
    (finished : (validateEntry fold probe resolver entry).exec planner = (result, after))
    (unwritten : ∀ plan, result ≠ .ok (.write plan)) : QuietStep fold planner after entry := by
  have settings : SameSettings planner after := (validateEntry_preserves entry).of_exec finished
  have counting : ∀ entries, after = { planner with plannedEntries := entries } →
      QuietStep fold planner after entry := by
    rintro entries rfl
    exact ⟨settings, rfl, rfl, rfl, fun _ seen => seen, fun _ moved => absurd rfl moved⟩
  unfold validateEntry at finished
  rw [StepM.exec_bind, StepM.exec_get] at finished
  dsimp only at finished
  rcases StepM.exec_bind_cases finished with ⟨_, lifted, -⟩ | ⟨selected, start, lifted, finished⟩
  · rw [StepM.exec_lift] at lifted
    exact counting _ (Prod.mk.inj lifted).2.symm
  rw [StepM.exec_lift] at lifted
  obtain ⟨member, rfl⟩ := Prod.mk.inj lifted
  cases selected with
  | inl skipped =>
    cases finished
    exact counting _ rfl
  | inr name =>
    obtain ⟨entries, counted⟩ := reserveEntry_exec name planner
    rcases StepM.exec_bind_cases finished with
      ⟨_, reserved, -⟩ | ⟨_, middle, reserved, finished⟩
    · rw [reserved] at counted
      exact counting _ counted
    rw [reserved] at counted
    obtain rfl : middle = _ := counted
    rw [StepM.exec_bind, StepM.exec_get] at finished
    dsimp only at finished
    rcases StepM.exec_bind_cases finished with ⟨_, lifted, -⟩ | ⟨_, _, lifted, finished⟩
    · rw [StepM.exec_lift] at lifted
      exact counting _ (Prod.mk.inj lifted).2.symm
    rw [StepM.exec_lift] at lifted
    obtain ⟨-, rfl⟩ := Prod.mk.inj lifted
    rcases StepM.exec_bind_cases finished with ⟨_, lifted, -⟩ | ⟨linked, _, lifted, finished⟩
    · rw [StepM.exec_lift] at lifted
      exact counting _ (Prod.mk.inj lifted).2.symm
    rw [StepM.exec_lift] at lifted
    obtain ⟨-, rfl⟩ := Prod.mk.inj lifted
    cases linked with
    | inl reason =>
      cases finished
      exact counting _ rfl
    | inr linkTargetPath =>
      rcases StepM.exec_bind_cases finished with
        ⟨_, collided, -⟩ | ⟨_, distinct, collision, finished⟩
      · obtain rfl := rejectCollisionUnlessReplacing_error collided
        exact ⟨settings, rfl, rfl, rfl, update_some_ne_none,
          fun _ moved => absurd rfl moved⟩
      have seen : (∀ key, planner.seenPaths key ≠ none → distinct.seenPaths key ≠ none) ∧
          (planner.policy.overwrite ≠ .replace →
            distinct.seenPaths (caseCollisionKey fold name) ≠ none) ∧
          ∃ seenPaths, distinct = { planner with
            plannedEntries := entries
            seenPaths := seenPaths } := by
        rcases rejectCollisionUnlessReplacing_ok collision with
          ⟨replacing, rfl⟩ | ⟨-, -, rfl⟩
        · exact ⟨fun _ present => present, fun different => absurd replacing different, _, rfl⟩
        · exact ⟨update_some_ne_none, fun _ => by simp, _, rfl⟩
      obtain ⟨monotone, claimed, seenPaths, rfl⟩ := seen
      -- From here on only the rename counter of the natural destination moves.
      have placing : ∀ last, Renumbered (planner.naturalDestination name)
          { planner with
            plannedEntries := entries
            seenPaths := seenPaths } last → after = last →
            QuietStep fold planner after entry := by
        rintro _ ⟨indices, conflicts, rfl, unchanged⟩ rfl
        refine ⟨settings, rfl, rfl, rfl, monotone, fun path moved => ?_⟩
        refine ⟨name, member, ?_, claimed⟩
        by_contra other
        exact moved (unchanged path other)
      rcases StepM.exec_bind_cases finished with
        ⟨_, refused, -⟩ | ⟨chosen, placed, choice, finished⟩
      · exact placing _ ((planDestinationWrite_renumbered _ _ _ _).of_exec refused) rfl
      have renumbered := (planDestinationWrite_renumbered _ _ _ _).of_exec choice
      cases chosen with
      | skip skipped reason =>
        cases finished
        exact placing _ renumbered rfl
      | write plan =>
        rw [StepM.exec_bind, StepM.exec_get] at finished
        dsimp only at finished
        rcases StepM.exec_bind_cases finished with ⟨_, lifted, -⟩ | ⟨_, _, lifted, finished⟩
        · rw [StepM.exec_lift] at lifted
          exact placing _ renumbered (Prod.mk.inj lifted).2.symm
        rw [StepM.exec_lift] at lifted
        obtain ⟨-, rfl⟩ := Prod.mk.inj lifted
        rcases StepM.exec_bind_cases finished with
          ⟨_, exceeded, -⟩ | ⟨_, charged, expanded, finished⟩
        · exact placing _ renumbered (reserveExpandedSize_error exceeded)
        · cases finished
          exact absurd rfl (unwritten plan)

end Planner

end ZManager
