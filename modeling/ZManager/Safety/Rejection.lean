import ZManager.Safety.WritePaths

/-! # Rejections as unsafe

The failures of a planner call fall into those that reject the entry as unsafe
and those about conflicts, limits and probes. Only the path checks, the link
checks and the symlink checks reject an entry as unsafe
(`Planner.validateEntry_unsafe`).
-/

namespace ZManager

/-- The failures that reject an entry because of where it or its target leads. -/
def ExtractionSafetyError.isUnsafe : ExtractionSafetyError → Bool
  | emptyPath | nulByte _ | absolutePath _ | windowsPrefix _ | parentTraversal _ | pathTooLong _
  | windowsReservedName .. | destinationEscape .. | symlinkAncestor .. | unsafeFileType _
  | linkTargetEscapes _ => true
  | nameCollision .. | destinationExists .. | overwritePromptUnavailable .. | overwriteAborted ..
  | destinationProbe .. | renameDestinationExhausted .. | expandedSizeLimitExceeded ..
  | expansionRatioLimitExceeded .. | entryCountLimitExceeded .. => false

namespace Planner

variable {entry : ExtractionEntry} {failure : ExtractionSafetyError}

/-- A stage that does not judge where an entry leads. -/
abbrev NeverUnsafe {α : Type} (stage : PlanM α) : Prop :=
  StepM.FailsOnlyWith (fun failure => failure.isUnsafe = false) stage

variable {fold : CaseFolding} {probe : Probe} {resolver : Option OverwriteResolver}
  {planner after : Planner}

theorem reserveEntry_neverUnsafe (archivePath : Text) : NeverUnsafe (reserveEntry archivePath) := by
  unfold reserveEntry
  refine .bind (.of_exec_ok fun state => ⟨state, rfl⟩) fun planner => ?_
  cases planner.policy.limits.maxEntries with
  | none => exact .of_exec_ok fun state => ⟨(), rfl⟩
  | some limit =>
    dsimp only
    split_ifs
    · exact .throw rfl
    · exact .of_exec_ok fun state => ⟨(), rfl⟩

theorem reserveExpandedBytes_neverUnsafe (archivePath : Text) (bytes : UInt64) :
    NeverUnsafe (reserveExpandedBytes archivePath bytes) := by
  unfold reserveExpandedBytes
  refine .bind (.of_exec_ok fun state => ⟨state, rfl⟩) fun planner => ?_
  cases planner.policy.limits.maxExpandedBytes with
  | none => exact .of_exec_ok fun state => ⟨(), rfl⟩
  | some limit =>
    dsimp only
    split_ifs
    · exact .throw rfl
    · exact .of_exec_ok fun state => ⟨(), rfl⟩

theorem checkExpansionRatio_error {policy : ExtractionPolicy} {size : UInt64}
    (failed : checkExpansionRatio policy entry size = .error failure) :
    failure.isUnsafe = false := by
  unfold checkExpansionRatio rejectExpansionRatio at failed
  split at failed
  · dsimp only at failed
    split at failed
    · cases failed
    · split_ifs at failed
      · cases failed
        rfl
      · cases failed
        rfl
  · cases failed

theorem reserveExpandedSize_neverUnsafe (entry : ExtractionEntry) :
    NeverUnsafe (reserveExpandedSize entry) := by
  unfold reserveExpandedSize
  split
  · refine .bind (.of_exec_ok fun state => ⟨state, rfl⟩) fun planner => ?_
    refine .bind ?_ fun _ => reserveExpandedBytes_neverUnsafe _ _
    intro state failure failed
    rw [StepM.exec_lift] at failed
    exact checkExpansionRatio_error failed
  · exact .of_exec_ok fun state => ⟨(), rfl⟩

theorem rejectCollisionUnlessReplacing_neverUnsafe (name : Text) :
    NeverUnsafe (rejectCollisionUnlessReplacing fold name) := by
  unfold rejectCollisionUnlessReplacing rejectCollision
  refine .bind (.of_exec_ok fun state => ⟨state, rfl⟩) fun planner => ?_
  split_ifs
  · refine .bind (.of_exec_ok fun state => ⟨state, rfl⟩) fun planner => ?_
    refine .bind (.of_exec_ok fun state => ⟨⟨⟩, rfl⟩) fun _ => ?_
    cases planner.seenPaths (caseCollisionKey fold name) with
    | some previous => exact .throw rfl
    | none => exact .of_exec_ok fun state => ⟨(), rfl⟩
  · exact .of_exec_ok fun state => ⟨(), rfl⟩

theorem planDestinationWrite_neverUnsafe (entry : ExtractionEntry) (name : Text)
    (natural : PathBuf) (link : Option PathBuf) :
    NeverUnsafe (planDestinationWrite probe resolver entry name natural link) := by
  have succeeds : ∀ {α : Type} (value : α), NeverUnsafe (pure value : PlanM α) :=
    fun value => .of_exec_ok fun state => ⟨value, rfl⟩
  have renumber : NeverUnsafe (renameCandidateOrError probe entry natural) := by
    unfold renameCandidateOrError
    refine .bind (.of_exec_ok fun state => ⟨state, rfl⟩) fun planner => ?_
    dsimp only
    split
    · exact .throw rfl
    · exact .of_exec_ok fun state => ⟨_, rfl⟩
  have ask : NeverUnsafe (resolveOverwriteConflict resolver entry natural) := by
    unfold resolveOverwriteConflict
    cases resolver with
    | none => exact .throw rfl
    | some decide => exact .of_exec_ok fun state => ⟨_, rfl⟩
  unfold planDestinationWrite
  refine .bind (.of_exec_ok fun state => ⟨state, rfl⟩) fun planner => ?_
  dsimp only
  split
  · split_ifs
    · exact succeeds _
    · exact .throw rfl
  · split
    · split_ifs
      · exact succeeds _
      · exact .throw rfl
    · exact succeeds _
    · split_ifs
      · exact succeeds _
      · exact .bind renumber fun _ => succeeds _
    · split_ifs
      · exact succeeds _
      · refine .bind ask fun answer => ?_
        cases answer with
        | replace => exact succeeds _
        | skip => exact succeeds _
        | rename => exact .bind renumber fun _ => succeeds _
        | quit => exact .throw rfl

/-- An unsafe rejection comes from a check that reads the planner as it was
before the call. -/
theorem validateEntry_unsafe
    (failed : (validateEntry fold probe resolver entry).exec planner = (.error failure, after))
    (isUnsafe : failure.isUnsafe = true) :
    selectMember planner entry = .error failure ∨
    ∃ name, selectMember planner entry = .ok (.inr name) ∧
      (ensureInsideDestination planner.destinationRoot (planner.naturalDestination name)
          entry.archivePath = .error failure ∨
        planLink fold probe planner entry (planner.naturalDestination name) = .error failure ∨
        ∃ plan, planLink fold probe planner entry (planner.naturalDestination name) =
            .ok (.inr plan.linkTargetPath) ∧
          DestinationChoice probe resolver planner entry (planner.naturalDestination name)
            plan.destinationPath plan.replaceExisting ∧
          validateWritePaths fold probe planner entry plan = .error failure) := by
  have safely : ∀ {α : Type} {stage : PlanM α} {start last : Planner}, NeverUnsafe stage →
      stage.exec start ≠ (.error failure, last) := by
    intro α stage start last neverUnsafe stopped
    have harmless : failure.isUnsafe = false := neverUnsafe start failure (by rw [stopped])
    rw [isUnsafe] at harmless
    cases harmless
  unfold validateEntry at failed
  rw [StepM.exec_bind, StepM.exec_get] at failed
  dsimp only at failed
  rcases StepM.exec_bind_cases failed with ⟨_, lifted, same⟩ | ⟨selected, _, lifted, failed⟩
  · cases same
    rw [StepM.exec_lift] at lifted
    exact .inl (Prod.mk.inj lifted).1
  rw [StepM.exec_lift] at lifted
  obtain ⟨member, rfl⟩ := Prod.mk.inj lifted
  cases selected with
  | inl skipped => cases failed
  | inr name =>
    refine .inr ⟨name, member, ?_⟩
    rcases StepM.exec_bind_cases failed with ⟨_, reserved, same⟩ | ⟨_, _, reserved, failed⟩
    · cases same
      exact absurd reserved (safely (reserveEntry_neverUnsafe name))
    obtain ⟨entries, rfl⟩ := reserveEntry_ok reserved
    rw [StepM.exec_bind, StepM.exec_get] at failed
    dsimp only at failed
    rcases StepM.exec_bind_cases failed with ⟨_, lifted, same⟩ | ⟨_, _, lifted, failed⟩
    · cases same
      rw [StepM.exec_lift] at lifted
      exact .inl (Prod.mk.inj lifted).1
    rw [StepM.exec_lift] at lifted
    obtain ⟨-, rfl⟩ := Prod.mk.inj lifted
    refine .inr ?_
    rcases StepM.exec_bind_cases failed with ⟨_, lifted, same⟩ | ⟨linked, _, lifted, failed⟩
    · cases same
      rw [StepM.exec_lift] at lifted
      exact .inl (Prod.mk.inj lifted).1
    rw [StepM.exec_lift] at lifted
    obtain ⟨link, rfl⟩ := Prod.mk.inj lifted
    cases linked with
    | inl reason => cases failed
    | inr linkTargetPath =>
      rcases StepM.exec_bind_cases failed with ⟨_, collided, same⟩ | ⟨_, _, collision, failed⟩
      · cases same
        exact absurd collided (safely (rejectCollisionUnlessReplacing_neverUnsafe name))
      rcases StepM.exec_bind_cases failed with ⟨_, refused, same⟩ | ⟨chosen, _, choice, failed⟩
      · cases same
        exact absurd refused (safely (planDestinationWrite_neverUnsafe _ _ _ _))
      cases chosen with
      | skip skipped reason => cases failed
      | write plan =>
        obtain ⟨rfl, rfl, destination, indices, conflicts, rfl, -⟩ :=
          planDestinationWrite_write choice
        rw [StepM.exec_bind, StepM.exec_get] at failed
        dsimp only at failed
        rcases StepM.exec_bind_cases failed with ⟨_, lifted, same⟩ | ⟨_, _, lifted, failed⟩
        · cases same
          rw [StepM.exec_lift] at lifted
          refine .inr ⟨plan, link, ?_⟩
          rcases rejectCollisionUnlessReplacing_ok collision with ⟨-, rfl⟩ | ⟨-, -, rfl⟩
          · exact ⟨destination.of_settings rfl rfl rfl, (Prod.mk.inj lifted).1⟩
          · exact ⟨destination.of_settings rfl rfl rfl, (Prod.mk.inj lifted).1⟩
        rw [StepM.exec_lift] at lifted
        obtain ⟨-, rfl⟩ := Prod.mk.inj lifted
        rcases StepM.exec_bind_cases failed with ⟨_, exceeded, same⟩ | ⟨_, _, -, failed⟩
        · cases same
          exact absurd exceeded (safely (reserveExpandedSize_neverUnsafe entry))
        · cases failed

/-- Checks of clear paths do not reject as unsafe. -/
theorem requireNonSymlinks_of_clear {paths : List PathBuf} {archivePath : Text}
    (clear : ∀ path ∈ paths, IsClear fold probe planner path)
    (failed : requireNonSymlinks fold probe planner paths archivePath = .error failure) :
    failure.isUnsafe = false := by
  induction paths with
  | nil => cases failed
  | cons head rest ih =>
    change requireNonSymlink fold probe planner head archivePath >>= (fun _ =>
      requireNonSymlinks fold probe planner rest archivePath) = .error failure at failed
    obtain ⟨unplanned, notSymlink⟩ := clear head (by simp)
    cases first : requireNonSymlink fold probe planner head archivePath with
    | ok _ =>
      rw [first] at failed
      exact ih (fun path member => clear path (List.mem_cons_of_mem _ member)) failed
    | error found =>
      rw [first] at failed
      cases failed
      unfold requireNonSymlink at first
      dsimp only at first
      rw [if_neg (not_or.mpr
        ⟨unplanned, fun found => notSymlink (Except.toOption_eq_some.mp found)⟩)] at first
      split at first
      · cases first
      · split_ifs at first
        cases first
        rfl

end Planner

end ZManager
