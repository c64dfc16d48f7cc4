import ZManager.Rar.Plan

/-! # The source of a RAR link

The path a hardlink or file copy is made from and the path the safety planner
validates for it are computed by different formulas. They agree exactly for
links at the top level of an archive that is extracted without stripping
(`validated_eq_source_iff`).
-/

namespace ZManager

open Planner

/-! ## Stripped paths -/

theorem strippedArchivePath_ok {path stripped : Text} {count : Nat}
    (accepted : strippedArchivePath path count = .ok stripped) :
    ∃ normalized, normalizeArchivePath path = .ok normalized ∧
      stripArchiveComponents normalized count = some stripped := by
  unfold strippedArchivePath at accepted
  cases outcome : normalizeArchivePath path with
  | error failure =>
    rw [outcome] at accepted
    cases accepted
  | ok normalized =>
    rw [outcome] at accepted
    dsimp only at accepted
    refine ⟨normalized, rfl, ?_⟩
    split_ifs at accepted with zero empty
    · cases accepted
      rw [zero, stripArchiveComponents_zero]
    · cases accepted
      unfold stripArchiveComponents
      rw [if_neg empty]

/-- A stripped path is a list of plain names. -/
theorem strippedArchivePath_plain {path stripped : Text} {count : Nat}
    (accepted : strippedArchivePath path count = .ok stripped) :
    ∃ names, IsMemberPath stripped names ∧ ∀ name ∈ names, IsPlainName name := by
  obtain ⟨normalized, accepted, kept⟩ := strippedArchivePath_ok accepted
  obtain ⟨names, member, plain⟩ := normalizeArchivePath_plain accepted
  exact ⟨_, member.strip kept, fun name inside => plain name (List.mem_of_mem_drop inside)⟩

theorem strippedArchivePath_of_normalized {path normalized : Text}
    (accepted : normalizeArchivePath path = .ok normalized) :
    strippedArchivePath path 0 = .ok normalized := by
  unfold strippedArchivePath
  rw [accepted]
  rfl

/-! ## Relative targets -/

/-- The directory of a link is empty exactly at the top level. -/
theorem linkParent_eq_nil_iff {link : Text} {names : List Text} (member : IsMemberPath link names) :
    linkParent link = [] ↔ '/' ∉ link := by
  unfold linkParent
  cases split : Text.rsplitOnce '/' link with
  | none => simpa using Text.rsplitOnce_eq_none_iff.mp split
  | some parts =>
    obtain ⟨parent, last⟩ := parts
    obtain ⟨recomposed, -⟩ := Text.rsplitOnce_eq_some split
    have slash : '/' ∈ link := by
      rw [recomposed]
      simp
    refine ⟨fun empty => ?_, fun absent => absurd slash absent⟩
    have relative := member.not_absolute
    rw [recomposed, show parent = [] from empty] at relative
    cases relative

theorem commonParts_nil (toParts : List Text) : commonParts [] toParts = 0 := rfl

theorem commonParts_le (fromParts toParts : List Text) :
    commonParts fromParts toParts ≤ fromParts.length := by
  unfold commonParts
  calc ((fromParts.zip toParts).takeWhile _).length ≤ (fromParts.zip toParts).length :=
        (List.takeWhile_prefix _).length_le
    _ ≤ fromParts.length := by simp

theorem relativePath_nil (target : Text) : relativePath [] target = target := by
  unfold relativePath
  simp only [if_true, commonParts_nil, List.length_nil, Nat.sub_zero, List.replicate_zero,
    List.nil_append, List.drop_zero]
  exact List.intercalate_splitOn '/'

/-- An accepted relative target does not climb, so it is the target without the
parts of the link's directory. -/
theorem relativePath_accepted {fromParent target path : Text} {names : List Text}
    (member : IsMemberPath target names) (plain : ∀ name ∈ names, IsPlainName name)
    (accepted : normalizeArchivePath (relativePath fromParent target) = .ok path) :
    ∃ count, IsMemberPath path (names.drop count) ∧ (count = 0 ↔ fromParent = []) := by
  unfold relativePath at accepted
  dsimp only at accepted
  rw [member.splitOn_eq] at accepted
  generalize partsEq : (if fromParent = [] then [] else fromParent.splitOn '/') = fromParts
    at accepted
  obtain ⟨nonempty, rfl, level⟩ := normalizeArchivePath_joined (by
    intro piece inside
    rcases List.mem_append.mp inside with climbing | inside
    · rw [List.eq_of_mem_replicate climbing]
      decide
    · have valid := plain piece (List.mem_of_mem_drop inside)
      exact ⟨valid.ne_nil, valid.ne_dot, valid.no_slash, valid.no_backslash⟩) accepted
  have descending : fromParts.length - commonParts fromParts names = 0 := by
    by_contra climbing
    exact level (List.mem_append_left _ (List.mem_replicate.mpr ⟨climbing, rfl⟩))
  rw [descending, List.replicate_zero, List.nil_append] at nonempty ⊢
  refine ⟨_, ⟨nonempty, fun name inside => (plain name (List.mem_of_mem_drop inside)).toIsEntryName,
    rfl⟩, ?_⟩
  have whole : commonParts fromParts names = fromParts.length :=
    le_antisymm (commonParts_le _ _) (Nat.sub_eq_zero_iff_le.mp descending)
  rw [whole, List.length_eq_zero_iff, ← partsEq]
  split_ifs with empty
  · simp [empty]
  · simp [empty, List.splitOn_ne_nil]

/-! ## One planned link -/

section

variable {fold : CaseFolding} {probe : Probe} {resolver : Option OverwriteResolver}
  {destination : PathBuf} {policy : ExtractionPolicy} {entry : RarEntry} {planner after : Planner}

theorem strippedLinkTarget_of_link (isLink : entry.kind.isMemberLink = true)
    {strippedTarget : Option Text}
    (accepted : strippedLinkTarget entry policy = .ok strippedTarget) :
    ∃ target stripped, entry.linkTarget = some target ∧
      strippedArchivePath target policy.stripComponents = .ok stripped ∧
      strippedTarget = some stripped := by
  unfold strippedLinkTarget at accepted
  rw [if_pos isLink] at accepted
  obtain ⟨target, found, accepted⟩ := Except.bind_eq_ok_iff.mp accepted
  obtain ⟨stripped, kept, finished⟩ := Except.bind_eq_ok_iff.mp accepted
  cases finished
  unfold linkTarget at found
  cases stored : entry.linkTarget with
  | none =>
    rw [stored] at found
    cases found
  | some stored =>
    rw [stored] at found
    cases found
    exact ⟨target, stripped, rfl, kept, rfl⟩

theorem linkTarget_eq {target : Text} (stored : entry.linkTarget = some target) :
    linkTarget entry = .ok target := by
  unfold linkTarget
  rw [stored]

/-- What the planner is asked about a link. -/
theorem safetyEntry_of_link (isLink : entry.kind.isMemberLink = true) {target stripped : Text}
    (stored : entry.linkTarget = some target) :
    safetyEntry entry policy (some stripped) =
      (strippedArchivePath entry.path policy.stripComponents).map fun strippedLink =>
        some ⟨entry.path, .hardlink (relativePath (linkParent strippedLink) stripped),
          some entry.unpackedSize, none⟩ := by
  unfold safetyEntry extractionEntryKind relativeArchiveTargetForLink
  rw [linkTarget_eq stored]
  cases kind : entry.kind with
  | hardlink => cases strippedArchivePath entry.path policy.stripComponents <;> rfl
  | fileCopy => cases strippedArchivePath entry.path policy.stripComponents <;> rfl
  | file => rw [kind] at isLink; cases isLink
  | directory => rw [kind] at isLink; cases isLink
  | symlink => rw [kind] at isLink; cases isLink
  | special => rw [kind] at isLink; cases isLink

/-- A link is planned from the destination joined with its stripped target. -/
theorem planEntry_of_link (isLink : entry.kind.isMemberLink = true) {target stripped : Text}
    (stored : entry.linkTarget = some target) (write : PlannedWrite) :
    ∃ plan, planEntry entry write destination policy (some stripped) = .ok plan ∧
      plan.sourcePath? = some (destination.join stripped) := by
  unfold planEntry archiveTargetDestination
  rw [linkTarget_eq stored]
  cases kind : entry.kind with
  | hardlink => exact ⟨_, rfl, rfl⟩
  | fileCopy => exact ⟨_, rfl, rfl⟩
  | file => rw [kind] at isLink; cases isLink
  | directory => rw [kind] at isLink; cases isLink
  | symlink => rw [kind] at isLink; cases isLink
  | special => rw [kind] at isLink; cases isLink

/-- The stages of an entry that is presented to the safety planner. -/
theorem planRarEntry_cases {result : Except RarBackendError EntryOutcome}
    (finished : (planRarEntry fold probe resolver destination policy entry).exec planner =
      (result, after)) :
    (after = planner ∧
      ((∃ failure, result = .error failure ∧ (rejectLargeDictionary entry = .error failure ∨
        strippedLinkTarget entry policy >>= safetyEntry entry policy = .error failure)) ∨
      (strippedLinkTarget entry policy >>= safetyEntry entry policy = .ok none ∧
        ∃ warning, result = .ok (.skipped warning)))) ∨
    ∃ strippedTarget asked, strippedLinkTarget entry policy = .ok strippedTarget ∧
      safetyEntry entry policy strippedTarget = .ok (some asked) ∧
      ((∃ failure, (validateEntry fold probe resolver asked).exec planner =
          (.error failure, after) ∧ result = .error (.safety failure)) ∨
        (∃ name reason, (validateEntry fold probe resolver asked).exec planner =
          (.ok (.skip name reason), after) ∧
          result = .ok (.skipped (skipWarning entry.path reason))) ∨
        ∃ write middle, (validateEntry fold probe resolver asked).exec planner =
            (.ok (.write write), middle) ∧
          ((∃ failure, (chargeFileCopy entry).exec middle = (.error failure, after) ∧
              result = .error failure) ∨
            (chargeFileCopy entry).exec middle = (.ok (), after) ∧
              result = (planEntry entry write destination policy strippedTarget).map
                .planned)) := by
  unfold planRarEntry at finished
  rcases StepM.exec_bind_cases finished with ⟨failure, lifted, rfl⟩ | ⟨_, _, lifted, finished⟩
  · rw [StepM.exec_lift] at lifted
    obtain ⟨rejected, rfl⟩ := Prod.mk.inj lifted
    exact .inl ⟨rfl, .inl ⟨failure, rfl, .inl rejected⟩⟩
  rw [StepM.exec_lift] at lifted
  obtain ⟨-, rfl⟩ := Prod.mk.inj lifted
  rcases StepM.exec_bind_cases finished with
    ⟨failure, lifted, rfl⟩ | ⟨strippedTarget, _, lifted, finished⟩
  · rw [StepM.exec_lift] at lifted
    obtain ⟨rejected, rfl⟩ := Prod.mk.inj lifted
    exact .inl ⟨rfl, .inl ⟨failure, rfl, .inr (by rw [rejected]; rfl)⟩⟩
  rw [StepM.exec_lift] at lifted
  obtain ⟨stripped, rfl⟩ := Prod.mk.inj lifted
  rw [stripped]
  rcases StepM.exec_bind_cases finished with
    ⟨failure, lifted, rfl⟩ | ⟨presented, _, lifted, finished⟩
  · rw [StepM.exec_lift] at lifted
    obtain ⟨rejected, rfl⟩ := Prod.mk.inj lifted
    exact .inl ⟨rfl, .inl ⟨failure, rfl, .inr rejected⟩⟩
  rw [StepM.exec_lift] at lifted
  obtain ⟨presented', rfl⟩ := Prod.mk.inj lifted
  cases presented with
  | none =>
    obtain ⟨rfl, rfl⟩ := Prod.mk.inj finished
    exact .inl ⟨rfl, .inr ⟨presented', _, rfl⟩⟩
  | some asked =>
    refine .inr ⟨strippedTarget, asked, rfl, presented', ?_⟩
    dsimp only at finished
    rw [StepM.exec_bind, StepM.exec_mapError] at finished
    rcases validated : (validateEntry fold probe resolver asked).exec planner with
      ⟨decision, middle⟩
    rw [validated] at finished
    cases decision with
    | error failure =>
      obtain ⟨rfl, rfl⟩ := Prod.mk.inj finished
      exact .inl ⟨failure, rfl, rfl⟩
    | ok decision =>
      cases decision with
      | skip name reason =>
        obtain ⟨rfl, rfl⟩ := Prod.mk.inj finished
        exact .inr (.inl ⟨name, reason, rfl, rfl⟩)
      | write write =>
        refine .inr (.inr ⟨write, middle, rfl, ?_⟩)
        change ((chargeFileCopy entry) >>= fun _ => (liftM (planEntry entry write destination
          policy strippedTarget) : RarPlanM PlannedEntry) >>= fun plan =>
            pure (.planned plan)).exec middle = (result, after) at finished
        rcases StepM.exec_bind_cases finished with
          ⟨failure, charged, rfl⟩ | ⟨_, last, charged, finished⟩
        · exact .inl ⟨failure, charged, rfl⟩
        · rw [StepM.exec_bind, StepM.exec_lift] at finished
          cases made : planEntry entry write destination policy strippedTarget with
          | error failure =>
            rw [made] at finished
            obtain ⟨rfl, rfl⟩ := Prod.mk.inj finished
            exact .inr ⟨charged, rfl⟩
          | ok plan =>
            rw [made] at finished
            obtain ⟨rfl, rfl⟩ := Prod.mk.inj finished
            exact .inr ⟨charged, rfl⟩

/-- Everything that happened to an entry planned as a link: its target is
stripped and rewritten, the rewritten target passes the safety planner, and the
source is the destination joined with the stripped target. -/
theorem planRarEntry_link (isLink : entry.kind.isMemberLink = true) {plan : PlannedEntry}
    (finished : (planRarEntry fold probe resolver destination policy entry).exec planner =
      (.ok (.planned plan), after)) :
    ∃ target strippedTarget strippedLink write middle,
      entry.linkTarget = some target ∧
      strippedArchivePath target policy.stripComponents = .ok strippedTarget ∧
      strippedArchivePath entry.path policy.stripComponents = .ok strippedLink ∧
      WriteStep fold probe resolver planner middle ⟨entry.path,
        .hardlink (relativePath (linkParent strippedLink) strippedTarget),
        some entry.unpackedSize, none⟩ write ∧
      plan.sourcePath? = some (destination.join strippedTarget) ∧
      validatedLinkTarget fold probe resolver policy planner entry = write.linkTargetPath := by
  rcases planRarEntry_cases finished with
    ⟨-, ⟨_, failed, -⟩ | ⟨-, _, skipped⟩⟩ | ⟨presented, asked, accepted, presents, outcome⟩
  · cases failed
  · cases skipped
  obtain ⟨target, strippedTarget, stored, kept, rfl⟩ := strippedLinkTarget_of_link isLink accepted
  have asking := presents
  rw [safetyEntry_of_link isLink stored] at asking
  cases linkPath : strippedArchivePath entry.path policy.stripComponents with
  | error failure =>
    rw [linkPath] at asking
    cases asking
  | ok strippedLink =>
    rw [linkPath] at asking
    cases asking
    rcases outcome with ⟨_, -, failed⟩ | ⟨_, _, -, skipped⟩ | ⟨write, middle, validated, outcome⟩
    · cases failed
    · cases skipped
    obtain ⟨made, planned, source⟩ := @planEntry_of_link destination policy entry isLink target
      strippedTarget stored write
    rcases outcome with ⟨_, -, failed⟩ | ⟨-, same⟩
    · cases failed
    rw [planned] at same
    cases same
    refine ⟨target, strippedTarget, strippedLink, write, middle, stored, kept, rfl,
      validateEntry_write validated, source, ?_⟩
    have asked : strippedLinkTarget entry policy >>= safetyEntry entry policy =
        safetyEntry entry policy (some strippedTarget) := by
      rw [accepted]
      rfl
    unfold validatedLinkTarget
    rw [asked, presents]
    dsimp only
    rw [validated]

end

/-- The archive path of an entry that lies in no directory. -/
def IsTopLevel (path : Text) : Prop :=
  ∃ name, normalizeArchivePath path = .ok name ∧ '/' ∉ name

/-- The validated target keeps the names the two rewritings leave over. -/
theorem validated_eq_source_iff {fold : CaseFolding} {probe : Probe}
    {resolver : Option OverwriteResolver} {policy : ExtractionPolicy} {entry : RarEntry}
    {planner middle : Planner} {strippedTarget strippedLink target : Text} {write : PlannedWrite}
    {size compressed : Option UInt64}
    (canonical : IsCanonical planner.destinationRoot)
    (settings : planner.policy = policy)
    (kept : strippedArchivePath target policy.stripComponents = .ok strippedTarget)
    (linkPath : strippedArchivePath entry.path policy.stripComponents = .ok strippedLink)
    (step : WriteStep fold probe resolver planner middle ⟨entry.path,
      .hardlink (relativePath (linkParent strippedLink) strippedTarget), size, compressed⟩ write) :
    write.linkTargetPath = some (planner.destinationRoot.join strippedTarget) ↔
      policy.stripComponents = 0 ∧ IsTopLevel entry.path := by
  obtain ⟨names, member, plain⟩ := strippedArchivePath_plain kept
  obtain ⟨path, resolved, linked⟩ := step.linkTargetPath_of_hardlink rfl
  obtain ⟨normalized, name, accepted, stripped, rfl⟩ := resolveHardlinkTarget_ok resolved
  obtain ⟨count, rewritten, level⟩ := relativePath_accepted member plain accepted
  obtain ⟨linkNames, linkMember, -⟩ := strippedArchivePath_plain linkPath
  rw [linkParent_eq_nil_iff linkMember] at level
  obtain ⟨normalizedLink, linkAccepted, linkStripped⟩ := strippedArchivePath_ok linkPath
  have top : policy.stripComponents = 0 → ('/' ∉ strippedLink ↔ IsTopLevel entry.path) := by
    intro zero
    rw [zero, stripArchiveComponents_zero] at linkStripped
    obtain rfl := Option.some.inj linkStripped
    exact ⟨fun absent => ⟨_, linkAccepted, absent⟩, fun ⟨_, same, absent⟩ => by
      rw [linkAccepted] at same
      cases same
      exact absent⟩
  rw [linked, Option.some_inj, naturalDestination_eq canonical (rewritten.strip stripped),
    member.join, settings, List.drop_drop]
  constructor
  · intro same
    have lengths := congrArg List.length (List.append_cancel_left same)
    have positive := List.length_pos_of_ne_nil member.ne_nil
    simp only [PathBuf.ofNames, List.length_map, List.length_drop] at lengths
    have zero : policy.stripComponents = 0 := by omega
    exact ⟨zero, (top zero).mp (level.mp (by omega))⟩
  · rintro ⟨zero, topLevel⟩
    rw [zero, level.mpr ((top zero).mpr topLevel)]
    rfl

end ZManager
