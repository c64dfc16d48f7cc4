import ZManager.Safety.Collision

/-! # Hardlinks and the members they name

A hardlink target is resolved to the destination its member's name stands for.
The member itself goes there too unless a conflict with the disk renames it, so
a planned hardlink shares the extracted member exactly when the member was not
renamed (`Planner.hardlink_follows_member_iff`).
-/

namespace ZManager

namespace Planner

/-- The call is resolved by renaming: an object is in the way, and the policy or
the resolver's answer asks for a numbered sibling. -/
def IsRenamed (resolver : Option OverwriteResolver) (made : Call) (natural : PathBuf) : Prop :=
  isTaken made.request.probe natural = true ∧
    (made.before.policy.overwrite = .rename ∨
      made.before.policy.overwrite = .ask ∧
        answer resolver made.before made.request.entry natural = some .rename)

variable {fold : CaseFolding} {probe : Probe} {resolver : Option OverwriteResolver}

/-- The destination a member's name stands for, whatever the root looks like. -/
theorem naturalDestination_of_member {planner : Planner} {name : Text} {names : List Text}
    (member : IsMemberPath name names) :
    planner.naturalDestination name =
      lexicallyNormalize planner.destinationRoot ++ PathBuf.ofNames names := by
  unfold naturalDestination
  rw [member.join, lexicallyNormalize_append_ofNames]

theorem renameCandidate_ne_natural {planner : Planner} {name : Text} {names : List Text}
    (member : IsMemberPath name names) (index : Nat) :
    renameCandidate (planner.naturalDestination name) index ≠ planner.naturalDestination name := by
  obtain ⟨front, last, rfl⟩ := List.eq_nil_or_concat' names |>.resolve_left member.ne_nil
  rw [naturalDestination_of_member member,
    renameCandidate_ofNames _ (member.valid last (by simp))]
  intro same
  have lists := ofNames_injective (List.append_cancel_left same)
  exact renamedFileName_ne index (List.singleton_inj.mp (List.append_cancel_left lists))

/-- A file keeps its natural destination exactly when it is not renamed. -/
theorem file_keeps_natural_iff {made : Call} {plan : PlannedWrite}
    (step : WriteStep fold made.request.probe resolver made.before made.after made.request.entry
      plan)
    (file : made.request.entry.kind = .file) :
    plan.destinationPath = made.before.naturalDestination plan.normalizedArchivePath ↔
      ¬ IsRenamed resolver made
        (made.before.naturalDestination plan.normalizedArchivePath) := by
  obtain ⟨names, member⟩ := selectMember_isMemberPath step.member
  unfold IsRenamed isTaken
  have choice := step.destination
  generalize naturalEq : made.before.naturalDestination plan.normalizedArchivePath = natural
    at choice ⊢
  generalize plan.destinationPath = destination at choice ⊢
  generalize plan.replaceExisting = replaceExisting at choice
  cases choice with
  | absent error probed isAbsent => simp [probed, Except.isOk, Except.toBool]
  | kept probed directory different =>
    rw [file] at directory
    cases directory
  | replaced fileType probed replacing => simp [replacing]
  | answered fileType probed asking conflict asked => simp [asking, asked]
  | renamed fileType _ resumeIndex probed chosen conflict searched =>
    rcases nextAvailableDestinationPathFrom_ok searched with
      ⟨free, same⟩ | ⟨occupied, index, sibling, -⟩
    · simp [same, free]
    · have different := @renameCandidate_ne_natural made.before _ _ member index
      rw [naturalEq, ← sibling] at different
      simp only [different, probed, occupied, false_iff, not_not]
      exact ⟨rfl, chosen⟩

/-- **When hardlinks follow their member.** Of a file and a later hardlink to its
member path, both planned by one planner, the link shares the file's destination
exactly when the file was not renamed. -/
theorem hardlink_follows_member_iff (fold : CaseFolding) (resolver : Option OverwriteResolver)
    (root : PathBuf) (policy : ExtractionPolicy) (requests : List Request)
    (front middle back : List Call) (fileCall linkCall : Call)
    (calls : run fold resolver (new root policy) requests =
      front ++ fileCall :: (middle ++ linkCall :: back))
    (filePlan linkPlan : PlannedWrite) (member target : Text)
    (file : fileCall.request.entry.kind = .file)
    (fileMember : normalizeArchivePath fileCall.request.entry.archivePath = .ok member)
    (fileWritten : fileCall.result = .ok (.write filePlan))
    (link : linkCall.request.entry.kind = .hardlink target)
    (linkMember : normalizeArchivePath target = .ok member)
    (linkWritten : linkCall.result = .ok (.write linkPlan)) :
    linkPlan.linkTargetPath = some filePlan.destinationPath ↔
      ¬ IsRenamed resolver fileCall
        (fileCall.before.naturalDestination filePlan.normalizedArchivePath) := by
  have fileInside : fileCall ∈ run fold resolver (new root policy) requests := by
    rw [calls]
    simp
  have linkInside : linkCall ∈ run fold resolver (new root policy) requests := by
    rw [calls]
    simp
  have fileStep := (isOutcome_of_mem_run fileInside).writeStep (Call.plan?_of_result fileWritten)
  have linkStep := (isOutcome_of_mem_run linkInside).writeStep (Call.plan?_of_result linkWritten)
  have fileSettings := run_settings fileCall fileInside
  have linkSettings := run_settings linkCall linkInside
  obtain ⟨normalized, accepted, -, stripped⟩ := selectMember_ok fileStep.member
  rw [fileMember] at accepted
  cases accepted
  have source : linkPlan.linkTargetPath =
      some (fileCall.before.naturalDestination filePlan.normalizedArchivePath) := by
    obtain ⟨path, resolved, linked⟩ := linkStep.linkTargetPath_of_hardlink link
    obtain ⟨normalized, name, accepted, kept, rfl⟩ := resolveHardlinkTarget_ok resolved
    rw [linkMember] at accepted
    cases accepted
    rw [linkSettings.policy, ← fileSettings.policy, stripped] at kept
    cases kept
    rw [linked]
    unfold naturalDestination
    rw [linkSettings.destinationRoot, fileSettings.destinationRoot]
  rw [source, Option.some_inj, eq_comm]
  exact file_keeps_natural_iff fileStep file

/-- A stripped member and a hardlink to it, both below a free name. -/
theorem hardlink_follows_stripped_member :
    (⟨"l".toList, outRoot ++ PathBuf.ofNames ["l".toList],
      some (outRoot ++ PathBuf.ofNames ["t".toList]), false⟩ : PlannedWrite).linkTargetPath =
    some (⟨"t".toList, outRoot ++ PathBuf.ofNames ["t".toList], none, false⟩ :
      PlannedWrite).destinationPath :=
  (hardlink_follows_member_iff .ascii none outRoot { overwrite := .rename, stripComponents := 1 }
    [⟨(outDisk []).probe, ⟨"d/t".toList, .file, none, none⟩⟩,
      ⟨(outDisk []).probe, ⟨"d/l".toList, .hardlink "d//t".toList, none, none⟩⟩]
    [] [] [] _ _ rfl
    ⟨"t".toList, outRoot ++ PathBuf.ofNames ["t".toList], none, false⟩
    ⟨"l".toList, outRoot ++ PathBuf.ofNames ["l".toList],
      some (outRoot ++ PathBuf.ofNames ["t".toList]), false⟩
    "d/t".toList "d//t".toList rfl (by decide +kernel) (by decide +kernel) rfl (by decide +kernel)
    (by decide +kernel)).mpr fun renamed => absurd renamed.1 (by decide +kernel)

/-- With `t` on the disk, the member `t` is written to `t 2` and the hardlink to
it is made from the file that was there before. -/
theorem hardlink_misses_renamed_member :
    (run .ascii none (new outRoot { overwrite := .rename })
      [⟨(outDisk [(["out".toList, "t".toList], .file [])]).probe,
          ⟨"t".toList, .file, none, none⟩⟩,
        ⟨(outDisk [(["out".toList, "t".toList], .file [])]).probe,
          ⟨"l".toList, .hardlink "t".toList, none, none⟩⟩]).map Call.plan? =
      [some ⟨"t".toList, outRoot ++ PathBuf.ofNames ["t 2".toList], none, false⟩,
        some ⟨"l".toList, outRoot ++ PathBuf.ofNames ["l".toList],
          some (outRoot ++ PathBuf.ofNames ["t".toList]), false⟩] ∧
    some (outRoot ++ PathBuf.ofNames ["t".toList]) ≠
      some (outRoot ++ PathBuf.ofNames ["t 2".toList]) := by
  decide +kernel

end Planner

end ZManager
