import ZManager.Safety.CollisionKey

/-! # Outputs that share a destination

Member names are kept apart by their collision keys, but a conflict with the
disk is resolved by the first numbered sibling that is free on the disk, and no
later entry is checked against that choice. Two outputs of one plan share a
destination exactly when one of them is renamed to the name of the other
(`Planner.outputs_distinct_iff`); two renamed outputs never do.
-/

namespace ZManager

namespace Planner

variable {plan : PlannedWrite}

/-- Whether the disk holds an object at a path, so that a file planned there has
to be renamed. -/
def isTaken (probe : Probe) (path : PathBuf) : Bool :=
  (probe.symlinkMetadata path).isOk && probe.pathExists path

/-- The first numbered sibling of a path that is free on the disk. -/
def firstFreeSibling (probe : Probe) (path : PathBuf) : Option PathBuf :=
  (nextAvailableDestinationPathFrom probe path firstRenameIndex maxRenameCandidates).map Prod.fst

/-- The plans of the non-directory entries a run writes. -/
def outputs (calls : List Call) : List PlannedWrite :=
  calls.filterMap fun call => if call.request.entry.kind.isDirectory then none else call.plan?

/-- The destinations of the outputs have different collision keys. -/
def HaveDistinctDestinations (fold : CaseFolding) (plans : List PlannedWrite) : Prop :=
  plans.Pairwise fun first second =>
    pathKey fold first.destinationPath ≠ pathKey fold second.destinationPath

instance (fold : CaseFolding) (plans : List PlannedWrite) :
    Decidable (HaveDistinctDestinations fold plans) :=
  inferInstanceAs (Decidable (plans.Pairwise _))

/-- The member `name` is in the way of an object on the disk, `other` is not, and
the first free sibling of `name` is the destination of `other`. -/
def TakesNameOf (fold : CaseFolding) (probe : Probe) (planner : Planner) (name other : Text) :
    Prop :=
  isTaken probe (planner.naturalDestination name) = true ∧
    isTaken probe (planner.naturalDestination other) = false ∧
    ∃ sibling ∈ firstFreeSibling probe (planner.naturalDestination name),
      pathKey fold sibling = pathKey fold (planner.naturalDestination other)

instance (fold : CaseFolding) (probe : Probe) (planner : Planner) (name other : Text) :
    Decidable (TakesNameOf fold probe planner name other) :=
  inferInstanceAs (Decidable (_ ∧ _ ∧ ∃ sibling ∈ _, _))

/-- A resolver that never allows a replacement. -/
def NeverReplaces (resolver : Option OverwriteResolver) : Prop :=
  ∀ decide ∈ resolver, ∀ asked conflict, decide asked conflict ≠ .replace

/-! ## Where an output goes -/

variable {fold : CaseFolding} {probe : Probe} {resolver : Option OverwriteResolver}
  {planner : Planner} {entry : ExtractionEntry} {natural destination : PathBuf}

theorem answer_ne_replace (never : NeverReplaces resolver) :
    answer resolver planner entry natural ≠ some .replace := by
  cases resolver with
  | none => exact fun same => by cases same
  | some decide =>
    intro same
    exact never decide rfl _ _ (Option.some.inj same)

/-- An entry that is no directory keeps its natural destination unless that is
taken; then it gets the first free sibling. -/
theorem DestinationChoice.output {replaceExisting : Bool}
    (choice : DestinationChoice probe resolver planner entry natural destination replaceExisting)
    (file : entry.kind.isDirectory = false) (policy : planner.policy.overwrite ≠ .replace)
    (never : planner.policy.overwrite = .ask → NeverReplaces resolver)
    (unnumbered : planner.nextRenameIndex natural = none) :
    (isTaken probe natural = false ∧ destination = natural) ∨
      (isTaken probe natural = true ∧ firstFreeSibling probe natural = some destination ∧
        ∃ index, destination = renameCandidate natural index) := by
  cases choice with
  | absent error probed isAbsent =>
    left
    refine ⟨?_, rfl⟩
    rw [isTaken, probed]
    rfl
  | kept probed directory different =>
    rw [file] at directory
    cases directory
  | replaced fileType probed replacing => exact absurd replacing policy
  | answered fileType probed asking conflict asked =>
    exact absurd asked (answer_ne_replace (never asking))
  | renamed fileType _ resumeIndex probed chosen conflict searched =>
    rw [unnumbered, Option.getD_none] at searched
    have taken : isTaken probe natural = probe.pathExists natural := by
      rw [isTaken, probed]
      rfl
    rw [taken]
    rcases nextAvailableDestinationPathFrom_ok searched with
      ⟨free, rfl⟩ | ⟨occupied, index, sibling, -⟩
    · exact .inl ⟨free, rfl⟩
    · refine .inr ⟨occupied, ?_, index, sibling⟩
      rw [firstFreeSibling, searched]
      rfl

/-! ## Names are claimed once -/

/-- A rename counter exists only for names that have been claimed. -/
def CountersAreClaimed (fold : CaseFolding) (planner : Planner) : Prop :=
  ∀ name names, IsMemberPath name names →
    planner.nextRenameIndex (planner.destinationRoot ++ PathBuf.ofNames names) ≠ none →
    planner.seenPaths (caseCollisionKey fold name) ≠ none

theorem ofNames_injective : Function.Injective PathBuf.ofNames :=
  List.map_injective_iff.mpr fun _ _ same => Component.normal.inj same

/-- The natural destination determines the member name. -/
theorem member_of_natural_eq {root : PathBuf} {names names' : List Text} {name name' : Text}
    (member : IsMemberPath name names) (member' : IsMemberPath name' names')
    (same : root ++ PathBuf.ofNames names = root ++ PathBuf.ofNames names') : name = name' := by
  rw [member.text, member'.text, ofNames_injective (List.append_cancel_left same)]

theorem WriteStep.seenPaths_mono {before after : Planner}
    (step : WriteStep fold probe resolver before after entry plan)
    (policy : before.policy.overwrite ≠ .replace) :
    ∀ key, before.seenPaths key ≠ none → after.seenPaths key ≠ none := by
  rw [(step.fresh policy).2]
  exact update_some_ne_none

/-- Every call keeps the counters claimed. -/
theorem CountersAreClaimed.step {made : Call} (outcome : made.IsOutcome fold resolver)
    (canonical : IsCanonical made.before.destinationRoot)
    (policy : made.before.policy.overwrite ≠ .replace)
    (claimed : CountersAreClaimed fold made.before) : CountersAreClaimed fold made.after := by
  intro name names member counted
  rcases outcome.cases with ⟨plan, -, step⟩ | ⟨-, step⟩
  · rw [step.settings.destinationRoot] at counted
    obtain ⟨planNames, planMember⟩ := selectMember_isMemberPath step.member
    by_cases same : made.before.destinationRoot ++ PathBuf.ofNames names =
        made.before.naturalDestination plan.normalizedArchivePath
    · rw [naturalDestination_eq canonical planMember] at same
      rw [(step.fresh policy).2, member_of_natural_eq member planMember same]
      simp
    · rw [step.nextRenameIndex _ same] at counted
      exact step.seenPaths_mono policy _ (claimed name names member counted)
  · rw [step.settings.destinationRoot] at counted
    by_cases moved : made.after.nextRenameIndex
        (made.before.destinationRoot ++ PathBuf.ofNames names) =
          made.before.nextRenameIndex (made.before.destinationRoot ++ PathBuf.ofNames names)
    · rw [moved] at counted
      exact step.seenPaths _ (claimed name names member counted)
    · obtain ⟨other, selected, same, seen⟩ := step.nextRenameIndex _ moved
      obtain ⟨otherNames, otherMember⟩ := selectMember_isMemberPath selected
      rw [naturalDestination_eq canonical otherMember] at same
      rw [member_of_natural_eq member otherMember same]
      exact seen policy

/-- The planner states of a run that does not replace: a canonical root and
claimed counters. -/
structure IsRenumbering (fold : CaseFolding) (planner : Planner) : Prop where
  canonical : IsCanonical planner.destinationRoot
  policy : planner.policy.overwrite ≠ .replace
  claimed : CountersAreClaimed fold planner

theorem IsRenumbering.new {root : PathBuf} (canonical : IsCanonical root)
    {policy : ExtractionPolicy} (different : policy.overwrite ≠ .replace) :
    IsRenumbering fold (new root policy) :=
  ⟨(new_destinationRoot canonical policy).symm ▸ canonical, different,
    fun _ _ _ counted => absurd rfl counted⟩

theorem IsRenumbering.step {made : Call} (outcome : made.IsOutcome fold resolver)
    (valid : IsRenumbering fold made.before) : IsRenumbering fold made.after := by
  have settings := (validateEntry_preserves made.request.entry).of_exec outcome
  exact ⟨settings.destinationRoot ▸ valid.canonical, settings.policy ▸ valid.policy,
    valid.claimed.step outcome valid.canonical valid.policy⟩

/-- The names a run writes were unseen when it started, and their keys differ. -/
theorem run_names_distinct {requests : List Request} (valid : IsRenumbering fold planner) :
    (∀ made ∈ run fold resolver planner requests, ∀ plan, made.plan? = some plan →
      planner.seenPaths (caseCollisionKey fold plan.normalizedArchivePath) = none) ∧
    (run fold resolver planner requests).Pairwise fun first second =>
      ∀ firstPlan secondPlan, first.plan? = some firstPlan → second.plan? = some secondPlan →
        caseCollisionKey fold firstPlan.normalizedArchivePath ≠
          caseCollisionKey fold secondPlan.normalizedArchivePath := by
  induction requests generalizing planner with
  | nil => exact ⟨fun _ member => (List.not_mem_nil member).elim, .nil⟩
  | cons request rest ih =>
    have outcome := @call_isOutcome fold resolver planner request
    obtain ⟨unseen, distinct⟩ := ih (valid.step outcome)
    -- Whatever the first call does, a name unseen after it was unseen before.
    have mono : ∀ key, (call fold resolver planner request).after.seenPaths key = none →
        planner.seenPaths key = none := by
      intro key absent
      by_contra present
      rcases outcome.cases with ⟨plan, -, step⟩ | ⟨-, step⟩
      · exact step.seenPaths_mono valid.policy key present absent
      · exact step.seenPaths key present absent
    refine ⟨?_, List.pairwise_cons.mpr ⟨?_, distinct⟩⟩
    · intro made member plan planned
      rcases List.mem_cons.mp member with rfl | member
      · exact ((outcome.writeStep planned).fresh valid.policy).1
      · exact mono _ (unseen made member plan planned)
    · intro second member firstPlan secondPlan planned planned' same
      have absent := unseen second member secondPlan planned'
      rw [((outcome.writeStep planned).fresh valid.policy).2, ← same] at absent
      simp at absent

/-! ## Which outputs collide -/

/-- What a run says about the destination of one of its outputs. -/
structure IsPlaced (probe : Probe) (planner : Planner) (plan : PlannedWrite)
    (names : List Text) : Prop where
  member : IsMemberPath plan.normalizedArchivePath names
  destination : (isTaken probe (planner.naturalDestination plan.normalizedArchivePath) = false ∧
      plan.destinationPath = planner.naturalDestination plan.normalizedArchivePath) ∨
    (isTaken probe (planner.naturalDestination plan.normalizedArchivePath) = true ∧
      firstFreeSibling probe (planner.naturalDestination plan.normalizedArchivePath) =
        some plan.destinationPath ∧
      ∃ index, plan.destinationPath =
        renameCandidate (planner.naturalDestination plan.normalizedArchivePath) index)

theorem isPlaced_of_mem_run (valid : IsRenumbering fold planner)
    (never : planner.policy.overwrite = .ask → NeverReplaces resolver)
    {entries : List ExtractionEntry} {made : Call}
    (inside : made ∈ run fold resolver planner (planAhead probe entries))
    (file : made.request.entry.kind.isDirectory = false) (planned : made.plan? = some plan) :
    ∃ names, IsPlaced probe planner plan names := by
  have step := (isOutcome_of_mem_run inside).writeStep planned
  have settings := run_settings made inside
  have before : IsRenumbering fold made.before :=
    run_invariant (fun _ outcome => IsRenumbering.step outcome) valid made inside
  have snapshot : made.request.probe = probe := by
    obtain ⟨entry, -, same⟩ := List.mem_map.mp (request_mem_of_mem_run inside)
    rw [← same]
  obtain ⟨names, member⟩ := selectMember_isMemberPath step.member
  have natural : made.before.naturalDestination plan.normalizedArchivePath =
      planner.naturalDestination plan.normalizedArchivePath := by
    unfold naturalDestination
    rw [settings.destinationRoot]
  refine ⟨names, member, ?_⟩
  have unnumbered : made.before.nextRenameIndex
      (made.before.naturalDestination plan.normalizedArchivePath) = none := by
    by_contra counted
    rw [naturalDestination_eq before.canonical member] at counted
    exact before.claimed _ names member counted (step.fresh before.policy).1
  have choice := step.destination.output file before.policy
    (fun asking => never (settings.policy ▸ asking)) unnumbered
  rwa [natural, snapshot] at choice

/-- The outputs of a run are the plans of its calls on non-directory entries. -/
theorem mem_outputs {calls : List Call} :
    plan ∈ outputs calls ↔ ∃ made ∈ calls, made.request.entry.kind.isDirectory = false ∧
      made.plan? = some plan := by
  unfold outputs
  rw [List.mem_filterMap]
  refine exists_congr fun made => and_congr_right fun _ => ?_
  cases made.request.entry.kind.isDirectory <;> simp

/-- Two outputs with different names collide exactly when one is renamed to the
name of the other. -/
theorem IsPlaced.collide_iff {first second : PlannedWrite} {names names' : List Text}
    (canonical : IsCanonical planner.destinationRoot) (placed : IsPlaced probe planner first names)
    (placed' : IsPlaced probe planner second names')
    (different : caseCollisionKey fold first.normalizedArchivePath ≠
      caseCollisionKey fold second.normalizedArchivePath) :
    pathKey fold first.destinationPath = pathKey fold second.destinationPath ↔
      TakesNameOf fold probe planner first.normalizedArchivePath second.normalizedArchivePath ∨
      TakesNameOf fold probe planner second.normalizedArchivePath
        first.normalizedArchivePath := by
  have keysDiffer := different
  rw [placed.member.text, placed'.member.text] at different
  unfold TakesNameOf
  rcases placed.destination with ⟨free, same⟩ | ⟨taken, sibling, index, renamed⟩
  · rcases placed'.destination with ⟨free', same'⟩ | ⟨taken', sibling', index', renamed'⟩
    · refine ⟨fun equal => absurd ?_ different, fun takes => ?_⟩
      · rw [same, same', naturalDestination_eq canonical placed.member,
          naturalDestination_eq canonical placed'.member] at equal
        exact pathKey_ofNames_inj canonical placed.member.ne_nil placed'.member.ne_nil equal
      · rw [free, free'] at takes
        simp at takes
    · rw [free, taken', sibling', ← same]
      simp [eq_comm]
  · rcases placed'.destination with ⟨free', same'⟩ | ⟨taken', sibling', index', renamed'⟩
    · rw [taken, free', sibling, ← same']
      simp
    · refine ⟨fun equal => absurd ?_ different, fun takes => ?_⟩
      · obtain ⟨front, last, rfl⟩ := List.eq_nil_or_concat' names |>.resolve_left
          placed.member.ne_nil
        obtain ⟨front', last', rfl⟩ := List.eq_nil_or_concat' names' |>.resolve_left
          placed'.member.ne_nil
        have valid := placed.member.valid last (by simp)
        have valid' := placed'.member.valid last' (by simp)
        rw [renamed, renamed', naturalDestination_eq canonical placed.member,
          naturalDestination_eq canonical placed'.member,
          renameCandidate_ofNames _ valid,
          renameCandidate_ofNames _ valid'] at equal
        exact caseCollisionKey_renamed_inj valid valid'
          (pathKey_ofNames_inj canonical (by simp) (by simp) equal)
      · rw [taken, taken'] at takes
        simp at takes

theorem ne_of_pairwise_ne {α β : Type} {value : α → β} {items : List α}
    (distinct : items.Pairwise fun first second => value first ≠ value second) {first second : α}
    (member : first ∈ items) (member' : second ∈ items) (different : first ≠ second) :
    value first ≠ value second := by
  have symmetric : Std.Symm fun first second => value first ≠ value second :=
    ⟨fun _ _ unequal => unequal.symm⟩
  exact distinct.forall member member' different

/-- **When outputs are distinct.** The outputs of a plan made against one
snapshot of the disk have distinct destinations exactly when none of them is
renamed to the name of another. -/
theorem outputs_distinct_iff (fold : CaseFolding) (probe : Probe)
    (resolver : Option OverwriteResolver) (root : PathBuf) (canonical : IsCanonical root)
    (policy : ExtractionPolicy) (different : policy.overwrite ≠ .replace)
    (never : policy.overwrite = .ask → NeverReplaces resolver) (entries : List ExtractionEntry) :
    HaveDistinctDestinations fold
        (outputs (run fold resolver (new root policy) (planAhead probe entries))) ↔
      ∀ first ∈ outputs (run fold resolver (new root policy) (planAhead probe entries)),
      ∀ second ∈ outputs (run fold resolver (new root policy) (planAhead probe entries)),
        ¬ TakesNameOf fold probe (new root policy) first.normalizedArchivePath
          second.normalizedArchivePath := by
  have valid : IsRenumbering fold (new root policy) := .new canonical different
  obtain ⟨-, names⟩ := @run_names_distinct fold resolver _ (planAhead probe entries) valid
  have keys : (outputs (run fold resolver (new root policy) (planAhead probe entries))).Pairwise
      fun first second => caseCollisionKey fold first.normalizedArchivePath ≠
        caseCollisionKey fold second.normalizedArchivePath := by
    refine List.pairwise_filterMap.mpr (names.imp fun distinct => ?_)
    intro firstPlan planned secondPlan planned'
    split_ifs at planned planned'
    exact distinct firstPlan secondPlan planned planned'
  have placed : ∀ plan ∈ outputs (run fold resolver (new root policy) (planAhead probe entries)),
      ∃ names, IsPlaced probe (new root policy) plan names := by
    intro plan member
    obtain ⟨made, inside, file, planned⟩ := mem_outputs.mp member
    exact isPlaced_of_mem_run valid never inside file planned
  constructor
  · intro distinct first member second member' takes
    have notSame : first ≠ second := by
      rintro rfl
      have free := takes.2.1
      rw [takes.1] at free
      cases free
    have nameKeys := ne_of_pairwise_ne keys member member' notSame
    have destinationKeys := ne_of_pairwise_ne distinct member member' notSame
    obtain ⟨_, firstPlaced⟩ := placed first member
    obtain ⟨_, secondPlaced⟩ := placed second member'
    exact destinationKeys ((firstPlaced.collide_iff valid.canonical secondPlaced nameKeys).mpr
      (.inl takes))
  · intro none
    refine keys.imp_of_mem fun {first second} member member' nameKeys same => ?_
    obtain ⟨_, firstPlaced⟩ := placed first member
    obtain ⟨_, secondPlaced⟩ := placed second member'
    rcases (firstPlaced.collide_iff valid.canonical secondPlaced nameKeys).mp same with
      takes | takes
    · exact none first member second member' takes
    · exact none second member' first member takes

/-- With `f` on the disk, the member `f` is renamed and stays apart from `g`. -/
theorem outputs_distinct_after_rename :
    HaveDistinctDestinations .ascii (outputs (run .ascii none
      (new outRoot { overwrite := .rename })
      (planAhead (outDisk [(["out".toList, "f".toList], .file [])]).probe
        [⟨"f".toList, .file, none, none⟩, ⟨"g".toList, .file, none, none⟩]))) :=
  (outputs_distinct_iff .ascii _ none outRoot outRoot_isCanonical { overwrite := .rename }
    (by decide) (fun asking => by cases asking) _).mpr (by decide +kernel)

/-- With `f` on the disk, the members `f` and `f 2` are both written to `f 2`. -/
theorem outputs_collide_after_rename :
    ¬ HaveDistinctDestinations .ascii (outputs (run .ascii none
      (new outRoot { overwrite := .rename })
      (planAhead (outDisk [(["out".toList, "f".toList], .file [])]).probe
        [⟨"f".toList, .file, none, none⟩, ⟨"f 2".toList, .file, none, none⟩]))) := by
  decide +kernel

end Planner

end ZManager
