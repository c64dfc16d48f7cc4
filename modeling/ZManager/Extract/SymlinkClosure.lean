import ZManager.Extract.PlanAhead
import ZManager.Foundation.Enclosure

/-! # Extracted symlinks stay inside the root

Every accepted symlink is enclosed in the root when it is created, and the
planner keeps the places its target passes free of later symlinks, so the root
encloses its links after every decision (`Encloses.write`). What a link target
may pass is judged by the disk and by the planner's record of planned symlinks:
a backend that materializes each entry as it is validated sees all earlier links
on the disk, one that plans ahead relies on the record.
-/

namespace ZManager

open Planner

variable {Content : Type} {fold : CaseFolding} {root : Location} {planner after : Planner}
  {fs changed : FileSystem Content} {entry : ExtractionEntry} {plan : PlannedWrite}
  {probe : Probe} {resolver : Option OverwriteResolver}

variable {target : Text}

variable {payload : ExtractionEntry → Content}

/-! ## An accepted symlink -/

theorem validateSymlinkTarget_ok {natural : PathBuf}
    (passed : validateSymlinkTarget fold probe planner natural target = .ok ()) :
    PathBuf.isAbsoluteText target = false ∧ ∃ parent, natural.parent = some parent ∧
      planner.destinationRoot <+: lexicallyNormalize (parent.join target) := by
  obtain ⟨_, -, checked⟩ := Except.bind_eq_ok_iff.mp passed
  split_ifs at checked with absolute
  refine ⟨by simpa using absolute, ?_⟩
  cases above : natural.parent with
  | none =>
    rw [above] at checked
    cases checked
  | some parent =>
    rw [above] at checked
    dsimp only at checked
    split_ifs at checked with inside
    exact ⟨parent, rfl, inside⟩

theorem Planner.WriteStep.symlinkTarget_ok
    (step : WriteStep fold probe resolver planner after entry plan)
    (kind : entry.kind = .symlink target) :
    validateSymlinkTarget fold probe planner
      (planner.naturalDestination plan.normalizedArchivePath) target = .ok () := by
  have link := step.link
  unfold planLink at link
  rw [kind] at link
  dsimp only at link
  split_ifs at link
  · cases link
  · obtain ⟨_, passed, -⟩ := Except.bind_eq_ok_iff.mp link
    exact passed

theorem join_toPath (location : Location) (relative : PathBuf.isAbsoluteText target = false) :
    location.toPath.join target = location.toPath ++ PathBuf.relativeComponents target := by
  unfold PathBuf.join
  rw [relative]
  simp [Location.toPath]

/-- The facts the planner has checked of an accepted symlink. -/
structure IsAcceptedLink (fold : CaseFolding) (probe : Probe) (planner : Planner)
    (root location : Location) (target : Text) : Prop where
  relative : PathBuf.isAbsoluteText target = false
  inside : root <+: Location.descend location.dropLast (PathBuf.relativeComponents target)
  passes : ∀ front, front <+: PathBuf.relativeComponents target → front ≠ [] →
    front ≠ PathBuf.relativeComponents target →
    IsClear fold probe planner (Location.toPath (Location.descend location.dropLast front))

/-- The places a symlink target passes are among the checked ancestors. -/
theorem mem_symlinkTargetAncestors (anchored : planner.destinationRoot = root.toPath)
    {names : List Text} {last : Text} (kind : entry.kind = .symlink target)
    (destination : plan.destinationPath = Location.toPath (root ++ (names ++ [last])))
    (relative : PathBuf.isAbsoluteText target = false) {front : List Component}
    (above : front <+: PathBuf.relativeComponents target) (nonempty : front ≠ [])
    (proper : front ≠ PathBuf.relativeComponents target) :
    Location.toPath (Location.descend (root ++ names) front) ∈
      planner.symlinkTargetAncestors entry plan := by
  obtain ⟨back, whole⟩ := above
  have backNonempty : back ≠ [] := by
    rintro rfl
    exact proper (by rw [← whole, List.append_nil])
  obtain ⟨middle, final, rfl⟩ := List.eq_nil_or_concat' back |>.resolve_left backNonempty
  have ending : final ≠ .rootDir := by
    rintro rfl
    have member : Component.rootDir ∈ PathBuf.relativeComponents target := by
      rw [← whole]
      simp
    obtain ⟨segment, -, same⟩ := List.mem_filterMap.mp member
    unfold PathBuf.segmentComponent at same
    split_ifs at same
    · cases same
    · cases same
  unfold symlinkTargetAncestors
  rw [kind, destination, ← List.append_assoc, parent_toPath]
  dsimp only
  rw [join_toPath _ relative, ← whole, Location.toPath_append]
  have member := @mem_destinationAncestors planner root anchored
    (PathBuf.ofNames names ++ front ++ middle) final ending (PathBuf.ofNames names ++ front)
    (List.prefix_append _ _) (by simp [nonempty])
  have walked : root.descend (PathBuf.ofNames names ++ front) =
      Location.descend (root ++ names) front := by
    rw [← Location.descend_ofNames root names]
    unfold Location.descend
    rw [List.foldl_append]
  rw [walked] at member
  simpa using member

theorem Planner.WriteStep.isAcceptedLink
    (step : WriteStep fold probe resolver planner after entry plan) (valid : root.IsValid)
    (anchored : planner.destinationRoot = root.toPath) {names : List Text} {last : Text}
    (kind : entry.kind = .symlink target)
    (destination : plan.destinationPath = Location.toPath (root ++ (names ++ [last]))) :
    IsAcceptedLink fold probe planner root (root ++ (names ++ [last])) target := by
  obtain ⟨front, first, other, natural, sibling⟩ := step.exists_sibling valid anchored
  rw [destination] at sibling
  have same := List.append_cancel_left (Location.toPath_injective sibling)
  obtain ⟨rfl, -⟩ := List.append_inj' same rfl
  obtain ⟨relative, parent, above, inside⟩ := validateSymlinkTarget_ok (step.symlinkTarget_ok kind)
  rw [natural, ← List.append_assoc, parent_toPath] at above
  cases above
  rw [join_toPath _ relative, Location.lexicallyNormalize_append, anchored,
    Location.toPath_isPrefix] at inside
  have start : (root ++ (names ++ [last])).dropLast = root ++ names := by
    rw [← List.append_assoc, List.dropLast_concat]
  refine ⟨relative, by rwa [start], fun front above nonempty proper => ?_⟩
  rw [start]
  exact step.checked.2.2.2 _ (mem_symlinkTargetAncestors anchored kind destination relative above
    nonempty proper)

/-! ## The root encloses its links -/

/-- The root encloses its links, and the planner keeps the places their targets
pass free of symlinks. -/
structure Encloses (fold : CaseFolding) (root : Location) (planner : Planner)
    (fs : FileSystem Content) : Prop where
  anchored : planner.destinationRoot = root.toPath
  plainRoot : IsPlainBelow fs root
  links : fs.EnclosesLinks root
  required : ∀ location target, root <+: location → fs.node location = some (.symlink target) →
    ∀ front, front <+: PathBuf.relativeComponents target → front ≠ [] →
      front ≠ PathBuf.relativeComponents target →
      Planner.pathKey fold (Location.toPath (Location.descend location.dropLast front)) ∈
        planner.requiredNonSymlinkPaths

theorem Planner.WriteStep.required_of_symlinkTarget
    (step : WriteStep fold probe resolver planner after entry plan) {path : PathBuf}
    (passed : path ∈ planner.symlinkTargetAncestors entry plan) :
    Planner.pathKey fold path ∈ after.requiredNonSymlinkPaths := by
  rw [step.requiredNonSymlinkPaths]
  refine Finset.mem_union_right _ (List.mem_toFinset.mpr (List.mem_map_of_mem ?_))
  exact List.mem_append_right _ passed

/-- A decision that is materialized as foreseen keeps the links enclosed. -/
theorem Encloses.write (valid : root.IsValid) (encloses : Encloses fold root planner fs)
    (step : WriteStep fold probe resolver planner after entry plan)
    (foresees : Foresees fold probe planner fs)
    (finished : materialize payload fs (entry, plan) = .ok changed) :
    Encloses fold root after changed := by
  obtain ⟨names, last, destination⟩ := step.exists_destination valid encloses.anchored
  have symlinks := step.symlinkStep valid encloses.anchored encloses.plainRoot foresees
    destination finished
  refine ⟨step.settings.destinationRoot.trans encloses.anchored,
    symlinks.plainRoot encloses.plainRoot, ?_, ?_⟩
  · intro location target inside found
    rcases symlinks.origin location target found with old | ⟨rfl, kind⟩
    · have enclosed := encloses.links location target inside old
      refine ⟨enclosed.relative, enclosed.inside, fun front above nonempty proper => ?_⟩
      refine (enclosed.passes front above nonempty proper).imp_right fun plain => ?_
      rintro ⟨otherTarget, symlink⟩
      rcases symlinks.origin _ otherTarget symlink with earlier | ⟨here, kind⟩
      · exact plain ⟨otherTarget, earlier⟩
      · have required := encloses.required location target inside old front above nonempty proper
        rw [here, ← destination] at required
        exact step.checked.2.1 (by rw [kind]; rfl) required
    · have accepted := step.isAcceptedLink valid encloses.anchored kind destination
      refine ⟨accepted.relative, accepted.inside, fun front above nonempty proper => ?_⟩
      rw [or_iff_not_imp_left]
      rintro elsewhere ⟨otherTarget, symlink⟩
      rcases symlinks.origin _ otherTarget symlink with earlier | ⟨here, -⟩
      · exact foresees _ (accepted.passes front above nonempty proper) ⟨otherTarget, earlier⟩
      · exact elsewhere here
  · intro location target inside found front above nonempty proper
    rcases symlinks.origin location target found with old | ⟨rfl, kind⟩
    · exact step.requiredNonSymlinkPaths_mono
        (encloses.required location target inside old front above nonempty proper)
    · have accepted := step.isAcceptedLink valid encloses.anchored kind destination
      refine step.required_of_symlinkTarget ?_
      rw [← List.append_assoc, List.dropLast_concat]
      exact mem_symlinkTargetAncestors encloses.anchored kind destination accepted.relative above
        nonempty proper

theorem Encloses.quiet (encloses : Encloses fold root planner fs)
    (step : QuietStep fold planner after entry) : Encloses fold root after fs :=
  ⟨step.settings.destinationRoot.trans encloses.anchored, encloses.plainRoot, encloses.links,
    step.requiredNonSymlinkPaths ▸ encloses.required⟩

/-! ## Runs -/

/-- Validates and materializes entry by entry: every call of the planner sees the
disk its predecessors left. A failed materialization ends the run. -/
def extractInterleaved (fold : CaseFolding) (resolver : Option OverwriteResolver)
    (payload : ExtractionEntry → Content) :
    Planner → FileSystem Content → List ExtractionEntry →
      Except IoErrorKind (Planner × FileSystem Content)
  | planner, fs, [] => .ok (planner, fs)
  | planner, fs, entry :: rest =>
    let made := call fold resolver planner ⟨fs.probe, entry⟩
    match made.plan? with
    | none => extractInterleaved fold resolver payload made.after fs rest
    | some plan =>
      match materialize payload fs (entry, plan) with
      | .error failure => .error failure
      | .ok changed => extractInterleaved fold resolver payload made.after changed rest

/-- From every path below the root, symlinks lead to a place inside the root or
around in circles. -/
def LinksStayInside (fs : FileSystem Content) (root : Location) : Prop :=
  ∀ names budget final, fs.follow budget [] (Location.toPath (root ++ names)) = some final →
    root <+: final

theorem Encloses.linksStayInside (encloses : Encloses fold root planner fs) :
    LinksStayInside fs root :=
  fun _ _ _ reached => fs.follow_inside encloses.links encloses.plainRoot reached

theorem IsPlainRoot.encloses (plainRoot : IsPlainRoot fs root)
    (anchored : planner.destinationRoot = root.toPath) : Encloses fold root planner fs :=
  ⟨anchored, plainRoot.plainRoot,
    fun location target inside found => absurd ⟨target, found⟩ (plainRoot.plain location inside),
    fun location target inside found => absurd ⟨target, found⟩ (plainRoot.plain location inside)⟩

/-- Entry-by-entry extraction keeps the links enclosed. -/
theorem Encloses.interleaved (valid : root.IsValid) {entries : List ExtractionEntry}
    (encloses : Encloses fold root planner fs) {last : Planner} {reached : FileSystem Content}
    (finished : extractInterleaved fold resolver payload planner fs entries =
      .ok (last, reached)) : Encloses fold root last reached := by
  induction entries generalizing planner fs with
  | nil =>
    cases finished
    exact encloses
  | cons entry rest ih =>
    have outcome := @call_isOutcome fold resolver planner ⟨fs.probe, entry⟩
    unfold extractInterleaved at finished
    dsimp only at finished
    rcases outcome.cases with ⟨plan, planned, step⟩ | ⟨planned, step⟩
    · rw [planned] at finished
      dsimp only at finished
      split at finished
      · cases finished
      · rename_i changed materialized
        exact ih (encloses.write valid step (.of_probe fold planner fs) materialized) finished
    · rw [planned] at finished
      exact ih (encloses.quiet step) finished

/-- **Symlink closure.** Extraction that materializes each entry as it is
validated never creates a symlink that leads out of a root without symlinks, and
neither does a plan in which no decision makes the planner forget a symlink. -/
theorem links_stay_inside (fold : CaseFolding) (resolver : Option OverwriteResolver)
    (payload : ExtractionEntry → Content) (fs : FileSystem Content) (root : Location)
    (valid : root.IsValid) (plainRoot : IsPlainRoot fs root) (policy : ExtractionPolicy)
    (entries : List ExtractionEntry) :
    (∀ last reached, extractInterleaved fold resolver payload (new root.toPath policy) fs entries =
      .ok (last, reached) → LinksStayInside reached root) ∧
    ((writesOf (run fold resolver (new root.toPath policy)
        (planAhead fs.probe entries))).Pairwise
          (fun earlier later => ¬ ForgetsSymlink fold earlier later) →
      ∀ reached, materializeAll payload fs (writesOf (run fold resolver (new root.toPath policy)
        (planAhead fs.probe entries))) = .ok reached → LinksStayInside reached root) := by
  have anchored := new_destinationRoot valid.isCanonical policy
  constructor
  · intro last reached finished
    exact ((plainRoot.encloses anchored).interleaved valid finished).linksStayInside
  · intro remembered reached materialized
    obtain ⟨current, ⟨-, encloses⟩, -⟩ := @planAhead_invariant _ fold _ _ _ fs.probe resolver
      payload
      (fun planner tree done => Tracks fold root fs planner tree done ∧
        Encloses fold root planner tree)
      (fun earlier later => ¬ ForgetsSymlink fold earlier later)
      (fun both step => ⟨both.1.quiet step, both.2.quiet step⟩)
      (fun both step earlier finished => ⟨both.1.write valid step earlier finished,
        both.2.write valid step both.1.foresees finished⟩)
      entries ⟨plainRoot.tracks anchored, plainRoot.encloses anchored⟩
      (by rwa [List.nil_append]) _ [] (List.append_nil _).symm reached materialized
    exact encloses.linksStayInside

/-- A link to a directory that a later entry supplies. -/
theorem links_stay_inside_link_before_target :
    (materializeAll ExtractionEntry.archivePath (outDisk []) (writesOf (run .ascii none
      (new (Location.toPath ["out".toList]) { overwrite := .rename })
      (planAhead (outDisk []).probe
        [⟨"a".toList, .symlink "b/../b".toList, none, none⟩,
          ⟨"b/c".toList, .file, none, none⟩])))).isOk = true ∧
    ∀ reached, materializeAll ExtractionEntry.archivePath (outDisk []) (writesOf (run .ascii none
      (new (Location.toPath ["out".toList]) { overwrite := .rename })
      (planAhead (outDisk []).probe
        [⟨"a".toList, .symlink "b/../b".toList, none, none⟩,
          ⟨"b/c".toList, .file, none, none⟩]))) = .ok reached →
      LinksStayInside reached ["out".toList] :=
  ⟨by decide +kernel, (links_stay_inside .ascii none ExtractionEntry.archivePath (outDisk [])
    ["out".toList] out_isValid outDisk_isEmptyRoot.isPlainRoot { overwrite := .rename } _).2
    (by decide +kernel)⟩

/-- With `d/f` on the disk, the symlink `d/f` is renamed to `d/f 2`, the directory
entry `d/f 2` makes the planner forget it, and the target `d/f 2/..` of `s` leads
out of the root. -/
theorem link_leads_outside_after_rename :
    ¬ ∀ reached, materializeAll ExtractionEntry.archivePath
        (outDisk [(["out".toList, "d".toList, "f".toList], .file [])])
        (writesOf (run .ascii none (new (Location.toPath ["out".toList]) { overwrite := .rename })
          (planAhead (outDisk [(["out".toList, "d".toList, "f".toList], .file [])]).probe
            [⟨"d/f".toList, .symlink "..".toList, none, none⟩,
              ⟨"d/f 2".toList, .directory, none, none⟩,
              ⟨"s".toList, .symlink "d/f 2/..".toList, none, none⟩]))) = .ok reached →
      LinksStayInside reached ["out".toList] := by
  intro inside
  have escape : ((materializeAll ExtractionEntry.archivePath
      (outDisk [(["out".toList, "d".toList, "f".toList], .file [])])
      (writesOf (run .ascii none (new (Location.toPath ["out".toList]) { overwrite := .rename })
        (planAhead (outDisk [(["out".toList, "d".toList, "f".toList], .file [])]).probe
          [⟨"d/f".toList, .symlink "..".toList, none, none⟩,
            ⟨"d/f 2".toList, .directory, none, none⟩,
            ⟨"s".toList, .symlink "d/f 2/..".toList, none, none⟩])))).toOption.bind
      fun reached => reached.follow 2 [] (Location.toPath (["out".toList] ++ ["s".toList]))) =
        some [] := by
    decide +kernel
  obtain ⟨reached, materialized, followed⟩ := Option.bind_eq_some_iff.mp escape
  have below := inside reached (Except.toOption_eq_some.mp materialized) _ 2 [] followed
  revert below
  decide

end ZManager
