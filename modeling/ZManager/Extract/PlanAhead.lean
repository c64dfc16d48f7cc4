import ZManager.Extract.ClearPaths
import ZManager.Safety.Collision

/-! # Plans that are materialized after they are made

A backend that plans a whole archive before it writes relies on the planner's
own record of the symlinks it has planned. The record is exact as long as no
planned symlink is forgotten while it is still going to be on the disk: planning
another object under the same collision key forgets it, and a directory, or an
object under another spelling, does not remove the symlink.
-/

namespace ZManager

open Planner

variable {Content : Type}

variable {payload : ExtractionEntry → Content}

variable {calls : List Call}

/-- Materializing the decisions one after the other, no decision finds a symlink
among the proper ancestors of its destination below the root. -/
def NeverWritesThroughSymlink (payload : ExtractionEntry → Content) (root : Location)
    (fs : FileSystem Content) (writes : List Write) : Prop :=
  ∀ front write back, writes = front ++ write :: back →
    ∀ reached, materializeAll payload fs front = .ok reached →
    ∀ ancestor : Location, root <+: ancestor → ancestor ≠ root →
      ancestor.toPath <+: write.2.destinationPath →
      ancestor.toPath ≠ write.2.destinationPath → ¬ reached.IsSymlink ancestor

/-- The later entry makes the planner forget the earlier symlink without taking
it off the disk: same collision key, but a directory or another spelling. -/
def LeavesRedirect (fold : CaseFolding) (earlier later : Write) : Prop :=
  earlier.1.kind.isSymlink = true ∧ later.1.kind.isSymlink = false ∧
    caseCollisionKey fold earlier.2.normalizedArchivePath =
      caseCollisionKey fold later.2.normalizedArchivePath ∧
    (later.1.kind.isDirectory = true ∨
      earlier.2.normalizedArchivePath ≠ later.2.normalizedArchivePath)

/-- The same for the destinations of the two entries. -/
def ForgetsSymlink (fold : CaseFolding) (earlier later : Write) : Prop :=
  earlier.1.kind.isSymlink = true ∧ later.1.kind.isSymlink = false ∧
    Planner.pathKey fold earlier.2.destinationPath =
        Planner.pathKey fold later.2.destinationPath ∧
    (later.1.kind.isDirectory = true ∨
      earlier.2.destinationPath ≠ later.2.destinationPath)

/-! ## The planner's record of symlinks -/

/-- The planner knows every symlink below the root, every such symlink was created
by a decision already done, and the symlinks elsewhere were there at the start. -/
structure Tracks (fold : CaseFolding) (root : Location) (start : FileSystem Content)
    (planner : Planner) (fs : FileSystem Content) (done : List Write) : Prop where
  anchored : planner.destinationRoot = root.toPath
  plainRoot : IsPlainBelow fs root
  planned : ∀ location : Location, root <+: location → fs.IsSymlink location →
    Planner.pathKey fold location.toPath ∈ planner.plannedSymlinks
  origin : ∀ location : Location, root <+: location → fs.IsSymlink location →
    ∃ write ∈ done, write.1.kind.isSymlink = true ∧ write.2.destinationPath = location.toPath
  outside : ∀ location : Location, ¬ root <+: location → fs.IsSymlink location →
    start.IsSymlink location

variable {fold : CaseFolding} {root : Location} {planner after : Planner}
  {start fs changed : FileSystem Content} {done : List Write} {entry : ExtractionEntry}
  {plan : PlannedWrite} {probe : Probe} {resolver : Option OverwriteResolver}

/-- A planner that tracks the tree foresees it from the view it started with. -/
theorem Tracks.foresees (tracks : Tracks fold root start planner fs done) :
    Foresees fold start.probe planner fs := by
  intro location clear symlink
  by_cases inside : root <+: location
  · exact clear.1 (tracks.planned location inside symlink)
  · exact start.not_isSymlink_of_isClear clear (tracks.outside location inside symlink)

/-- A decision that forgets no symlink keeps the record exact. -/
theorem Tracks.write (valid : root.IsValid) (tracks : Tracks fold root start planner fs done)
    (step : WriteStep fold start.probe resolver planner after entry plan)
    (remembered : ∀ earlier ∈ done, ¬ ForgetsSymlink fold earlier (entry, plan))
    (finished : materialize payload fs (entry, plan) = .ok changed) :
    Tracks fold root start after changed (done ++ [(entry, plan)]) := by
  obtain ⟨names, last, destination⟩ := step.exists_destination valid tracks.anchored
  have symlinks := step.symlinkStep valid tracks.anchored tracks.plainRoot tracks.foresees
    destination finished
  refine ⟨step.settings.destinationRoot.trans tracks.anchored,
    symlinks.plainRoot tracks.plainRoot, ?_, ?_, ?_⟩
  · rintro location inside ⟨target, found⟩
    rw [step.plannedSymlinks]
    change _ ∈ if entry.kind.isSymlink then _ else _
    rcases symlinks.origin location target found with old | ⟨rfl, symlink⟩
    · have known := tracks.planned location inside ⟨target, old⟩
      split_ifs with isSymlink
      · exact Finset.mem_insert_of_mem known
      · refine Finset.mem_erase.mpr ⟨fun sameKey => ?_, known⟩
        obtain ⟨earlier, member, symlink, same⟩ := tracks.origin location inside ⟨target, old⟩
        have notForgotten := remembered earlier member
        unfold ForgetsSymlink at notForgotten
        rw [same] at notForgotten
        simp only [symlink, isSymlink, sameKey, true_and, not_or] at notForgotten
        obtain ⟨notDirectory, samePath⟩ := notForgotten
        have here : location = root ++ (names ++ [last]) :=
          Location.toPath_injective (by rw [← destination]; simpa using samePath)
        refine symlinks.replaced (by simpa using isSymlink) (by simpa using notDirectory) ?_
        exact here ▸ ⟨target, found⟩
    · rw [if_pos (by rw [symlink]; rfl), destination]
      exact Finset.mem_insert_self _ _
  · rintro location inside ⟨target, found⟩
    rcases symlinks.origin location target found with old | ⟨rfl, symlink⟩
    · obtain ⟨earlier, member, created⟩ := tracks.origin location inside ⟨target, old⟩
      exact ⟨earlier, List.mem_append_left _ member, created⟩
    · exact ⟨(entry, plan), by simp, by rw [symlink]; rfl, destination⟩
  · rintro location elsewhere ⟨target, found⟩
    rcases symlinks.origin location target found with old | ⟨rfl, -⟩
    · exact tracks.outside location elsewhere ⟨target, old⟩
    · exact absurd (List.prefix_append root _) elsewhere

theorem Tracks.quiet (tracks : Tracks fold root start planner fs done)
    (step : QuietStep fold planner after entry) : Tracks fold root start after fs done :=
  ⟨step.settings.destinationRoot.trans tracks.anchored, tracks.plainRoot,
    step.plannedSymlinks ▸ tracks.planned, tracks.origin, tracks.outside⟩

/-! ## Whole plans -/

theorem writesOf_cons_of_plan {made : Call} (planned : made.plan? = some plan) :
    writesOf (made :: calls) = (made.request.entry, plan) :: writesOf calls :=
  List.filterMap_cons_some (by rw [Call.write?, planned]; rfl)

theorem writesOf_cons_of_quiet {made : Call} (planned : made.plan? = none) :
    writesOf (made :: calls) = writesOf calls :=
  List.filterMap_cons_none (by rw [Call.write?, planned]; rfl)

/-- Planning and materializing go through the same states one after the other, so
an invariant of single calls and decisions holds at every decision of a plan and
at its end. -/
theorem planAhead_invariant {payload : ExtractionEntry → Content}
    {invariant : Planner → FileSystem Content → List Write → Prop} {compatible : Write → Write →
        Prop}
    (quiet : ∀ {planner after fs done entry}, invariant planner fs done →
      QuietStep fold planner after entry → invariant after fs done)
    (write : ∀ {planner after fs changed done entry plan}, invariant planner fs done →
      WriteStep fold probe resolver planner after entry plan →
      (∀ earlier ∈ done, compatible earlier (entry, plan)) →
      materialize payload fs (entry, plan) = .ok changed →
      invariant after changed (done ++ [(entry, plan)]))
    {entries : List ExtractionEntry} (initial : invariant planner fs done)
    (pairwise : (done ++ writesOf (run fold resolver planner
      (planAhead probe entries))).Pairwise compatible)
    {front back : List Write}
    (split : writesOf (run fold resolver planner (planAhead probe entries)) = front ++ back)
    {reached : FileSystem Content} (materialized : materializeAll payload fs front = .ok reached) :
    ∃ current, invariant current reached (done ++ front) ∧
      ∀ next rest, back = next :: rest → ∃ after,
        WriteStep fold probe resolver current after next.1 next.2 := by
  induction entries generalizing planner fs done front with
  | nil =>
    obtain ⟨rfl, rfl⟩ := List.append_eq_nil_iff.mp split.symm
    cases materialized
    refine ⟨planner, by rwa [List.append_nil], fun next rest absent => ?_⟩
    cases absent
  | cons entry rest ih =>
    have outcome := @call_isOutcome fold resolver planner ⟨probe, entry⟩
    change writesOf (call fold resolver planner ⟨probe, entry⟩ :: run fold resolver
      (call fold resolver planner ⟨probe, entry⟩).after (planAhead probe rest)) = _ at split
    change (done ++ writesOf (call fold resolver planner ⟨probe, entry⟩ :: run fold resolver
      (call fold resolver planner ⟨probe, entry⟩).after
        (planAhead probe rest))).Pairwise _ at pairwise
    rcases outcome.cases with ⟨plan, planned, step⟩ | ⟨planned, step⟩
    · rw [writesOf_cons_of_plan planned] at split pairwise
      cases front with
      | nil =>
        cases materialized
        refine ⟨planner, by rwa [List.append_nil], ?_⟩
        rintro next others rfl
        obtain ⟨rfl, -⟩ := List.cons.inj split
        exact ⟨_, step⟩
      | cons first others =>
        obtain ⟨rfl, tail⟩ := List.cons.inj split
        obtain ⟨middle, finished, remaining⟩ := Except.bind_eq_ok_iff.mp materialized
        have earlier : ∀ earlier ∈ done, compatible earlier (entry, plan) :=
          fun earlier member => (List.pairwise_append.mp pairwise).2.2 earlier member _
            (List.mem_cons_self ..)
        rw [List.append_cons] at pairwise ⊢
        exact ih (write initial step earlier finished) pairwise tail remaining
    · rw [writesOf_cons_of_quiet planned] at split pairwise
      exact ih (quiet initial step) pairwise split materialized

/-- While no decision forgets a symlink, every decision of a plan finds a plain
way to its destination. -/
theorem Tracks.planAhead (valid : root.IsValid) {entries : List ExtractionEntry}
    (tracks : Tracks fold root start planner fs [])
    (remembered : (writesOf (run fold resolver planner
      (planAhead start.probe entries))).Pairwise
        fun earlier later => ¬ ForgetsSymlink fold earlier later) :
    NeverWritesThroughSymlink payload root fs
      (writesOf (run fold resolver planner (Planner.planAhead start.probe entries))) := by
  intro front write back split reached materialized ancestor _ _ above different
  obtain ⟨current, tracked, next⟩ := planAhead_invariant (fun tracks => tracks.quiet)
    (fun tracks => tracks.write valid) tracks (by rwa [List.nil_append]) split materialized
  obtain ⟨after, step⟩ := next write back rfl
  obtain ⟨names, last, destination⟩ := step.exists_destination valid tracked.anchored
  apply step.destination_plain tracked.anchored tracked.plainRoot tracked.foresees destination
  rw [destination, Location.toPath_isPrefix, ← List.append_assoc] at above
  rcases List.prefix_concat_iff.mp above with rfl | shorter
  · rw [List.append_assoc] at different
    exact absurd destination.symm different
  · exact shorter

/-! ## Roots without symlinks -/

/-- A real root directory without symlinks. -/
structure IsPlainRoot (fs : FileSystem Content) (root : Location) : Prop where
  directory : fs.node root = some .directory
  plain : ∀ location, root <+: location → ¬ fs.IsSymlink location

namespace IsPlainRoot

theorem plainRoot (plainRoot : IsPlainRoot fs root) : IsPlainBelow fs root := by
  rintro above inside ⟨target, found⟩
  by_cases same : above = root
  · rw [same, plainRoot.directory] at found
    cases found
  · rw [fs.directory_above inside same (by rw [plainRoot.directory]; simp)] at found
    cases found

theorem tracks (plainRoot : IsPlainRoot fs root)
    (anchored : planner.destinationRoot = root.toPath) : Tracks fold root fs planner fs [] :=
  ⟨anchored, plainRoot.plainRoot,
    fun location inside symlink => absurd symlink (plainRoot.plain location inside),
    fun location inside symlink => absurd symlink (plainRoot.plain location inside),
    fun _ _ symlink => symlink⟩

end IsPlainRoot

/-- The root is a real directory without entries. -/
structure IsEmptyRoot (fs : FileSystem Content) (root : Location) : Prop where
  directory : fs.node root = some .directory
  entries : ∀ name, fs.node (root ++ [name]) = none

namespace IsEmptyRoot

theorem node_below (empty : IsEmptyRoot fs root) {names : List Text} (nonempty : names ≠ []) :
    fs.node (root ++ names) = none := by
  obtain ⟨first, rest, rfl⟩ := List.exists_cons_of_ne_nil nonempty
  by_contra present
  have above : fs.node (root ++ [first]) ≠ none := by
    cases rest with
    | nil => exact present
    | cons second others =>
      rw [fs.directory_of_append (List.cons_ne_nil second others) (by simpa using present)]
      exact Option.some_ne_none _
  exact above (empty.entries first)

theorem isPlainRoot (empty : IsEmptyRoot fs root) : IsPlainRoot fs root := by
  refine ⟨empty.directory, ?_⟩
  rintro location ⟨names, rfl⟩ ⟨target, found⟩
  by_cases nonempty : names = []
  · rw [nonempty, List.append_nil, empty.directory] at found
    cases found
  · rw [empty.node_below nonempty] at found
    cases found

/-- Nothing is in the way of an entry. -/
theorem destination_eq (empty : IsEmptyRoot fs root) (valid : root.IsValid)
    (anchored : planner.destinationRoot = root.toPath)
    (step : WriteStep fold fs.probe resolver planner after entry plan) {names : List Text}
    (member : IsMemberPath plan.normalizedArchivePath names) :
    plan.destinationPath = Location.toPath (root ++ names) := by
  have natural := naturalDestination_eq (anchored ▸ valid.isCanonical) member
  rw [anchored, ← Location.toPath_append] at natural
  have missing : ∀ fileType, fs.probe.symlinkMetadata (Location.toPath (root ++ names)) ≠
      .ok fileType := by
    intro fileType found
    obtain ⟨front, last, rfl⟩ := List.eq_nil_or_concat' names |>.resolve_left member.ne_nil
    have reported := FileSystem.lstat_of_probe found
    rw [← List.append_assoc] at reported
    have plain : IsPlainBelow fs (root ++ front) := by
      refine empty.isPlainRoot.plainRoot.extend fun above _ nonempty => ?_
      rintro ⟨target, symlink⟩
      rw [empty.node_below nonempty] at symlink
      cases symlink
    obtain ⟨object, present, -⟩ := fs.lstat_toPath plain reported
    rw [List.append_assoc, empty.node_below (by simp)] at present
    cases present
  have choice := step.destination
  rw [natural] at choice
  generalize plan.destinationPath = destination at choice ⊢
  generalize plan.replaceExisting = replaceExisting at choice
  cases choice with
  | absent error probed isAbsent => rfl
  | kept probed directory different => exact absurd probed (missing _)
  | replaced fileType probed replacing => exact absurd probed (missing _)
  | answered fileType probed asking conflict asked => exact absurd probed (missing _)
  | renamed fileType _ resumeIndex probed chosen conflict searched =>
    exact absurd probed (missing _)

end IsEmptyRoot

/-- A decision of a run comes from one of its calls. -/
theorem mem_writesOf {write : Write} :
    write ∈ writesOf calls ↔ ∃ made ∈ calls, made.plan? = some write.2 ∧
      made.request.entry = write.1 := by
  unfold writesOf Call.write?
  rw [List.mem_filterMap]
  refine exists_congr fun made => and_congr_right fun _ => ?_
  rw [Option.map_eq_some_iff]
  constructor
  · rintro ⟨plan, planned, rfl⟩
    exact ⟨planned, rfl⟩
  · rintro ⟨planned, same⟩
    exact ⟨_, planned, by rw [same]⟩

/-- **Plan-ahead symlink safety.** Below an empty root, whatever the policy and
the resolver, a plan in which no decision leaves an earlier symlink behind under
its own collision key is materialized without writing through a symlink. -/
theorem planAhead_never_writes_through_symlink (fold : CaseFolding)
    (resolver : Option OverwriteResolver) (payload : ExtractionEntry → Content)
    (fs : FileSystem Content) (root : Location) (valid : root.IsValid)
    (empty : IsEmptyRoot fs root) (policy : ExtractionPolicy) (entries : List ExtractionEntry)
    (unredirected : (writesOf (run fold resolver (new root.toPath policy)
      (planAhead fs.probe entries))).Pairwise
        fun earlier later => ¬ LeavesRedirect fold earlier later) :
    NeverWritesThroughSymlink payload root fs
      (writesOf (run fold resolver (new root.toPath policy) (planAhead fs.probe entries))) := by
  have anchored := new_destinationRoot valid.isCanonical policy
  have placed : ∀ write ∈ writesOf (run fold resolver (new root.toPath policy)
      (planAhead fs.probe entries)), ∃ names, IsMemberPath write.2.normalizedArchivePath names ∧
        write.2.destinationPath = Location.toPath (root ++ names) := by
    intro write member
    obtain ⟨made, inside, planned, -⟩ := mem_writesOf.mp member
    have step := (isOutcome_of_mem_run inside).writeStep planned
    have snapshot : made.request.probe = fs.probe := by
      obtain ⟨_, -, same⟩ := List.mem_map.mp (request_mem_of_mem_run inside)
      rw [← same]
    rw [snapshot] at step
    obtain ⟨names, named⟩ := selectMember_isMemberPath step.member
    exact ⟨names, named, empty.destination_eq valid
      (run_destinationRoot valid.isCanonical inside) step named⟩
  refine Tracks.planAhead valid (empty.isPlainRoot.tracks anchored) ?_
  refine unredirected.imp_of_mem fun {earlier later} member member' unleft => ?_
  rintro ⟨symlink, notSymlink, sameKey, forgets⟩
  obtain ⟨names, named, destination⟩ := placed earlier member
  obtain ⟨names', named', destination'⟩ := placed later member'
  refine unleft ⟨symlink, notSymlink, ?_, forgets.imp_right fun different same => different ?_⟩
  · rw [destination, destination', Location.toPath_append, Location.toPath_append] at sameKey
    rw [named.text, named'.text]
    exact pathKey_ofNames_inj valid.isCanonical named.ne_nil named'.ne_nil sameKey
  · rw [destination, destination', ← named.splitOn_eq, ← named'.splitOn_eq, same]

instance (fold : CaseFolding) (earlier later : Write) :
    Decidable (LeavesRedirect fold earlier later) :=
  inferInstanceAs (Decidable (_ ∧ _ ∧ _ ∧ _))

instance (fold : CaseFolding) (earlier later : Write) :
    Decidable (ForgetsSymlink fold earlier later) :=
  inferInstanceAs (Decidable (_ ∧ _ ∧ _ ∧ _))

theorem outDisk_isEmptyRoot : IsEmptyRoot (outDisk []) ["out".toList] :=
  ⟨by decide +kernel, fun _ => rfl⟩

/-- A symlink replaced by a file of the same name leaves nothing behind. -/
theorem planAhead_replaced_symlink :
    NeverWritesThroughSymlink ExtractionEntry.archivePath ["out".toList] (outDisk [])
      (writesOf (run .ascii none (new (Location.toPath ["out".toList]) { overwrite := .replace })
        (planAhead (outDisk []).probe
          [⟨"a".toList, .symlink ".".toList, none, none⟩, ⟨"a".toList, .file, none, none⟩,
            ⟨"b/c".toList, .file, none, none⟩]))) :=
  planAhead_never_writes_through_symlink .ascii none ExtractionEntry.archivePath (outDisk [])
    ["out".toList] out_isValid outDisk_isEmptyRoot { overwrite := .replace } _ (by decide +kernel)

/-- A directory entry under the name of a planned symlink makes the planner
forget the symlink, which stays on the disk and redirects `a/b`. -/
theorem planAhead_writes_through_symlink :
    ¬ NeverWritesThroughSymlink ExtractionEntry.archivePath ["out".toList] (outDisk [])
      (writesOf (run .ascii none (new (Location.toPath ["out".toList]) { overwrite := .replace })
        (planAhead (outDisk []).probe
          [⟨"a".toList, .symlink ".".toList, none, none⟩, ⟨"a".toList, .directory, none, none⟩,
            ⟨"a/b".toList, .file, none, none⟩]))) := by
  intro safe
  have redirect : ((materializeAll ExtractionEntry.archivePath (outDisk [])
      [(⟨"a".toList, .symlink ".".toList, none, none⟩,
          ⟨"a".toList, Location.toPath ["out".toList, "a".toList], none, true⟩),
        (⟨"a".toList, .directory, none, none⟩,
          ⟨"a".toList, Location.toPath ["out".toList, "a".toList], none, false⟩)]).toOption.bind
      fun reached => reached.node ["out".toList, "a".toList]) =
        some (.symlink ".".toList) := by
    decide +kernel
  obtain ⟨reached, materialized, found⟩ := Option.bind_eq_some_iff.mp redirect
  refine safe _ (⟨"a/b".toList, .file, none, none⟩,
      ⟨"a/b".toList, Location.toPath ["out".toList, "a".toList, "b".toList], none, true⟩) []
    (by decide +kernel) reached (Except.toOption_eq_some.mp materialized)
    ["out".toList, "a".toList] (by decide +kernel) (by decide) (by decide +kernel)
    (by decide +kernel) ⟨_, found⟩

end ZManager
