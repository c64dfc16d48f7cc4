import ZManager.Safety.Containment

/-! # Writes that replace nothing

A write decision without `replace_existing` promises a free name. The planner
looks for a conflict with `symlink_metadata`, but looks for a free sibling with
`Path::exists`, which follows links: a link that leads nowhere is taken for a
free name. `no_clobber_iff` says when the promise holds.
-/

namespace ZManager

/-- Something is at the path, whatever it is. -/
def Probe.Occupied (probe : Probe) (path : PathBuf) : Prop :=
  ∃ fileType, probe.symlinkMetadata path = .ok fileType

instance (probe : Probe) (path : PathBuf) : Decidable (probe.Occupied path) :=
  match held : probe.symlinkMetadata path with
  | .ok fileType => isTrue ⟨fileType, held⟩
  | .error _ => isFalse fun ⟨_, found⟩ => by
      rw [held] at found
      cases found

/-- A path that leads to something has an entry of its own. -/
def Probe.Coherent (probe : Probe) : Prop :=
  ∀ path, probe.pathExists path = true → probe.Occupied path

namespace FileSystem

variable {Content : Type}

/-- A walk that ends passes the directory that holds its last name. -/
theorem walkWith_concat (fs : FileSystem Content)
    {follow : Location → List Component → Except IoErrorKind Location} {current final : Location}
    {front : List Component} {name : Text}
    (splits : ∀ start components, follow start (components ++ [Component.normal name]) = .ok final →
      ∃ middle, follow start components = .ok middle ∧ fs.node middle = some .directory ∧
        fs.node (middle ++ [name]) ≠ none)
    (reached : fs.walkWith follow current (front ++ [Component.normal name]) = .ok final) :
    ∃ middle, fs.walkWith follow current front = .ok middle ∧
      fs.node middle = some .directory ∧ fs.node (middle ++ [name]) ≠ none := by
  induction front generalizing current with
  | nil =>
    rw [List.nil_append] at reached
    unfold walkWith at reached
    split_ifs at reached with inside
    refine ⟨current, rfl, inside, ?_⟩
    intro absent
    simp [absent] at reached
  | cons component rest ih =>
    rw [List.cons_append] at reached
    unfold walkWith at reached ⊢
    split_ifs at reached ⊢ with inside
    cases component with
    | rootDir => exact ih reached
    | curDir => exact ih reached
    | parentDir => exact ih reached
    | normal part =>
      dsimp only at reached ⊢
      cases object : fs.node (current ++ [part]) with
      | none =>
        rw [object] at reached
        cases reached
      | some found =>
        rw [object] at reached
        cases found with
        | symlink target =>
          apply splits
          rw [List.append_assoc]
          exact reached
        | file content => exact ih reached
        | directory => exact ih reached

theorem walk_concat (fs : FileSystem Content) {budget : Nat} {current final : Location}
    {front : List Component} {name : Text}
    (reached : fs.walk budget current (front ++ [Component.normal name]) = .ok final) :
    ∃ middle, fs.walk budget current front = .ok middle ∧ fs.node middle = some .directory ∧
      fs.node (middle ++ [name]) ≠ none := by
  induction budget generalizing current front with
  | zero =>
    apply fs.walkWith_concat ?_ reached
    intro _ _ looped
    cases looped
  | succ budget ih => exact fs.walkWith_concat (fun _ _ finished => ih finished) reached

theorem probe_coherent (fs : FileSystem Content) : fs.probe.Coherent := by
  intro path leads
  change (fs.resolve path).isOk = true at leads
  change ∃ fileType, (fs.lstat path).mapError IoErrorKind.toIoError = .ok fileType
  cases resolved : fs.resolve path with
  | error failure => simp [resolved, Except.isOk, Except.toBool] at leads
  | ok final =>
    have found : ∃ fileType, fs.lstat path = .ok fileType := by
      unfold lstat
      rcases List.eq_nil_or_concat path with rfl | ⟨front, last, rfl⟩
      · exact ⟨.directory, by rw [resolved]; rfl⟩
      · rw [List.concat_eq_append] at resolved ⊢
        rw [List.getLast?_concat]
        cases last with
        | normal name =>
          obtain ⟨middle, reached, inside, present⟩ := fs.walk_concat resolved
          have located : fs.locate (front ++ [Component.normal name]) = .ok (middle, name) := by
            unfold locate resolve
            rw [List.getLast?_concat, List.dropLast_concat, reached]
            exact if_pos inside
          dsimp only
          rw [located]
          obtain ⟨object, here⟩ := Option.ne_none_iff_exists'.mp present
          exact ⟨object.fileType, by simp [bind, Except.bind, here]⟩
        | rootDir => exact ⟨.directory, by rw [resolved]; rfl⟩
        | curDir => exact ⟨.directory, by rw [resolved]; rfl⟩
        | parentDir => exact ⟨.directory, by rw [resolved]; rfl⟩
    obtain ⟨fileType, found⟩ := found
    exact ⟨fileType, by rw [found]; rfl⟩

end FileSystem

namespace Planner

/-! ## The search for a free name -/

/-- The names a search goes through, the natural one first. -/
def renameTries (natural : PathBuf) (startIndex candidateBudget : Nat) : List PathBuf :=
  natural :: (List.range' startIndex (candidateBudget + 2 - startIndex)).map
    (renameCandidate natural)

/-- Every taken name that the search passes before the first free one leads to something:
no link there leads nowhere. -/
def PassesNoDeadLink (probe : Probe) (planner : Planner) (natural : PathBuf) : Prop :=
  ∀ path ∈ (renameTries natural ((planner.nextRenameIndex natural).getD firstRenameIndex)
    maxRenameCandidates).takeWhile fun path => decide (probe.Occupied path),
      probe.pathExists path = true

instance (probe : Probe) (planner : Planner) (natural : PathBuf) :
    Decidable (PassesNoDeadLink probe planner natural) :=
  inferInstanceAs (Decidable (∀ path ∈ List.takeWhile _ _, _))

variable {probe : Probe}

theorem find?_of_nextAvailableDestinationPathFrom {natural found : PathBuf}
    {startIndex candidateBudget resumeIndex : Nat}
    (searched : nextAvailableDestinationPathFrom probe natural startIndex candidateBudget =
      some (found, resumeIndex)) :
    (renameTries natural startIndex candidateBudget).find? (fun path => !probe.pathExists path) =
      some found := by
  unfold nextAvailableDestinationPathFrom at searched
  unfold renameTries
  rw [List.find?_cons]
  split_ifs at searched with leads
  · rw [leads, List.find?_map]
    obtain ⟨index, first, same⟩ := Option.map_eq_some_iff.mp searched
    cases same
    exact Option.map_eq_some_iff.mpr ⟨index, first, rfl⟩
  · cases searched
    simp [leads]

/-- The first name that leads nowhere is free exactly when no name before the first free one
leads nowhere. -/
theorem not_occupied_iff_of_find? (coherent : probe.Coherent) {tries : List PathBuf}
    {found : PathBuf}
    (first : tries.find? (fun path => !probe.pathExists path) = some found) :
    ¬ probe.Occupied found ↔ ∀ path ∈ tries.takeWhile fun path => decide (probe.Occupied path),
      probe.pathExists path = true := by
  induction tries with
  | nil => cases first
  | cons path rest ih =>
    rw [List.find?_cons] at first
    cases leads : probe.pathExists path with
    | true =>
      rw [leads] at first
      rw [ih first]
      simp [coherent path leads, leads]
    | false =>
      rw [leads] at first
      have same : path = found := Option.some.inj first
      subst same
      by_cases taken : probe.Occupied path
      · simp [taken, leads]
      · simp [taken]

/-- **No clobber.** A write that replaces nothing, of an entry that is no directory, has a
free destination exactly when the search for it passes no link that leads nowhere. -/
theorem no_clobber_iff (fold : CaseFolding) (resolver : Option OverwriteResolver)
    (planner : Planner) (probe : Probe) (coherent : probe.Coherent) (entry : ExtractionEntry)
    (plan : PlannedWrite) (planned : (call fold resolver planner ⟨probe, entry⟩).plan? = some plan)
    (keeps : plan.replaceExisting = false) (plain : entry.kind.isDirectory = false) :
    ¬ probe.Occupied plan.destinationPath ↔ ∀ name, selectMember planner entry = .ok (.inr name) →
      PassesNoDeadLink probe planner (planner.naturalDestination name) := by
  have step : WriteStep fold probe resolver planner _ entry plan :=
    (call_isOutcome planner ⟨probe, entry⟩).writeStep planned
  have onlyName : (∀ name, selectMember planner entry = .ok (.inr name) →
      PassesNoDeadLink probe planner (planner.naturalDestination name)) ↔
        PassesNoDeadLink probe planner (planner.naturalDestination plan.normalizedArchivePath) := by
    constructor
    · intro all
      exact all _ step.member
    · intro one name selected
      rw [step.member] at selected
      cases selected
      exact one
  rw [onlyName]
  have free : ∀ natural, (∃ error, probe.symlinkMetadata natural = .error error) →
      ¬ probe.Occupied natural ∧ PassesNoDeadLink probe planner natural := by
    rintro natural ⟨error, probed⟩
    have absent : ¬ probe.Occupied natural := by
      rintro ⟨fileType, found⟩
      rw [probed] at found
      cases found
    exact ⟨absent, by simp [PassesNoDeadLink, renameTries, absent]⟩
  have choice := step.destination
  generalize planner.naturalDestination plan.normalizedArchivePath = natural at choice ⊢
  generalize placed : plan.destinationPath = destination at choice ⊢
  generalize replaced : plan.replaceExisting = replaceExisting at choice
  rw [keeps] at replaced
  cases choice with
  | absent error probed isAbsent =>
    obtain ⟨here, passes⟩ := free natural ⟨error, probed⟩
    exact iff_of_true here passes
  | kept probed directory policy =>
    rw [plain] at directory
    cases directory
  | replaced fileType probed policy => simp [plain] at replaced
  | answered fileType probed policy conflict asked => cases replaced
  | renamed fileType candidate resumeIndex probed policy conflict searched =>
    exact not_occupied_iff_of_find? coherent (find?_of_nextAvailableDestinationPathFrom searched)

/-- With a file in the way, the renamed destination is free. -/
theorem renamed_destination_free :
    ¬ (outDisk [(["out".toList, "f".toList], .file [])]).probe.Occupied
      (outRoot ++ PathBuf.ofNames ["f 2".toList]) :=
  (no_clobber_iff .ascii none (new outRoot { overwrite := .rename })
    (outDisk [(["out".toList, "f".toList], .file [])]).probe (FileSystem.probe_coherent _)
    ⟨"f".toList, .file, none, none⟩
    ⟨"f".toList, outRoot ++ PathBuf.ofNames ["f 2".toList], none, false⟩
    (by decide +kernel) rfl rfl).mpr fun name selected => by
      have member : selectMember (new outRoot { overwrite := .rename })
          ⟨"f".toList, .file, none, none⟩ = .ok (.inr "f".toList) := by decide +kernel
      obtain rfl : "f".toList = name := Sum.inr.inj (Except.ok.inj (member.symm.trans selected))
      decide +kernel

/-- With a dead link in the way, the planner returns the place of the link itself. -/
theorem dead_link_taken_for_free_name :
    let probe := (outDisk [(["out".toList, "f".toList], .symlink "missing".toList)]).probe
    (call .ascii none (new outRoot { overwrite := .rename })
      ⟨probe, ⟨"f".toList, .file, none, none⟩⟩).plan? =
        some ⟨"f".toList, outRoot ++ PathBuf.ofNames ["f".toList], none, false⟩ ∧
      probe.Occupied (outRoot ++ PathBuf.ofNames ["f".toList]) := by
  refine ⟨by decide +kernel, by decide +kernel⟩

end Planner

end ZManager
