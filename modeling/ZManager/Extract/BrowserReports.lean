import ZManager.Extract.Browser
import ZManager.Extract.PlanAhead
import ZManager.Foundation.FileMove

/-! # What browser extraction reports

A report is right where the real destination is the one that the listed path, or the
selector, spells: components were not stripped, the entry was not renamed, and on Unix the
listed path has no backslash. Bytes are right where the listing knows them.
-/

namespace ZManager

open Planner

variable {rawPath path : Text} {base : PathBuf}

/-! ## Paths that are joined -/

/-- The names of an accepted path are its components. -/
theorem isMemberPath_pathComponents (accepted : normalizeArchivePath rawPath = .ok path) :
    IsMemberPath path (pathComponents rawPath) := by
  obtain ⟨names, member, plain⟩ := normalizeArchivePath_plain accepted
  have fromNames : pathComponents path = names := by
    rw [member.text]
    exact pathComponents_joined fun name inside => ⟨(plain name inside).ne_nil,
      (plain name inside).ne_dot, (plain name inside).no_slash, (plain name inside).no_backslash⟩
  have fromRaw : pathComponents path = pathComponents rawPath := by
    rw [normalizeArchivePath_eq accepted]
    exact pathComponents_joined fun name inside => mem_pathComponents inside
  rw [← fromRaw, fromNames]
  exact member

theorem isAbsoluteText_of_accepted (accepted : normalizeArchivePath rawPath = .ok path) :
    PathBuf.isAbsoluteText rawPath = false := by
  obtain ⟨_, hazards, -⟩ := Except.bind_eq_ok_iff.mp accepted
  unfold rejectRawPathHazards at hazards
  split_ifs at hazards with _ _ slash
  unfold PathBuf.isAbsoluteText
  rw [beq_eq_false_iff_ne]
  intro first
  apply slash
  unfold replaceBackslash
  rw [List.head?_map, first]
  rfl

/-- What a text appends to a path, when its kept parts are names. -/
theorem relativeComponents_eq {text : Text} (names : ∀ name ∈ keptParts text, IsEntryName name) :
    PathBuf.relativeComponents text = PathBuf.ofNames (keptParts text) := by
  rw [← filterMap_segmentComponent names]
  unfold PathBuf.relativeComponents keptParts
  rw [List.filterMap_filter]
  refine List.filterMap_congr fun segment _ => ?_
  unfold PathBuf.segmentComponent
  split_ifs <;> simp_all

theorem join_of_relative (some : base ≠ []) {text : Text}
    (relative : PathBuf.isAbsoluteText text = false) :
    base.join text = base ++ PathBuf.relativeComponents text := by
  unfold PathBuf.join
  rw [if_neg]
  rintro (absolute | empty)
  · rw [relative] at absolute
    cases absolute
  · exact some empty

theorem trimSlashes_relative (text : Text) :
    PathBuf.isAbsoluteText (trimSlashes text) = false := by
  obtain ⟨slashes, whole, -⟩ := exists_trimEndSlashes (text.dropWhile (· == '/'))
  have first : (text.dropWhile (· == '/')).head? ≠ some '/' := by
    intro slash
    have stopped := List.head?_dropWhile_not (· == '/') text
    rw [slash] at stopped
    exact absurd stopped (by decide)
  unfold PathBuf.isAbsoluteText
  rw [beq_eq_false_iff_ne]
  intro slash
  apply first
  rw [whole, List.head?_append]
  change ((trimSlashes text).head?.or _) = _
  rw [slash]
  rfl

theorem keptParts_trimSlashes (text : Text) : keptParts (trimSlashes text) = keptParts text := by
  unfold trimSlashes
  rw [keptParts_trimEndSlashes, keptParts_dropWhile]

/-- A path is spelled by its selector, whatever the separators are. -/
theorem join_selector (some : base ≠ []) (names : ∀ name ∈ pathComponents path, IsEntryName name) :
    base.join (trimSlashes (replaceBackslash path)) =
      base ++ PathBuf.ofNames (pathComponents path) := by
  have kept : keptParts (trimSlashes (replaceBackslash path)) = pathComponents path :=
    keptParts_trimSlashes _
  rw [join_of_relative some (trimSlashes_relative _), relativeComponents_eq (by rwa [kept]), kept]

/-- A path without backslashes is spelled by itself. -/
theorem join_accepted (some : base ≠ []) (accepted : normalizeArchivePath rawPath = .ok path)
    (plain : '\\' ∉ rawPath) :
    base.join rawPath = base ++ PathBuf.ofNames (pathComponents rawPath) := by
  have member := isMemberPath_pathComponents accepted
  have kept : keptParts rawPath = pathComponents rawPath := by
    unfold pathComponents
    rw [replaceBackslash_of_plain plain]
  rw [join_of_relative some (isAbsoluteText_of_accepted accepted),
    relativeComponents_eq (by rw [kept]; exact member.valid), kept]

/-- A backslash stays in a path that is joined. -/
theorem exists_backslash_component (some : base ≠ [])
    (accepted : normalizeArchivePath rawPath = .ok path) (backslash : '\\' ∈ rawPath) :
    ∃ rest name, base.join rawPath = base ++ rest ∧ .normal name ∈ rest ∧ '\\' ∈ name := by
  have whole : ['/'].intercalate (rawPath.splitOn '/') = rawPath := List.intercalate_splitOn '/'
  rw [← whole] at backslash
  obtain slash | ⟨name, segment, inside⟩ := Text.mem_intercalate backslash
  · exact absurd slash (by decide)
  refine ⟨_, name, join_of_relative some (isAbsoluteText_of_accepted accepted), ?_, inside⟩
  refine List.mem_filterMap.mpr ⟨name, segment, ?_⟩
  unfold PathBuf.segmentComponent
  rw [if_neg, if_neg]
  · rintro rfl
    revert inside
    decide
  · rintro (rfl | rfl)
    · cases inside
    · revert inside
      decide

/-! ## Numbered siblings -/

theorem mem_renamedFileName {name : Text} {index : Nat} {char : Char}
    (member : char ∈ renamedFileName name index) :
    char ∈ name ∨ char = ' ' ∨ char = '.' ∨ char.isDigit = true := by
  have digits : ∀ char ∈ Nat.toDigits 10 index, char.isDigit = true :=
    fun _ inside => Text.isDigit_of_mem_decimal inside
  unfold renamedFileName at member
  split at member
  next stem suffix split =>
    rcases stemAndExtension_spec split with ⟨absent, -⟩ | ⟨_, same, whole, -⟩
    · cases absent
    · cases same
      rw [whole]
      simp only [List.mem_append, List.mem_cons] at member ⊢
      rcases member with (inside | blank | digit) | dot | inside
      · exact .inl (.inl inside)
      · exact .inr (.inl blank)
      · exact .inr (.inr (.inr (digits char digit)))
      · exact .inr (.inr (.inl dot))
      · exact .inl (.inr (.inr inside))
  next stem split =>
    rcases stemAndExtension_spec split with ⟨-, rfl⟩ | ⟨_, absent, -⟩
    · simp only [List.mem_append, List.mem_cons] at member
      rcases member with inside | blank | digit
      · exact .inl inside
      · exact .inr (.inl blank)
      · exact .inr (.inr (.inr (digits char digit)))
    · cases absent

/-! ## The object that a decision makes -/

section

variable {Content : Type} {fs changed : FileSystem Content}

/-- `create_dir_all` along a plain way makes something, or finds it. -/
theorem createDirAll_present {front : Location} {last : Text} (plain : IsPlainBelow fs front)
    (finished : fs.createDirAll (Location.toPath (front ++ [last])) = .ok changed) :
    changed.node (front ++ [last]) ≠ none := by
  by_cases absent : fs.node (front ++ [last]) = none
  · have whole : IsPlainBelow fs (front ++ [last]) := by
      intro above inside
      rcases List.prefix_concat_iff.mp inside with rfl | shorter
      · rintro ⟨target, found⟩
        rw [absent] at found
        cases found
      · exact plain above shorter
    rw [(FileSystem.createDirAll_way whole finished).2]
    exact Option.some_ne_none _
  · rcases fs.createDirAll_ok finished (front ++ [last]) with same | ⟨-, added⟩
    · rwa [same]
    · rw [added]
      exact Option.some_ne_none _

/-- A materialized decision leaves an object at its destination. -/
theorem materialize_present {payload : ExtractionEntry → Content} {write : Write}
    {front : Location} {last : Text}
    (destination : write.2.destinationPath = Location.toPath (front ++ [last]))
    (plain : IsPlainBelow fs front)
    (source : ∀ path, write.2.linkTargetPath = some path → ∃ sourceFront sourceLast,
      path = Location.toPath (sourceFront ++ [sourceLast]) ∧ IsPlainBelow fs sourceFront)
    (finished : materialize payload fs write = .ok changed) :
    changed.node (front ++ [last]) ≠ none := by
  have made : ∀ {node : Location → Option (Node Content)} {object : Node Content},
      changed.node = Function.update node (front ++ [last]) (some object) →
        changed.node (front ++ [last]) ≠ none := by
    intro node object updated
    rw [updated, Function.update_self]
    exact Option.some_ne_none _
  unfold materialize at finished
  split at finished
  · obtain ⟨prepared, ensured, finished⟩ := Except.bind_eq_ok_iff.mp finished
    obtain ⟨cleared, clearing, finished⟩ := Except.bind_eq_ok_iff.mp finished
    have keeps := (ensureParentDir_keeps ensured).trans (clearDestination_keeps clearing)
    rw [destination] at finished
    exact made (create_node (plain.mono keeps) finished)
  · obtain ⟨cleared, clearing, finished⟩ := Except.bind_eq_ok_iff.mp finished
    rw [destination] at finished
    exact createDirAll_present (plain.mono (clearDestination_keeps clearing)) finished
  · obtain ⟨cleared, clearing, finished⟩ := Except.bind_eq_ok_iff.mp finished
    obtain ⟨prepared, ensured, finished⟩ := Except.bind_eq_ok_iff.mp finished
    have keeps := (clearDestination_keeps clearing).trans (ensureParentDir_keeps ensured)
    unfold FileSystem.createSymlink at finished
    split_ifs at finished
    rw [destination] at finished
    exact made (create_node (plain.mono keeps) finished)
  · split at finished
    · cases finished
    · rename_i path linked
      obtain ⟨sourceFront, sourceLast, rfl, sourcePlain⟩ := source path linked
      obtain ⟨cleared, clearing, finished⟩ := Except.bind_eq_ok_iff.mp finished
      obtain ⟨prepared, ensured, finished⟩ := Except.bind_eq_ok_iff.mp finished
      have keeps := (clearDestination_keeps clearing).trans (ensureParentDir_keeps ensured)
      rw [destination] at finished
      obtain ⟨object, -, updated⟩ := hardLink_node (plain.mono keeps)
        (sourcePlain.mono keeps) finished
      exact made updated
  · cases finished
  · cases finished

/-- What is there is seen under its own path. -/
theorem FileSystem.lstat_of_present (fs : FileSystem Content) {location : Location}
    (present : fs.node location ≠ none) :
    ∃ fileType, fs.lstat location.toPath = .ok fileType := by
  rcases List.eq_nil_or_concat' location with rfl | ⟨front, last, rfl⟩
  · have walked : fs.resolve [.rootDir] = .ok [] := by
      change fs.walkWith _ [] [.rootDir] = _
      unfold walkWith
      rw [if_pos fs.root]
      rfl
    refine ⟨.directory, ?_⟩
    change (fs.resolve [.rootDir]).map _ = _
    rw [walked]
    rfl
  · obtain ⟨object, found⟩ := Option.ne_none_iff_exists'.mp present
    exact ⟨object.fileType, fs.lstat_of_node found⟩

/-- An object is there with all that is above it. -/
theorem FileSystem.present_of_append (fs : FileSystem Content) {location rest : Location}
    (present : fs.node (location ++ rest) ≠ none) : fs.node location ≠ none := by
  by_cases empty : rest = []
  · rwa [empty, List.append_nil] at present
  · rw [fs.directory_of_append empty present]
    exact Option.some_ne_none _

end

namespace Browser

/-! ## What one entry comes to -/

/-- The settings of the planner of an extraction. -/
structure IsSettled (root : PathBuf) (options : BrowserExtractOptions) (planner : Planner) :
    Prop where
  canonical : IsCanonical root
  destinationRoot : planner.destinationRoot = root
  policy : planner.policy = extractionPolicy options
  compiledIncludes : planner.compiledIncludes = []
  compiledExcludes : planner.compiledExcludes = []

theorem IsSettled.new {root : PathBuf} (canonical : IsCanonical root)
    (options : BrowserExtractOptions) :
    IsSettled root options (Planner.new root (extractionPolicy options)) :=
  ⟨canonical, new_destinationRoot canonical _, rfl, rfl, rfl⟩

theorem IsSettled.step {root : PathBuf} {options : BrowserExtractOptions}
    {before after : Planner} (settled : IsSettled root options before)
    (same : SameSettings before after) : IsSettled root options after :=
  ⟨settled.canonical, same.destinationRoot.trans settled.destinationRoot,
    same.policy.trans settled.policy, same.compiledIncludes.trans settled.compiledIncludes,
    same.compiledExcludes.trans settled.compiledExcludes⟩

/-- An entry that the options take out: all its components are stripped, or it is a symlink to
be ignored. -/
def EngineEntry.IsSkipped (entry : EngineEntry) (options : BrowserExtractOptions) : Prop :=
  (pathComponents entry.path).length ≤ options.stripComponents ∨
    options.ignoreSymlinks = true ∧ entry.kind.isSymlink = true

/-- The destination of an entry is taken, so that it is renamed. -/
def EngineEntry.IsRenamed (entry : EngineEntry) (options : BrowserExtractOptions)
    (root : PathBuf) (disk : FileSystem (List UInt8)) : Prop :=
  let natural := root ++ PathBuf.ofNames
    ((pathComponents entry.path).drop options.stripComponents)
  options.overwrite = .rename ∧ isTaken disk.probe natural = true ∧
    ¬ (entry.kind.isDirectory = true ∧ disk.probe.symlinkMetadata natural = .ok .directory)

section

variable {fold : CaseFolding} {root : PathBuf} {options : BrowserExtractOptions}
  {planner after : Planner} {entry : EngineEntry} {plan : PlannedWrite}
  {disk : FileSystem (List UInt8)}

variable {name : Text} {reason : String}

/-- The member of an accepted path, or none of its components is left. -/
theorem selectMember_settled (settled : IsSettled root options planner)
    {selected : (Text × String) ⊕ Text}
    (chosen : selectMember planner entry.safetyEntry = .ok selected) :
    (∃ path, normalizeArchivePath entry.path = .ok path) ∧
      match selected with
      | .inl _ => (pathComponents entry.path).length ≤ options.stripComponents
      | .inr name => options.stripComponents < (pathComponents entry.path).length ∧
          IsMemberPath name ((pathComponents entry.path).drop options.stripComponents) := by
  obtain ⟨path, accepted, chosen⟩ := Except.bind_eq_ok_iff.mp chosen
  have member := isMemberPath_pathComponents accepted
  refine ⟨⟨path, accepted⟩, ?_⟩
  have included : planner.isPathSelected path = true := by
    unfold isPathSelected
    rw [settled.compiledIncludes, settled.compiledExcludes]
    rfl
  have count : planner.policy.stripComponents = options.stripComponents := by
    rw [settled.policy]
    rfl
  rw [if_pos included, count] at chosen
  split_ifs at chosen with stripping
  · cases stripped : stripArchiveComponents path options.stripComponents with
    | none =>
      rw [stripped] at chosen
      cases chosen
      unfold stripArchiveComponents at stripped
      rw [member.splitOn_eq] at stripped
      dsimp only at stripped
      split_ifs at stripped with empty
      exact List.drop_eq_nil_iff.mp empty
    | some name =>
      rw [stripped] at chosen
      cases chosen
      have kept := member.strip stripped
      exact ⟨Nat.lt_of_not_le fun all => kept.ne_nil (List.drop_eq_nil_iff.mpr all), kept⟩
  · cases chosen
    have none := Nat.eq_zero_of_not_pos stripping
    rw [none]
    exact ⟨List.length_pos_iff.mpr member.ne_nil, member⟩

/-- Without a resolver no conflict is skipped. -/
theorem planDestinationWrite_ne_skip {entry : ExtractionEntry} {probe : Probe} {skipped : Text}
    {natural : PathBuf} {link : Option PathBuf}
    (finished : (planDestinationWrite probe none entry name natural link).exec planner =
      (.ok (.skip skipped reason), after)) :
    False := by
  unfold planDestinationWrite at finished
  rw [StepM.exec_bind, StepM.exec_get] at finished
  dsimp only at finished
  split at finished
  · split_ifs at finished
    · cases finished
    · cases finished
  · split at finished
    · split_ifs at finished
      · cases finished
      · cases finished
    · cases finished
    · split_ifs at finished
      · cases finished
      · obtain ⟨_, _, -, finished⟩ := StepM.exec_bind_eq_ok.mp finished
        cases finished
    · split_ifs at finished
      · cases finished
      · obtain ⟨_, _, asked, -⟩ := StepM.exec_bind_eq_ok.mp finished
        cases asked

/-- What is skipped without a resolver is not selected, or a link or special file. -/
theorem validateEntry_skip {entry : ExtractionEntry} {probe : Probe}
    (finished : (validateEntry fold probe none entry).exec planner =
      (.ok (.skip name reason), after)) :
    (∃ skipped, selectMember planner entry = .ok (.inl skipped)) ∨
      ∃ member, selectMember planner entry = .ok (.inr member) ∧
        ∃ reason, planLink fold probe planner entry (planner.naturalDestination member) =
          .ok (.inl reason) := by
  unfold validateEntry at finished
  rw [StepM.exec_bind, StepM.exec_get] at finished
  dsimp only at finished
  obtain ⟨selected, start, lifted, finished⟩ := StepM.exec_bind_eq_ok.mp finished
  rw [StepM.exec_lift] at lifted
  obtain ⟨member, rfl⟩ := Prod.mk.inj lifted
  cases selected with
  | inl skipped => exact .inl ⟨skipped, member⟩
  | inr name =>
    obtain ⟨_, counted, reserved, finished⟩ := StepM.exec_bind_eq_ok.mp finished
    obtain ⟨entries, rfl⟩ := reserveEntry_ok reserved
    rw [StepM.exec_bind, StepM.exec_get] at finished
    dsimp only at finished
    obtain ⟨_, _, lifted, finished⟩ := StepM.exec_bind_eq_ok.mp finished
    rw [StepM.exec_lift] at lifted
    obtain ⟨-, rfl⟩ := Prod.mk.inj lifted
    obtain ⟨linked, _, lifted, finished⟩ := StepM.exec_bind_eq_ok.mp finished
    rw [StepM.exec_lift] at lifted
    obtain ⟨link, rfl⟩ := Prod.mk.inj lifted
    cases linked with
    | inl reason => exact .inr ⟨name, member, reason, link⟩
    | inr linkTargetPath =>
      exfalso
      obtain ⟨_, distinct, -, finished⟩ := StepM.exec_bind_eq_ok.mp finished
      obtain ⟨chosen, placed, choice, finished⟩ := StepM.exec_bind_eq_ok.mp finished
      cases chosen with
      | skip skipped reason => exact planDestinationWrite_ne_skip choice
      | write plan =>
        obtain ⟨_, _, -, finished⟩ := StepM.exec_bind_eq_ok.mp finished
        obtain ⟨_, _, -, finished⟩ := StepM.exec_bind_eq_ok.mp finished
        obtain ⟨_, _, -, finished⟩ := StepM.exec_bind_eq_ok.mp finished
        obtain ⟨_, _, -, finished⟩ := StepM.exec_bind_eq_ok.mp finished
        cases finished

section

variable (settled : IsSettled root options planner)
include settled

theorem isSkipped_of_skip
    (finished : (validateEntry fold disk.probe none entry.safetyEntry).exec planner =
      (.ok (.skip name reason), after)) :
    entry.IsSkipped options := by
  rcases validateEntry_skip finished with ⟨skipped, chosen⟩ | ⟨member, -, reason, link⟩
  · exact .inl (selectMember_settled settled chosen).2
  · unfold planLink at link
    have policy := settled.policy
    cases kind : entry.safetyEntry.kind with
    | symlink target =>
      rw [kind] at link
      dsimp only at link
      split_ifs at link with ignored
      · rw [policy] at ignored
        refine .inr ⟨ignored, ?_⟩
        change entry.safetyEntry.kind.isSymlink = true
        rw [kind]
        rfl
      · obtain ⟨_, -, link⟩ := Except.bind_eq_ok_iff.mp link
        cases link
    | hardlink target =>
      rw [kind] at link
      obtain ⟨_, -, link⟩ := Except.bind_eq_ok_iff.mp link
      cases link
    | file | directory =>
      rw [kind] at link
      cases link
    | device | special =>
      rw [kind, policy] at link
      cases link

section

variable (step : WriteStep fold disk.probe none planner after entry.safetyEntry plan)
include step

theorem not_isSkipped_of_write :
    ¬ entry.IsSkipped options := by
  rintro (all | ⟨ignored, symlink⟩)
  · exact absurd (selectMember_settled settled step.member).2.1 (Nat.not_lt.mpr all)
  · have link := step.link
    unfold planLink at link
    rw [settled.policy] at link
    cases kind : entry.safetyEntry.kind with
    | symlink target =>
      rw [kind] at link
      dsimp only at link
      have ignores : (extractionPolicy options).ignoreSymlinks = true := ignored
      rw [if_pos ignores] at link
      cases link
    | hardlink | file | directory | device | special =>
      change entry.safetyEntry.kind.isSymlink = true at symlink
      rw [kind] at symlink
      cases symlink

/-- A written entry lies below the root, under names without backslashes. -/
theorem destination_cases :
    let left := (pathComponents entry.path).drop options.stripComponents
    (¬ entry.IsRenamed options root disk ∧ plan.destinationPath = root ++ PathBuf.ofNames left) ∨
      entry.IsRenamed options root disk ∧ ∃ front last index, left = front ++ [last] ∧
        plan.destinationPath =
          root ++ PathBuf.ofNames (front ++ [renamedFileName last index]) := by
  intro left
  obtain ⟨-, -, member⟩ := selectMember_settled settled step.member
  have anchored := settled.destinationRoot
  have natural : planner.naturalDestination plan.normalizedArchivePath =
      root ++ PathBuf.ofNames left := by
    rw [naturalDestination_eq (anchored ▸ settled.canonical) member, anchored]
  have policy : planner.policy.overwrite = options.overwrite := by
    rw [settled.policy]
    rfl
  have choice := step.destination
  rw [natural] at choice
  generalize plan.destinationPath = destination at choice ⊢
  generalize plan.replaceExisting = replaceExisting at choice
  cases choice with
  | absent error probed isAbsent =>
    refine .inl ⟨fun renamed => ?_, rfl⟩
    have taken := renamed.2.1
    unfold isTaken at taken
    rw [probed] at taken
    cases taken
  | kept probed directory different =>
    exact .inl ⟨fun renamed => renamed.2.2 ⟨directory, probed⟩, rfl⟩
  | replaced fileType probed replacing =>
    refine .inl ⟨fun renamed => ?_, rfl⟩
    rw [policy, renamed.1] at replacing
    cases replacing
  | answered fileType probed asking conflict asked => cases asked
  | renamed fileType _ resumeIndex probed chosen conflict searched =>
    have byPolicy : options.overwrite = .rename := by
      rcases chosen with byPolicy | ⟨-, asked⟩
      · rw [← policy, byPolicy]
      · cases asked
    have taken : isTaken disk.probe (root ++ PathBuf.ofNames left) =
        disk.probe.pathExists (root ++ PathBuf.ofNames left) := by
      unfold isTaken
      rw [probed]
      rfl
    rcases nextAvailableDestinationPathFrom_ok searched with
      ⟨free, rfl⟩ | ⟨occupied, index, rfl, -⟩
    · refine .inl ⟨fun renamed => ?_, rfl⟩
      have present := renamed.2.1
      rw [taken, free] at present
      cases present
    · obtain ⟨front, last, split⟩ := List.eq_nil_or_concat' left |>.resolve_left member.ne_nil
      have valid : IsEntryName last := member.valid last (by
        change last ∈ left
        rw [split]
        simp)
      refine .inr ⟨⟨byPolicy, taken.trans occupied, fun kept => conflict ⟨kept.1, ?_⟩⟩,
        front, last, index, split, ?_⟩
      · exact Except.ok.inj (probed.symm.trans kept.2)
      · rw [split, renameCandidate_ofNames root valid]

/-- **Where an entry is written**: under its own components, unless some are stripped or it is
renamed. -/
theorem destination_eq_iff :
    plan.destinationPath = root ++ PathBuf.ofNames (pathComponents entry.path) ↔
      options.stripComponents = 0 ∧ ¬ entry.IsRenamed options root disk := by
  obtain ⟨-, fewer, -⟩ := selectMember_settled settled step.member
  have count : ∀ parts, PathBuf.ofNames parts = PathBuf.ofNames (pathComponents entry.path) →
      parts = pathComponents entry.path := fun _ same => ofNames_injective same
  rcases destination_cases settled step with
    ⟨plain, destination⟩ | ⟨renamed, front, last, index, split, destination⟩
  · rw [destination, List.append_cancel_left_eq]
    constructor
    · intro same
      have length := congrArg List.length (count _ same)
      rw [List.length_drop] at length
      exact ⟨by omega, plain⟩
    · rintro ⟨none, -⟩
      rw [none, List.drop_zero]
  · rw [destination, List.append_cancel_left_eq]
    refine iff_of_false (fun same => ?_) fun plain => plain.2 renamed
    have whole := count _ same
    have lengths := congrArg List.length split
    have lengths' := congrArg List.length whole
    rw [List.length_drop] at lengths
    simp only [List.length_append, List.length_singleton] at lengths lengths'
    have none : options.stripComponents = 0 := by omega
    rw [none, List.drop_zero, ← whole] at split
    exact renamedFileName_ne index
      (List.singleton_inj.mp (List.append_cancel_left split))

/-- **The listed path** leads to where its entry is written, unless it has a backslash too. -/
theorem join_path_eq_iff :
    root.join entry.path = plan.destinationPath ↔
      '\\' ∉ entry.path ∧ options.stripComponents = 0 ∧
        ¬ entry.IsRenamed options root disk := by
  obtain ⟨⟨path, accepted⟩, -, -⟩ := selectMember_settled settled step.member
  have some := settled.canonical.ne_nil
  by_cases backslash : '\\' ∈ entry.path
  · refine iff_of_false (fun same => ?_) fun plain => plain.1 backslash
    obtain ⟨rest, name, joined, member, inside⟩ :=
      exists_backslash_component some accepted backslash
    have clean : ∀ part ∈ pathComponents entry.path, '\\' ∉ part :=
      fun part member => (mem_pathComponents member).2.2.2
    rw [joined] at same
    rcases destination_cases settled step with
      ⟨-, destination⟩ | ⟨-, front, last, index, split, destination⟩
    · rw [destination, List.append_cancel_left_eq] at same
      rw [same] at member
      obtain ⟨part, left, found⟩ := List.mem_map.mp member
      rw [← Component.normal.inj found] at inside
      exact clean part (List.mem_of_mem_drop left) inside
    · rw [destination, List.append_cancel_left_eq] at same
      rw [same] at member
      obtain ⟨part, left, found⟩ := List.mem_map.mp member
      rw [← Component.normal.inj found] at inside
      have kept : ∀ part ∈ front ++ [last], '\\' ∉ part := fun part member =>
        clean part (List.mem_of_mem_drop (split ▸ member))
      rcases List.mem_append.mp left with early | final
      · exact kept part (List.mem_append_left _ early) inside
      · rw [List.mem_singleton.mp final] at inside
        rcases mem_renamedFileName inside with old | blank | dot | digit
        · exact kept last (by simp) old
        · exact absurd blank (by decide)
        · exact absurd dot (by decide)
        · exact absurd digit (by decide)
  · rw [join_accepted some accepted backslash, eq_comm, destination_eq_iff settled step]
    exact ⟨fun plain => ⟨backslash, plain⟩, fun plain => plain.2⟩

end

end

end

/-! ## What a run comes to -/

/-- The planner made the decision on the disk it found. -/
def Extraction.IsDone (extraction : Extraction) (fold : CaseFolding) (root : PathBuf)
    (options : BrowserExtractOptions) : Prop :=
  ∃ planner after, IsSettled root options planner ∧
    (validateEntry fold extraction.before.probe none extraction.entry.safetyEntry).exec planner =
      (.ok extraction.decision, after)

section

variable {fold : CaseFolding} {options : BrowserExtractOptions} {state last : StreamState}

variable {entries : List EngineEntry} {extractions : List Extraction}

theorem extractEntry_ok {entry : EngineEntry} {extraction : Extraction}
    (finished : (extractEntry fold entry).exec state = (.ok extraction, last)) :
    extraction.before = state.fs ∧ extraction.entry = entry ∧
      (validateEntry fold state.fs.probe none entry.safetyEntry).exec state.planner =
        (.ok extraction.decision, last.planner) ∧
      match extraction.decision with
      | .write plan => materialize (fun _ => entry.data) state.fs (entry.safetyEntry, plan) =
          .ok last.fs
      | .skip .. => last.fs = state.fs := by
  unfold extractEntry at finished
  rw [StepM.exec_bind, StepM.exec_get] at finished
  dsimp only at finished
  obtain ⟨decision, planned, planning, finished⟩ := StepM.exec_bind_eq_ok.mp finished
  unfold planStreamEntry at planning
  rw [StepM.exec_bind, StepM.exec_get] at planning
  dsimp only at planning
  rw [StepM.exec_bind, StepM.exec_set] at planning
  dsimp only at planning
  rcases outcome : (validateEntry fold state.fs.probe none entry.safetyEntry).exec state.planner
    with ⟨result, after⟩
  rw [outcome] at planning
  cases result with
  | error failure => cases planning
  | ok found =>
    cases planning
    cases decision with
    | skip name reason =>
      obtain ⟨_, skipped, skipping, finished⟩ := StepM.exec_bind_eq_ok.mp finished
      cases skipping
      cases finished
      exact ⟨rfl, rfl, rfl, rfl⟩
    | write plan =>
      obtain ⟨_, written, writing, finished⟩ := StepM.exec_bind_eq_ok.mp finished
      obtain ⟨_, counted, counting, finished⟩ := StepM.exec_bind_eq_ok.mp finished
      cases counting
      cases finished
      unfold changeDisk at writing
      rw [StepM.exec_bind, StepM.exec_get] at writing
      dsimp only at writing
      cases made : materialize (fun _ => entry.data) state.fs (entry.safetyEntry, plan) with
      | error kind =>
        rw [made] at writing
        cases writing
      | ok changed =>
        rw [made] at writing
        cases writing
        exact ⟨rfl, rfl, rfl, made⟩

/-- Each entry is planned once, in order. -/
theorem extractEntries_ok {root : PathBuf} (settled : IsSettled root options state.planner)
    (finished : (extractEntries fold entries).exec state = (.ok extractions, last)) :
    extractions.map Extraction.entry = entries ∧
      ∀ extraction ∈ extractions, extraction.IsDone fold root options := by
  induction entries generalizing state extractions with
  | nil =>
    cases finished
    exact ⟨rfl, fun _ member => absurd member List.not_mem_nil⟩
  | cons entry rest ih =>
    obtain ⟨first, middle, head, finished⟩ := StepM.exec_bind_eq_ok.mp finished
    obtain ⟨others, final, tail, finished⟩ := StepM.exec_bind_eq_ok.mp finished
    cases finished
    obtain ⟨before, same, planned, -⟩ := extractEntry_ok head
    have done : first.IsDone fold root options := by
      refine ⟨state.planner, middle.planner, settled, ?_⟩
      rw [before, same]
      exact planned
    obtain ⟨names, each⟩ :=
      ih (settled.step ((validateEntry_preserves _).of_exec planned)) tail
    refine ⟨by rw [List.map_cons, same, names], ?_⟩
    exact List.forall_mem_cons.mpr ⟨done, each⟩

/-- Where nothing is written the disk stays as it is. -/
theorem extractEntries_unwritten
    (unwritten : ∀ extraction ∈ extractions, ∀ plan, extraction.decision ≠ .write plan)
    (finished : (extractEntries fold entries).exec state = (.ok extractions, last)) :
    last.fs = state.fs := by
  induction entries generalizing state extractions with
  | nil =>
    cases finished
    rfl
  | cons entry rest ih =>
    obtain ⟨first, middle, head, finished⟩ := StepM.exec_bind_eq_ok.mp finished
    obtain ⟨others, final, tail, finished⟩ := StepM.exec_bind_eq_ok.mp finished
    cases finished
    obtain ⟨skipped, later⟩ := List.forall_mem_cons.mp unwritten
    obtain ⟨-, -, -, disk⟩ := extractEntry_ok head
    have unchanged : middle.fs = state.fs := by
      cases decided : first.decision with
      | write plan => exact absurd decided (skipped plan)
      | skip name reason =>
        rw [decided] at disk
        exact disk
    rw [ih later tail, unchanged]

/-- **Where something is written** below a location, and all that is written lies below it, an
object is there at the end. -/
theorem extractEntries_present {root place : Location} (valid : root.IsValid)
    (settled : IsSettled root.toPath options state.planner)
    (plainRoot : IsPlainBelow state.fs root)
    (placed : ∀ extraction ∈ extractions, ∀ plan, extraction.decision = .write plan →
      ∃ below, plan.destinationPath = Location.toPath (root ++ (place ++ below)))
    (finished : (extractEntries fold entries).exec state = (.ok extractions, last))
    (some : state.fs.node (root ++ place) ≠ none ∨
      ∃ extraction ∈ extractions, ∃ plan, extraction.decision = .write plan) :
    last.fs.node (root ++ place) ≠ none := by
  induction entries generalizing state extractions with
  | nil =>
    cases finished
    exact some.resolve_right fun ⟨_, member, _⟩ => absurd member List.not_mem_nil
  | cons entry rest ih =>
    obtain ⟨first, middle, head, finished⟩ := StepM.exec_bind_eq_ok.mp finished
    obtain ⟨others, final, tail, finished⟩ := StepM.exec_bind_eq_ok.mp finished
    cases finished
    obtain ⟨here, later⟩ := List.forall_mem_cons.mp placed
    obtain ⟨-, -, planned, disk⟩ := extractEntry_ok head
    have next := settled.step ((validateEntry_preserves _).of_exec planned)
    cases decided : first.decision with
    | skip name reason =>
      rw [decided] at disk
      refine ih next (disk ▸ plainRoot) later tail ?_
      rw [disk]
      refine some.imp_right ?_
      rintro ⟨extraction, member, plan, written⟩
      rcases List.mem_cons.mp member with rfl | inside
      · rw [decided] at written
        cases written
      · exact ⟨extraction, inside, plan, written⟩
    | write plan =>
      rw [decided] at disk planned
      obtain ⟨below, destination⟩ := here plan decided
      have step := validateEntry_write planned
      have foresees := Foresees.of_probe fold state.planner state.fs
      obtain ⟨names, name, ends⟩ := step.exists_destination valid settled.destinationRoot
      have symlinks := step.symlinkStep valid settled.destinationRoot plainRoot foresees ends
        disk
      have way := step.destination_plain settled.destinationRoot plainRoot foresees ends
      have there : middle.fs.node (root ++ (names ++ [name])) ≠ none := by
        rw [← List.append_assoc] at ends ⊢
        refine materialize_present ends way ?_ disk
        intro path linked
        obtain ⟨sourceNames, sourceLast, rfl⟩ := IsBelow.exists_concat
          (settled.destinationRoot ▸
            step.linkTarget_isBelow (settled.destinationRoot ▸ valid.isCanonical) linked)
        have source := step.source_plain settled.destinationRoot plainRoot foresees linked
        exact ⟨root ++ sourceNames, sourceLast, by rw [List.append_assoc], source.1⟩
      have same := Location.toPath_injective (ends.symm.trans destination)
      rw [same, ← List.append_assoc] at there
      exact ih next (symlinks.plainRoot plainRoot) later tail
        (.inl (middle.fs.present_of_append there))

end

/-! ## The calls of the browser -/

section

variable {fold : CaseFolding} {options : BrowserExtractOptions}
  {disk final : FileSystem (List UInt8)}

variable {extractions : List Extraction}

variable {root : PathBuf} {listing : List EngineEntry}

theorem extractSelectedMany_ok {policy : ExtractionPolicy} {entries : List EngineEntry}
    {batch : StreamReport} (finished : (extractSelectedMany fold root policy entries).exec disk =
      (.ok (extractions, batch), final)) :
    ∃ last, (extractEntries fold entries).exec (.start disk root policy) =
      (.ok extractions, last) ∧ batch = last.report ∧ final = last.fs := by
  unfold extractSelectedMany at finished
  rw [StepM.exec_bind, StepM.exec_get] at finished
  dsimp only at finished
  rcases outcome : (extractEntries fold entries).exec (.start disk root policy) with
    ⟨result, last⟩
  rw [outcome] at finished
  cases result with
  | error failure => cases finished
  | ok found =>
    cases finished
    exact ⟨last, rfl, rfl, rfl⟩

/-- The reports of a batch are those of the entries that were extracted. -/
theorem extractSelectedEntries_ok {entryPaths : List Text} (canonical : IsCanonical root)
    {reports : List (Text × EntryExtractReport)}
    (finished : (extractSelectedEntriesFromEngineHandleWithJob fold listing entryPaths root
      options).exec disk = (.ok (reports, extractions), final)) :
    (∃ diagnostics, reports = extractions.map fun extraction => (extraction.entry.path,
      { destinationPath := root.join extraction.entry.path
        writtenBytes := (extraction.entry.size.getD 0).toNat
        metadataDiagnostics := diagnostics })) ∧
      ∀ extraction ∈ extractions, extraction.IsDone fold root options := by
  unfold extractSelectedEntriesFromEngineHandleWithJob at finished
  dsimp only at finished
  split at finished
  next =>
    cases finished
    exact ⟨⟨[], rfl⟩, fun _ member => absurd member List.not_mem_nil⟩
  next =>
    split at finished
    next => cases finished
    next =>
      split at finished
      next => cases finished
      next =>
        obtain ⟨_, _, -, finished⟩ := StepM.exec_bind_eq_ok.mp finished
        obtain ⟨⟨found, batch⟩, _, extracted, finished⟩ := StepM.exec_bind_eq_ok.mp finished
        cases finished
        obtain ⟨last, done, -, -⟩ := extractSelectedMany_ok extracted
        obtain ⟨names, each⟩ := extractEntries_ok (.new canonical options) done
        refine ⟨⟨batch.warnings, ?_⟩, each⟩
        rw [← names, List.map_map]
        rfl

theorem extractEntryWithOptions_ok {appleArchive : Bool} {entryPath : Text}
    {report : EntryExtractReport}
    (finished : (extractEntryWithOptions fold listing appleArchive entryPath root options).exec
      disk = (.ok (report, extractions), final)) :
    report.destinationPath = root.join (trimSlashes (replaceBackslash entryPath)) ∧
      matchingEntries listing entryPath appleArchive ≠ [] ∧
      ∃ last, (extractEntries fold (matchingEntries listing entryPath appleArchive)).exec
        (.start disk root (extractionPolicy options)) = (.ok extractions, last) ∧
        final = last.fs := by
  unfold extractEntryWithOptions extractEntryViaEngine at finished
  dsimp only at finished
  split_ifs at finished with empty
  · cases finished
  obtain ⟨⟨found, batch⟩, _, extracted, finished⟩ := StepM.exec_bind_eq_ok.mp finished
  cases finished
  obtain ⟨last, done, -, rest⟩ := extractSelectedMany_ok extracted
  exact ⟨rfl, empty, last, done, rest⟩

end

/-! ## Reports that are right -/

/-- A report of a batch names the entry, the path it was written at, and its bytes. -/
def NamesWrite (named : Text × EntryExtractReport) (extraction : Extraction) : Prop :=
  named.1 = extraction.entry.path ∧
    match extraction.decision with
    | .write plan => named.2.destinationPath = plan.destinationPath ∧
        named.2.writtenBytes = extraction.entry.fileBytes
    | .skip .. => named.2.writtenBytes = 0

/-- The report of a selected path is where its entry was written; what else is written lies at
its place below. -/
def EntryExtractReport.LeadsTo (report : EntryExtractReport) (entryPath : Text)
    (extraction : Extraction) : Prop :=
  (pathComponents extraction.entry.path = pathComponents entryPath →
    ∃ plan, extraction.decision = .write plan) ∧
  ∀ plan, extraction.decision = .write plan → ∃ below,
    pathComponents extraction.entry.path = pathComponents entryPath ++ below ∧
    plan.destinationPath = report.destinationPath ++ PathBuf.ofNames below

/-- The listing tells the bytes, and the listed path the destination. -/
def Extraction.IsTold (extraction : Extraction) (options : BrowserExtractOptions)
    (root : PathBuf) : Prop :=
  (extraction.entry.IsSkipped options → extraction.entry.size.getD 0 = 0) ∧
  (¬ extraction.entry.IsSkipped options →
    ('\\' ∉ extraction.entry.path ∧ options.stripComponents = 0 ∧
      ¬ extraction.entry.IsRenamed options root extraction.before) ∧
    (extraction.entry.size.getD 0).toNat = extraction.entry.fileBytes)

/-- The entry goes to its own place, and the selected one is not skipped. -/
def Extraction.IsInPlace (extraction : Extraction) (options : BrowserExtractOptions)
    (root : PathBuf) (entryPath : Text) : Prop :=
  (pathComponents extraction.entry.path = pathComponents entryPath →
    ¬ extraction.entry.IsSkipped options) ∧
  (¬ extraction.entry.IsSkipped options → options.stripComponents = 0 ∧
    ¬ extraction.entry.IsRenamed options root extraction.before)

section

variable {fold : CaseFolding} {options : BrowserExtractOptions} {root : PathBuf}
  {extraction : Extraction}

section

variable (done : extraction.IsDone fold root options)
include done

/-- A decision is a write exactly where the options do not take the entry out. -/
theorem Extraction.IsDone.cases :
    (extraction.entry.IsSkipped options ∧ ∃ name reason, extraction.decision = .skip name reason) ∨
      ¬ extraction.entry.IsSkipped options ∧ ∃ plan, extraction.decision = .write plan ∧
        ∃ planner after, IsSettled root options planner ∧
          WriteStep fold extraction.before.probe none planner after
            extraction.entry.safetyEntry plan := by
  obtain ⟨planner, after, settled, finished⟩ := done
  cases decided : extraction.decision with
  | skip name reason =>
    rw [decided] at finished
    exact .inl ⟨isSkipped_of_skip settled finished, name, reason, rfl⟩
  | write plan =>
    rw [decided] at finished
    have step := validateEntry_write finished
    exact .inr ⟨not_isSkipped_of_write settled step, plan, rfl, planner, after, settled, step⟩

theorem Extraction.IsDone.namesWrite_iff (diagnostics : List String) :
    NamesWrite (extraction.entry.path,
      { destinationPath := root.join extraction.entry.path
        writtenBytes := (extraction.entry.size.getD 0).toNat
        metadataDiagnostics := diagnostics }) extraction ↔ extraction.IsTold options root := by
  unfold NamesWrite Extraction.IsTold
  rcases done.cases with ⟨skipped, name, reason, decided⟩ |
    ⟨unskipped, plan, decided, planner, after, settled, step⟩
  · rw [decided]
    have none : (extraction.entry.size.getD 0).toNat = 0 ↔ extraction.entry.size.getD 0 = 0 := by
      rw [← UInt64.toNat_inj]
      rfl
    constructor
    · rintro ⟨-, zero⟩
      exact ⟨fun _ => none.mp zero, fun unskipped => absurd skipped unskipped⟩
    · rintro ⟨told, -⟩
      exact ⟨rfl, none.mpr (told skipped)⟩
  · rw [decided]
    constructor
    · rintro ⟨-, joined, bytes⟩
      exact ⟨fun skipped => absurd skipped unskipped, fun _ =>
        ⟨(join_path_eq_iff settled step).mp joined, bytes⟩⟩
    · rintro ⟨-, told⟩
      obtain ⟨plain, bytes⟩ := told unskipped
      exact ⟨rfl, (join_path_eq_iff settled step).mpr plain, bytes⟩

/-- What is known of an extracted entry that a path selects. -/
theorem Extraction.IsDone.accepted :
    ∀ name ∈ pathComponents extraction.entry.path, IsEntryName name := by
  obtain ⟨planner, after, settled, finished⟩ := done
  cases decided : extraction.decision with
  | skip name reason =>
    rw [decided] at finished
    rcases validateEntry_skip finished with ⟨skipped, chosen⟩ | ⟨member, chosen, -⟩
    · obtain ⟨path, accepted⟩ := (selectMember_settled settled chosen).1
      exact (isMemberPath_pathComponents accepted).valid
    · obtain ⟨path, accepted⟩ := (selectMember_settled settled chosen).1
      exact (isMemberPath_pathComponents accepted).valid
  | write plan =>
    rw [decided] at finished
    obtain ⟨path, accepted⟩ :=
      (selectMember_settled settled (validateEntry_write finished).member).1
    exact (isMemberPath_pathComponents accepted).valid

theorem Extraction.IsDone.leadsTo_iff {entryPath : Text} {report : EntryExtractReport}
    (selected : pathComponents entryPath <+: pathComponents extraction.entry.path)
    (reported : report.destinationPath = root ++ PathBuf.ofNames (pathComponents entryPath)) :
    report.LeadsTo entryPath extraction ↔ extraction.IsInPlace options root entryPath := by
  unfold EntryExtractReport.LeadsTo Extraction.IsInPlace
  rcases done.cases with ⟨skipped, name, reason, decided⟩ |
    ⟨unskipped, plan, decided, planner, after, settled, step⟩
  · rw [decided]
    constructor
    · rintro ⟨exactly, -⟩
      refine ⟨fun same => ?_, fun unskipped => absurd skipped unskipped⟩
      obtain ⟨plan, written⟩ := exactly same
      cases written
    · rintro ⟨exactly, -⟩
      exact ⟨fun same => absurd skipped (exactly same), fun plan written => by cases written⟩
  · obtain ⟨below, split⟩ := selected
    have place : plan.destinationPath = report.destinationPath ++ PathBuf.ofNames below ↔
        plan.destinationPath = root ++ PathBuf.ofNames (pathComponents extraction.entry.path) := by
      rw [reported, ← split, List.append_assoc]
      unfold PathBuf.ofNames
      rw [List.map_append]
    constructor
    · rintro ⟨-, led⟩
      refine ⟨fun _ => unskipped, fun _ => ?_⟩
      obtain ⟨rest, same, destination⟩ := led plan decided
      rw [← split, List.append_cancel_left_eq] at same
      rw [← same] at destination
      exact (destination_eq_iff settled step).mp (place.mp destination)
    · rintro ⟨-, placed⟩
      refine ⟨fun _ => ⟨plan, decided⟩, fun other written => ?_⟩
      cases decided.symm.trans written
      exact ⟨below, split.symm,
        place.mpr ((destination_eq_iff settled step).mpr (placed unskipped))⟩

end

end

/-! ## Previews -/

section

variable {fold : CaseFolding} {options : BrowserExtractOptions} {listing : List EngineEntry}
  {appleArchive : Bool} {entryPath : Text} {disk final : FileSystem (List UInt8)}

variable {preview : PreviewExtractReport}

theorem previewEntryWithOptions_ok {root : PathBuf}
    (finished : (previewEntryWithOptions fold listing appleArchive entryPath root options).exec
      disk = (.ok preview, final)) :
    ∃ report extractions, (extractEntryWithOptions fold listing appleArchive entryPath root
        { options with overwrite := .replace }).exec disk = (.ok (report, extractions), final) ∧
      preview.previewPath = report.destinationPath := by
  unfold previewEntryWithOptions at finished
  rw [StepM.exec_bind, StepM.exec_get] at finished
  dsimp only at finished
  rcases outcome : (extractEntryWithOptions fold listing appleArchive entryPath root
    { options with overwrite := .replace }).exec disk with ⟨result, reached⟩
  rw [outcome] at finished
  cases result with
  | error failure => cases finished
  | ok found =>
    cases finished
    exact ⟨found.1, found.2, rfl, rfl⟩

/-- What a path selects has its components in front. -/
theorem prefix_of_matching {entry : EngineEntry}
    (member : entry ∈ matchingEntries listing entryPath appleArchive) :
    pathComponents entryPath <+: pathComponents entry.path := by
  have filtered : entry ∈ listing.filter fun entry =>
      archiveEntryMatchesSelected entry.path entryPath := by
    unfold matchingEntries at member
    dsimp only at member
    split_ifs at member
    · exact List.mem_of_mem_take member
    · exact member
  exact archiveEntryMatchesSelected_iff.mp (List.mem_filter.mp filtered).2

/-- The path of a report is spelled by the components of the selector. -/
theorem selected_path {root : PathBuf} (canonical : IsCanonical root)
    {report : EntryExtractReport} {extractions : List Extraction}
    (finished : (extractEntryWithOptions fold listing appleArchive entryPath root options).exec
      disk = (.ok (report, extractions), final)) :
    report.destinationPath = root ++ PathBuf.ofNames (pathComponents entryPath) := by
  obtain ⟨reported, some, last, done, -⟩ := extractEntryWithOptions_ok finished
  obtain ⟨names, each⟩ := extractEntries_ok (.new canonical options) done
  rw [reported]
  refine join_selector canonical.ne_nil fun name inside => ?_
  obtain ⟨entry, member⟩ := List.exists_mem_of_ne_nil _ some
  have front := prefix_of_matching member
  rw [← names] at member
  obtain ⟨extraction, made, rfl⟩ := List.mem_map.mp member
  exact (each extraction made).accepted name (front.subset inside)

/-- **A preview is there** when something is written for it, and nothing is stripped. -/
theorem preview_exists_iff {root : Location} (valid : root.IsValid)
    (empty : IsEmptyRoot disk root)
    (finished : (previewEntryWithOptions fold listing appleArchive entryPath root.toPath
      options).exec disk = (.ok preview, final))
    (unstripped : ∀ entry ∈ matchingEntries listing entryPath appleArchive,
      ¬ entry.IsSkipped options → options.stripComponents = 0) :
    (∃ fileType, final.lstat preview.previewPath = .ok fileType) ↔
      pathComponents entryPath = [] ∨
        ∃ entry ∈ matchingEntries listing entryPath appleArchive, ¬ entry.IsSkipped options := by
  obtain ⟨report, extractions, extracted, located⟩ := previewEntryWithOptions_ok finished
  have path := selected_path valid.isCanonical extracted
  rw [← Location.toPath_append] at path
  rw [located, path]
  obtain ⟨-, -, last, done, rfl⟩ := extractEntryWithOptions_ok extracted
  have settled := IsSettled.new valid.isCanonical { options with overwrite := .replace }
  obtain ⟨names, each⟩ := extractEntries_ok settled done
  by_cases written : ∃ entry ∈ matchingEntries listing entryPath appleArchive,
      ¬ entry.IsSkipped options
  · refine iff_of_true (last.fs.lstat_of_present ?_) (.inr written)
    obtain ⟨entry, member, unskipped⟩ := written
    have unstripped := unstripped entry member unskipped
    have placed : ∀ extraction ∈ extractions, ∀ plan, extraction.decision = .write plan →
        ∃ below, plan.destinationPath =
          Location.toPath (root ++ (pathComponents entryPath ++ below)) := by
      intro extraction made plan decided
      have matching : extraction.entry ∈ matchingEntries listing entryPath appleArchive := by
        rw [← names]
        exact List.mem_map_of_mem made
      obtain ⟨below, split⟩ := prefix_of_matching matching
      obtain ⟨planner, after, settled, planned⟩ := each extraction made
      rw [decided] at planned
      refine ⟨below, ?_⟩
      rw [split, Location.toPath_append]
      refine (destination_eq_iff settled (validateEntry_write planned)).mpr ⟨unstripped, ?_⟩
      exact fun renamed => by cases renamed.1
    refine extractEntries_present valid settled empty.isPlainRoot.plainRoot placed done (.inr ?_)
    rw [← names] at member
    obtain ⟨extraction, made, rfl⟩ := List.mem_map.mp member
    rcases (each extraction made).cases with ⟨skipped, -⟩ | ⟨-, plan, decided, -⟩
    · exact absurd skipped unskipped
    · exact ⟨extraction, made, plan, decided⟩
  · have untouched : last.fs = disk := by
      refine extractEntries_unwritten (fun extraction made plan decided => ?_) done
      rcases (each extraction made).cases with ⟨-, name, reason, skipped⟩ | ⟨unskipped, -⟩
      · rw [skipped] at decided
        cases decided
      · refine written ⟨extraction.entry, ?_, unskipped⟩
        rw [← names]
        exact List.mem_map_of_mem made
    rw [untouched, or_iff_left written]
    constructor
    · rintro ⟨fileType, found⟩
      by_contra some
      obtain ⟨front, name, split⟩ :=
        List.eq_nil_or_concat' (pathComponents entryPath) |>.resolve_left some
      have plain : IsPlainBelow disk (root ++ front) := by
        refine empty.isPlainRoot.plainRoot.extend fun above _ nonempty => ?_
        rintro ⟨target, symlink⟩
        rw [empty.node_below nonempty] at symlink
        cases symlink
      rw [split, ← List.append_assoc] at found
      obtain ⟨object, present, -⟩ := disk.lstat_toPath plain found
      rw [List.append_assoc, ← split, empty.node_below some] at present
      cases present
    · intro all
      rw [all, List.append_nil]
      refine disk.lstat_of_present ?_
      rw [empty.directory]
      exact Option.some_ne_none _

end

/-- **Reports name what is written**, for a selection, for one path and for its preview. -/
theorem reports_name_what_is_written_iff {fold : CaseFolding} {options : BrowserExtractOptions}
    {listing : List EngineEntry} {appleArchive : Bool} {entryPaths : List Text} {entryPath : Text}
    {disk disk' fresh final final' last : FileSystem (List UInt8)} {root root' temp : Location}
    (valid : root.IsValid) (valid' : root'.IsValid) (validTemp : temp.IsValid)
    (empty : IsEmptyRoot fresh temp) {reports : List (Text × EntryExtractReport)}
    {batch singles : List Extraction} {report : EntryExtractReport} {preview : PreviewExtractReport}
    (extracted : (extractSelectedEntriesFromEngineHandleWithJob fold listing entryPaths root.toPath
      options).exec disk = (.ok (reports, batch), final))
    (extracted' : (extractEntryWithOptions fold listing appleArchive entryPath root'.toPath
      options).exec disk' = (.ok (report, singles), final'))
    (previewed : (previewEntryWithOptions fold listing appleArchive entryPath temp.toPath
      options).exec fresh = (.ok preview, last)) :
    (List.Forall₂ NamesWrite reports batch ∧
      (∀ extraction ∈ singles, report.LeadsTo entryPath extraction) ∧
      ∃ fileType, last.lstat preview.previewPath = .ok fileType) ↔
    (∀ extraction ∈ batch, extraction.IsTold options root.toPath) ∧
      (∀ extraction ∈ singles, extraction.IsInPlace options root'.toPath entryPath) ∧
      (pathComponents entryPath = [] ∨
        ∃ entry ∈ matchingEntries listing entryPath appleArchive,
          ¬ entry.IsSkipped options) := by
  obtain ⟨⟨diagnostics, made⟩, each⟩ := extractSelectedEntries_ok valid.isCanonical extracted
  have path := selected_path valid'.isCanonical extracted'
  obtain ⟨-, -, _, done, -⟩ := extractEntryWithOptions_ok extracted'
  obtain ⟨names, each'⟩ := extractEntries_ok (.new valid'.isCanonical options) done
  have told : List.Forall₂ NamesWrite reports batch ↔
      ∀ extraction ∈ batch, extraction.IsTold options root.toPath := by
    rw [made, List.forall₂_map_left_iff, List.forall₂_same]
    exact forall₂_congr fun extraction member => (each extraction member).namesWrite_iff diagnostics
  have led : (∀ extraction ∈ singles, report.LeadsTo entryPath extraction) ↔
      ∀ extraction ∈ singles, extraction.IsInPlace options root'.toPath entryPath := by
    refine forall₂_congr fun extraction member => (each' extraction member).leadsTo_iff ?_ path
    refine @prefix_of_matching listing appleArchive entryPath _ ?_
    rw [← names]
    exact List.mem_map_of_mem member
  rw [told, led]
  refine and_congr_right fun _ => and_congr_right fun inPlace => ?_
  refine preview_exists_iff validTemp empty previewed fun entry member unskipped => ?_
  rw [← names] at member
  obtain ⟨extraction, made, rfl⟩ := List.mem_map.mp member
  exact ((inPlace extraction made).2 unskipped).1

/-! ## One file in a directory -/

def emptyOut : FileSystem (List UInt8) := .ofObjects [(["out".toList], .directory)]

theorem emptyOut_isEmptyRoot : IsEmptyRoot emptyOut ["out".toList] :=
  ⟨by decide +kernel, fun _ => rfl⟩

def smallFile : EngineEntry := ⟨"d/a.txt".toList, .file, some 1, none, [65]⟩

/-- The three calls for the file, below `out` in each case. -/
def smallBatch (options : BrowserExtractOptions) :=
  (extractSelectedEntriesFromEngineHandleWithJob .ascii [smallFile] ["d".toList]
    (Location.toPath ["out".toList]) options).exec emptyOut

def smallSingle (options : BrowserExtractOptions) :=
  (extractEntryWithOptions .ascii [smallFile] false "d/a.txt".toList
    (Location.toPath ["out".toList]) options).exec emptyOut

def smallPreview (options : BrowserExtractOptions) :=
  (previewEntryWithOptions .ascii [smallFile] false "d/a.txt".toList
    (Location.toPath ["out".toList]) options).exec emptyOut

theorem exists_ok {ε α σ : Type} {outcome : Except ε α × σ} (succeeds : outcome.1.isOk = true) :
    ∃ value last, outcome = (.ok value, last) := by
  rcases outcome with ⟨result, last⟩
  cases result with
  | error failure => cases succeeds
  | ok value => exact ⟨value, last, rfl⟩

/-- Without options the file is reported where it is, and can be previewed. -/
theorem small_file_is_reported :
    ∃ reports batch final report singles final' preview last,
      smallBatch {} = (.ok (reports, batch), final) ∧
      smallSingle {} = (.ok (report, singles), final') ∧
      smallPreview {} = (.ok preview, last) ∧
      List.Forall₂ NamesWrite reports batch ∧
      (∀ extraction ∈ singles, report.LeadsTo "d/a.txt".toList extraction) ∧
      ∃ fileType, last.lstat preview.previewPath = .ok fileType := by
  obtain ⟨⟨reports, batch⟩, final, extracted⟩ := exists_ok (by decide +kernel :
    (smallBatch {}).1.isOk = true)
  obtain ⟨⟨report, singles⟩, final', extracted'⟩ := exists_ok (by decide +kernel :
    (smallSingle {}).1.isOk = true)
  obtain ⟨preview, last, previewed⟩ := exists_ok (by decide +kernel :
    (smallPreview {}).1.isOk = true)
  have entries : batch.map Extraction.entry = [smallFile] := by
    have computed : (smallBatch {}).1.toOption.map (fun made => made.2.map Extraction.entry) =
        some [smallFile] := by decide +kernel
    rw [extracted] at computed
    exact Option.some.inj computed
  have entries' : singles.map Extraction.entry = [smallFile] := by
    have computed : (smallSingle {}).1.toOption.map (fun made => made.2.map Extraction.entry) =
        some [smallFile] := by decide +kernel
    rw [extracted'] at computed
    exact Option.some.inj computed
  have only : ∀ {extractions : List Extraction}, extractions.map Extraction.entry = [smallFile] →
      ∀ extraction ∈ extractions, extraction.entry = smallFile := by
    intro extractions same extraction member
    have inside := List.mem_map_of_mem (f := Extraction.entry) member
    rw [same] at inside
    exact List.mem_singleton.mp inside
  have kept : ¬ smallFile.IsSkipped {} := by
    rintro (all | ⟨-, symlink⟩)
    · exact absurd all (by decide +kernel)
    · cases symlink
  refine ⟨reports, batch, final, report, singles, final', preview, last, extracted, extracted',
    previewed, ?_⟩
  refine (reports_name_what_is_written_iff out_isValid out_isValid out_isValid
    emptyOut_isEmptyRoot extracted extracted' previewed).mpr ⟨?_, ?_, .inr ⟨smallFile, ?_, kept⟩⟩
  · intro extraction member
    unfold Extraction.IsTold
    rw [only entries extraction member]
    exact ⟨fun skipped => absurd skipped kept, fun _ =>
      ⟨⟨by decide +kernel, rfl, fun renamed => by cases renamed.1⟩, by decide +kernel⟩⟩
  · intro extraction member
    unfold Extraction.IsInPlace
    rw [only entries' extraction member]
    exact ⟨fun _ => kept, fun _ => ⟨rfl, fun renamed => by cases renamed.1⟩⟩
  · decide +kernel

def reportedPath : PathBuf := Location.toPath ["out".toList, "d".toList, "a.txt".toList]

def writtenFile : ExtractionDecision :=
  .write ⟨"a.txt".toList, Location.toPath ["out".toList, "a.txt".toList], none, false⟩

/-- With one component stripped the file is at `out/a.txt`, and all three name `out/d/a.txt`. -/
theorem stripped_file_is_misreported :
    ∃ reports batch final report singles final' preview last,
      smallBatch { stripComponents := 1 } = (.ok (reports, batch), final) ∧
      smallSingle { stripComponents := 1 } = (.ok (report, singles), final') ∧
      smallPreview { stripComponents := 1 } = (.ok preview, last) ∧
      ¬ List.Forall₂ NamesWrite reports batch ∧
      ¬ (∀ extraction ∈ singles, report.LeadsTo "d/a.txt".toList extraction) ∧
      ¬ ∃ fileType, last.lstat preview.previewPath = .ok fileType := by
  obtain ⟨⟨reports, batch⟩, final, extracted⟩ := exists_ok (by decide +kernel :
    (smallBatch { stripComponents := 1 }).1.isOk = true)
  obtain ⟨⟨report, singles⟩, final', extracted'⟩ := exists_ok (by decide +kernel :
    (smallSingle { stripComponents := 1 }).1.isOk = true)
  obtain ⟨preview, last, previewed⟩ := exists_ok (by decide +kernel :
    (smallPreview { stripComponents := 1 }).1.isOk = true)
  refine ⟨reports, batch, final, report, singles, final', preview, last, extracted, extracted',
    previewed, ?_, ?_, ?_⟩
  · intro named
    have computed : (smallBatch { stripComponents := 1 }).1.toOption.map (fun made =>
        (made.1.map fun named => named.2.destinationPath, made.2.map Extraction.decision)) =
          some ([reportedPath], [writtenFile]) := by decide +kernel
    rw [extracted] at computed
    obtain ⟨paths, decisions⟩ := Prod.mk.inj (Option.some.inj computed)
    obtain ⟨first, rfl, path⟩ := List.map_eq_singleton_iff.mp paths
    obtain ⟨extraction, rfl, decided⟩ := List.map_eq_singleton_iff.mp decisions
    obtain ⟨-, names⟩ := (List.forall₂_cons.mp named).1
    rw [decided] at names
    exact absurd (path.symm.trans names.1) (by decide +kernel)
  · intro led
    have computed : (smallSingle { stripComponents := 1 }).1.toOption.map (fun made =>
        (made.1.destinationPath, made.2.map Extraction.decision)) =
          some (reportedPath, [writtenFile]) := by decide +kernel
    rw [extracted'] at computed
    obtain ⟨path, decisions⟩ := Prod.mk.inj (Option.some.inj computed)
    obtain ⟨extraction, rfl, decided⟩ := List.map_eq_singleton_iff.mp decisions
    obtain ⟨below, -, destination⟩ := (led extraction List.mem_cons_self).2 _ decided
    have longer := congrArg List.length destination
    dsimp only at path
    rw [path, List.length_append] at longer
    simp only [reportedPath, Location.toPath, PathBuf.ofNames, List.length_cons, List.length_map,
      List.length_nil] at longer
    omega
  · rintro ⟨fileType, found⟩
    have computed : (smallPreview { stripComponents := 1 }).1.toOption.map (fun preview =>
        ((smallPreview { stripComponents := 1 }).2.lstat preview.previewPath).isOk) =
          some false := by decide +kernel
    rw [previewed] at computed
    have missing := Option.some.inj computed
    dsimp only at missing
    rw [found] at missing
    cases missing

end Browser

end ZManager
