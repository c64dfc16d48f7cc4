import ZManager.Create.SevenZ
import ZManager.Create.SplitZipOutcome
import ZManager.Create.TzapSteps

/-! # A failed creation leaves the directory as it was

Splitting checks every destination before the first removal, so its failures
change nothing. A TZAP run does the same for its volumes, but commits the
bootstrap sidecar after them: a sidecar that cannot be written leaves the new
volumes in the place of the old ones.
-/

namespace ZManager

/-! ## Volumes of a run -/

/-- Appending to one output appends to one of the contents. -/
theorem map_snd_modify (index : Nat) (bytes : List UInt8)
    (staged : List (AtomicOutputFile × List UInt8)) :
    (staged.modify index fun entry => (entry.1, entry.2 ++ bytes)).map (·.2) =
      (staged.map (·.2)).modify index (· ++ bytes) := by
  induction staged generalizing index with
  | nil => simp
  | cons head rest ih =>
    cases index with
    | zero => simp
    | succ index => simp [ih]

theorem map_fst_modify (index : Nat) (bytes : List UInt8)
    (staged : List (AtomicOutputFile × List UInt8)) :
    (staged.modify index fun entry => (entry.1, entry.2 ++ bytes)).map Prod.fst =
      staged.map Prod.fst := by
  induction staged generalizing index with
  | nil => simp
  | cons head rest ih =>
    cases index with
    | zero => simp
    | succ index => simp [ih]

namespace TzapRun

open TzapArchiveFileSink

variable {core : TzapVolumeFiles} {names : TempNames} {base files : Files}
  {sink : TzapArchiveFileSink} {staged : List (AtomicOutputFile × List UInt8)}

/-- The bytes of each volume after the writes of a run. -/
def volumeContents (writes : List (Bool × Nat × List UInt8)) (contents : List (List UInt8)) :
    List (List UInt8) :=
  writes.foldl (fun contents write => contents.modify write.2.1 (· ++ write.2.2)) contents

/-- Every write of the run passes its check and names a volume. -/
def WritesFit (writes : List (Bool × Nat × List UInt8)) (count : Nat) : Prop :=
  ∀ write ∈ writes, write.1 = false ∧ write.2.1 < count

/-- The writes of a run append to their volumes unless one is cancelled or has no
volume. -/
theorem writeVolumes_cases {writes : List (Bool × Nat × List UInt8)}
    (held : Staged base files staged) (outputs : sink.outputs = staged.map Prod.fst)
    (lengths : sink.volumePaths.length = staged.length) :
    (WritesFit writes staged.length ∧
      ∃ staged' last, writeVolumes writes sink files = (.ok sink, last) ∧
        Staged base last staged' ∧ staged'.map Prod.fst = staged.map Prod.fst ∧
        staged'.map (·.2) = volumeContents writes (staged.map (·.2))) ∨
      ¬WritesFit writes staged.length ∧
        ∃ failure, writeVolumes writes sink files = (.error failure, base) := by
  induction writes generalizing files staged with
  | nil => exact .inl ⟨by simp [WritesFit], staged, files, rfl, held, rfl, rfl⟩
  | cons write rest ih =>
    obtain ⟨cancelled, index, bytes⟩ := write
    unfold writeVolumes writeVolume
    by_cases stopped : cancelled = true
    · rw [if_pos stopped, outputs, held.dropAll]
      exact .inr ⟨by simp [WritesFit, stopped], _, rfl⟩
    rw [if_neg stopped]
    by_cases outside : staged.length ≤ index
    · have absent : sink.volumePaths[index]? = none := by
        rw [List.getElem?_eq_none_iff]
        omega
      rw [absent, outputs, held.dropAll]
      refine .inr ⟨?_, _, rfl⟩
      intro fit
      exact absurd (fit _ (List.mem_cons_self ..)).2 (Nat.not_lt.mpr outside)
    obtain ⟨path, planned⟩ : ∃ path, sink.volumePaths[index]? = some path :=
      ⟨_, List.getElem?_eq_getElem (by omega)⟩
    obtain ⟨output, found⟩ : ∃ output, (staged.map Prod.fst)[index]? = some output :=
      ⟨_, List.getElem?_eq_getElem (by rw [List.length_map]; omega)⟩
    have later := @ih _ _ (held.appendAt found bytes) (by rw [map_fst_modify]; exact outputs)
      (by rw [List.length_modify]; exact lengths)
    rw [map_fst_modify, List.length_modify, map_snd_modify] at later
    rw [planned, outputs, found]
    rcases later with ⟨fit, success⟩ | ⟨unfit, failed⟩
    · refine .inl ⟨List.forall_mem_cons.mpr ⟨⟨by simpa using stopped, ?_⟩, fit⟩, success⟩
      exact Nat.not_le.mp outside
    · exact .inr ⟨fun fit => unfit (List.forall_mem_cons.mp fit).2, failed⟩

end TzapRun

/-! ## The sidecar -/

section

variable {core : TzapVolumeFiles} {names : TempNames} {files state : Files}
  {destination : PathBuf} {bytes : List UInt8} {replaceExisting : Bool}

variable {path : PathBuf}

theorem Staged.eq_of_nil {base : Files} (held : Staged base files []) : files = base :=
  Finmap.ext_lookup fun path => held.frame path (by simp)

theorem place_ne_tempPathAt {name : Text} (named : PathBuf.fileName path = some name)
    (attempt : Nat) :
    Files.place path ≠ Files.place (AtomicOutputFile.tempPathAt names path attempt) := by
  intro same
  have equal := fileName_eq_of_place_eq named (AtomicOutputFile.fileName_tempPathAt _ _ _) same
  have longer := @AtomicOutputFile.length_lt_tempName names path attempt name named
  rw [← equal] at longer
  omega

/-- Temporary names do not depend on what stands at the path itself. -/
theorem hasFreeTemp_erase {name : Text} (named : PathBuf.fileName path = some name) :
    HasFreeTemp names (files.erase (Files.place path)) path ↔ HasFreeTemp names files path := by
  unfold HasFreeTemp
  refine exists_congr fun attempt => and_congr_right fun _ => ?_
  unfold Files.symlinkMetadata
  have tempNamed := AtomicOutputFile.fileName_tempPathAt names path attempt
  rw [if_neg (by rw [tempNamed]; exact Option.some_ne_none _),
    if_neg (by rw [tempNamed]; exact Option.some_ne_none _),
    Finmap.lookup_erase_ne (place_ne_tempPathAt named attempt).symm]

/-- What clearing the sidecar's path leaves. -/
def clearedSidecar (core : TzapVolumeFiles) (destination : PathBuf) (replaceExisting : Bool)
    (files : Files) : Files :=
  if replaceExisting then files.erase (Files.place (tzapBootstrapSidecarPath core destination))
  else files

/-- Clearing an available path succeeds. -/
theorem clear_available (available : files.IsAvailable replaceExisting path) :
    (if replaceExisting then removeFileDestinationForReplace files path
      else (ensureFileDestinationAvailable files false path, files)) =
      (.ok (), if replaceExisting then files.erase (Files.place path) else files) := by
  cases replaceExisting with
  | true =>
    obtain ⟨cleared, done, held⟩ := (Staged.nil files).removeFileDestination (by simp)
      available.1
    simp only [↓reduceIte, done, held.eq_of_nil]
  | false =>
    simp only [Bool.false_eq_true, ↓reduceIte,
      ensureFileDestinationAvailable_ok.mpr available]

/-- Clearing a path that is not available fails and changes nothing. -/
theorem clear_unavailable (unavailable : ¬files.IsAvailable replaceExisting path) :
    ∃ source, (if replaceExisting then removeFileDestinationForReplace files path
      else (ensureFileDestinationAvailable files false path, files)) = (.error source, files) := by
  cases replaceExisting with
  | true =>
    have directory : files.symlinkMetadata path = some .directory := by
      by_contra other
      exact unavailable ⟨other, fun impossible => (by cases impossible)⟩
    simp only [↓reduceIte, removeFileDestinationForReplace, directory]
    exact ⟨_, rfl⟩
  | false =>
    simp only [Bool.false_eq_true, ↓reduceIte]
    cases checked : ensureFileDestinationAvailable files false path with
    | ok value => exact absurd (ensureFileDestinationAvailable_ok.mp checked) unavailable
    | error source => exact ⟨source, rfl⟩

/-- The sidecar is refused when its path is not available. -/
theorem commitBootstrapSidecar_unavailable
    (unavailable : ¬files.IsAvailable replaceExisting (tzapBootstrapSidecarPath core destination)) :
    ∃ failure, TzapArchiveFileSink.commitBootstrapSidecar core names destination bytes
      replaceExisting files = (.error failure, files) := by
  obtain ⟨source, refused⟩ := clear_unavailable unavailable
  unfold TzapArchiveFileSink.commitBootstrapSidecar
  simp only [refused]
  exact ⟨_, rfl⟩

/-- The sidecar is refused when no temporary name is free, after the old one is
gone. -/
theorem commitBootstrapSidecar_noTemp {name : Text}
    (named : PathBuf.fileName (tzapBootstrapSidecarPath core destination) = some name)
    (available : files.IsAvailable replaceExisting (tzapBootstrapSidecarPath core destination))
    (taken : ¬HasFreeTemp names files (tzapBootstrapSidecarPath core destination)) :
    ∃ failure, TzapArchiveFileSink.commitBootstrapSidecar core names destination bytes
      replaceExisting files =
        (.error failure, clearedSidecar core destination replaceExisting files) := by
  have none_free : ¬HasFreeTemp names (clearedSidecar core destination replaceExisting files)
      (tzapBootstrapSidecarPath core destination) := by
    unfold clearedSidecar
    cases replaceExisting with
    | true =>
      rw [if_pos rfl, hasFreeTemp_erase named]
      exact taken
    | false => exact taken
  unfold TzapArchiveFileSink.commitBootstrapSidecar
  simp only [clear_available available]
  cases created : AtomicOutputFile.create names
      (clearedSidecar core destination replaceExisting files)
      (tzapBootstrapSidecarPath core destination) with
  | ok result => exact absurd (create_ok_iff.mp ⟨result, created⟩) none_free
  | error source =>
    unfold clearedSidecar at created ⊢
    rw [created]
    exact ⟨_, rfl⟩

/-- Otherwise the sidecar is written. -/
theorem commitBootstrapSidecar_succeeds {name : Text}
    (named : PathBuf.fileName (tzapBootstrapSidecarPath core destination) = some name)
    (available : files.IsAvailable replaceExisting (tzapBootstrapSidecarPath core destination))
    (free : HasFreeTemp names files (tzapBootstrapSidecarPath core destination)) :
    ∃ last, TzapArchiveFileSink.commitBootstrapSidecar core names destination bytes
      replaceExisting files = (.ok (), last) := by
  have free' : HasFreeTemp names (clearedSidecar core destination replaceExisting files)
      (tzapBootstrapSidecarPath core destination) := by
    unfold clearedSidecar
    cases replaceExisting with
    | true =>
      rw [if_pos rfl, hasFreeTemp_erase named]
      exact free
    | false => exact free
  have absent : (clearedSidecar core destination replaceExisting files).lookup
      (Files.place (tzapBootstrapSidecarPath core destination)) = none := by
    unfold clearedSidecar
    cases replaceExisting with
    | true => rw [if_pos rfl, Finmap.lookup_erase]
    | false =>
      have nothing := available.2 rfl
      rw [Files.symlinkMetadata, if_neg (by rw [named]; exact Option.some_ne_none _)] at nothing
      exact nothing
  obtain ⟨⟨output, created⟩, done⟩ := create_ok_iff.mpr free'
  obtain ⟨final, ⟨attempt, temp⟩, held⟩ := (Staged.nil _).create done
  have held := held.write bytes
  rw [List.nil_append] at held
  obtain ⟨committed, moved, -⟩ := @Staged.commit _ _ [] output bytes replaceExisting held
    (by rw [final, named]; exact Option.some_ne_none _)
    (by
      intro candidate member
      rw [List.mem_singleton.mp member, final, temp]
      exact place_ne_tempPathAt named attempt)
    (.inl (by rw [final]; exact absent))
  unfold TzapArchiveFileSink.commitBootstrapSidecar
  simp only [clear_available available]
  unfold clearedSidecar at done
  rw [done]
  simp only [moved]
  exact ⟨_, rfl⟩

end

/-! ## Runs -/

/-- The content with volumes put at their paths. -/
def placeVolumes (volumes : List (PathBuf × List UInt8)) (base : Files) : Files :=
  volumes.foldl (fun files volume => files.insert (Files.place volume.1) (.file volume.2)) base

theorem publish_eq_placeVolumes (staged : List (AtomicOutputFile × List UInt8)) (base : Files) :
    publish staged base =
      placeVolumes ((staged.map (·.1.finalPath)).zip (staged.map (·.2))) base := by
  unfold publish placeVolumes
  induction staged generalizing base with
  | nil => rfl
  | cons output rest ih => exact ih _

namespace TzapRun

open TzapArchiveFileSink

variable (core : TzapVolumeFiles) (names : TempNames) (run : TzapRun) (files : Files)
  (existing : List PathBuf)

variable {base : Files} {path : PathBuf}

def volumePaths : List PathBuf :=
  tzapOutputVolumePaths core run.destination run.volumeCount

/-- The directory with the volumes of the run in the place of the old ones. -/
def published : Files :=
  placeVolumes ((run.volumePaths core).zip
      (volumeContents run.writes (List.replicate (run.volumePaths core).length [])))
    (if run.replaceExisting then removeAll (existing ++ [run.destination]) files else files)

/-- The sidecar that the run is to write. -/
def wanted : Option (List UInt8) :=
  if run.emitBootstrapSidecar then (run.sidecar.map Prod.snd).filter (· ≠ []) else none

/-- The run gets to commit its volumes: no check sees a cancellation, there is a
volume, every destination is available and has a free temporary name, and every
write names a volume. -/
structure Commits : Prop where
  begin : run.beginCancelled = false
  some_volume : run.volumeCount ≠ 0
  available : ∀ path ∈ run.destination :: (run.volumePaths core ++ existing),
    files.IsAvailable run.replaceExisting path
  free : ∀ path ∈ run.volumePaths core, HasFreeTemp names files path
  writes : WritesFit run.writes (run.volumePaths core).length
  sidecar : ∀ request, run.sidecar = some request → request.1 = false
  commit : run.commitCancelled = false

/-- The rest of a run whose volumes are committed. -/
def finishSidecar : Except TzapError Nat × Files :=
  match run.wanted with
  | none => (.ok (run.volumePaths core).length, run.published core files existing)
  | some bytes =>
    andThen (commitBootstrapSidecar core names run.destination bytes run.replaceExisting
      (run.published core files existing)) fun _ files =>
        (.ok (run.volumePaths core).length, files)

variable {core names run files existing}

theorem writeSidecar_cases {base last : Files} {sink : TzapArchiveFileSink}
    {staged : List (AtomicOutputFile × List UInt8)} (held : Staged base last staged)
    (outputs : sink.outputs = staged.map Prod.fst) (unset : sink.bootstrapSidecar = none)
    (sidecar : Option (Bool × List UInt8)) :
    ((∀ request, sidecar = some request → request.1 = false) ∧
      writeSidecar sidecar sink last =
        (.ok { sink with bootstrapSidecar := sidecar.map Prod.snd }, last)) ∨
      (¬∀ request, sidecar = some request → request.1 = false) ∧
        ∃ failure, writeSidecar sidecar sink last = (.error failure, base) := by
  cases sidecar with
  | none =>
    refine .inl ⟨fun request same => (by cases same), ?_⟩
    rw [Option.map_none, ← unset]
    rfl
  | some request =>
    obtain ⟨cancelled, bytes⟩ := request
    unfold writeSidecar writeBootstrapSidecar
    cases cancelled with
    | true =>
      right
      refine ⟨fun all => Bool.noConfusion (all _ rfl), ?_⟩
      simp only [↓reduceIte, outputs, held.dropAll]
      exact ⟨_, rfl⟩
    | false =>
      left
      refine ⟨fun request same => (by cases same; rfl), ?_⟩
      simp only [Bool.false_eq_true, ↓reduceIte]
      rfl

/-- Committing a sink whose volumes are staged. -/
theorem commit_cases {last : Files} {sink : TzapArchiveFileSink} {cancelled : Bool}
    {staged : List (AtomicOutputFile × List UInt8)} (held : Staged base last staged)
    (outputs : sink.outputs = staged.map Prod.fst)
    (finals : staged.map (·.1.finalPath) = sink.volumePaths) (some_volume : sink.volumePaths ≠ [])
    (available : ∀ path ∈ sink.destination :: (sink.volumePaths ++ sink.existingVolumePaths),
      base.IsAvailable sink.replaceExisting path)
    (distinct : (sink.volumePaths.map Files.place).Nodup)
    (apart : ∀ path ∈ sink.destination :: (sink.volumePaths ++ sink.existingVolumePaths),
      ∀ output ∈ staged, Files.place path ≠ Files.place output.1.tempPath) :
    sink.commit core names cancelled last =
      if cancelled then (.error .cancelled, base)
      else
        match sink.wantedSidecar with
        | none => (.ok sink.volumePaths.length, publish staged (if sink.replaceExisting then
            removeAll (sink.existingVolumePaths ++ [sink.destination]) base else base))
        | some bytes =>
          andThen (commitBootstrapSidecar core names sink.destination bytes sink.replaceExisting
            (publish staged (if sink.replaceExisting then
              removeAll (sink.existingVolumePaths ++ [sink.destination]) base else base)))
            fun _ files => (.ok sink.volumePaths.length, files) := by
  have lengths : sink.outputs.length = sink.volumePaths.length := by
    rw [outputs, ← finals, List.length_map, List.length_map]
  unfold TzapArchiveFileSink.commit
  cases cancelled with
  | true => simp only [↓reduceIte, outputs, held.dropAll]
  | false =>
    have committed := held.commitSplitVolumes id (by rw [finals]; exact available)
      (by rw [← finals, List.map_map] at distinct; exact distinct) (by rw [finals]; exact apart)
    rw [← outputs] at committed
    cases sink.wantedSidecar with
    | none =>
      simp only [Bool.false_eq_true, ↓reduceIte, List.length_eq_zero_iff, some_volume, lengths,
        ne_eq, not_true_eq_false, committed]
    | some bytes =>
      simp only [Bool.false_eq_true, ↓reduceIte, List.length_eq_zero_iff, some_volume, lengths,
        ne_eq, not_true_eq_false, committed]

section

variable {directory : PathBuf} {name : Text}

theorem length_volumePaths : (run.volumePaths core).length = run.volumeCount := by
  unfold volumePaths tzapOutputVolumePaths
  split_ifs with single
  · exact single.symm
  · rw [List.length_map, List.length_range]

theorem nodup_fileName_volumePaths (lawful : core.IsLawful)
    (placed : run.destination = directory ++ [Component.normal name]) :
    ((run.volumePaths core).map PathBuf.fileName).Nodup := by
  have places : ((run.volumePaths core).map Files.place).Nodup := by
    unfold volumePaths
    rw [placed]
    exact nodup_tzapOutputVolumePaths lawful
  have determined : (run.volumePaths core).map Files.place =
      ((run.volumePaths core).map PathBuf.fileName).map fun found =>
        Files.place directory ++ [Component.normal (found.getD [])] := by
    rw [List.map_map]
    apply List.map_congr_left
    intro path member
    unfold volumePaths at member
    rw [placed] at member
    obtain ⟨touched, named, place, -⟩ := isTouched_volume lawful member
    rw [Function.comp_apply, place, named, Option.getD_some]
  rw [determined] at places
  exact List.Nodup.of_map _ places

/-- The temporary files of the volumes are apart from what the run touches. -/
theorem apart_from_temps (lawful : core.IsLawful)
    (placed : run.destination = directory ++ [Component.normal name])
    (found : existingTzapVolumePaths core files run.destination = .ok existing)
    {staged : List (AtomicOutputFile × List UInt8)}
    (finals : staged.map (·.1.finalPath) = run.volumePaths core)
    (temps : ∀ output ∈ staged, ∃ attempt,
      output.1.tempPath = AtomicOutputFile.tempPathAt names output.1.finalPath attempt) :
    ∀ path ∈ run.destination :: (run.volumePaths core ++ existing),
      ∀ output ∈ staged, Files.place path ≠ Files.place output.1.tempPath := by
  unfold volumePaths at finals ⊢
  rw [placed] at finals found ⊢
  intro path member output inside
  have volume : output.1.finalPath ∈
      tzapOutputVolumePaths core (directory ++ [Component.normal name]) run.volumeCount := by
    rw [← finals]
    exact List.mem_map.mpr ⟨output, inside, rfl⟩
  obtain ⟨attempt, temp⟩ := temps output inside
  obtain ⟨volumeName, named, -, -⟩ := isTouched_volume lawful volume
  have shorter := length_base_le lawful volume named
  have longer := @AtomicOutputFile.length_lt_tempName names output.1.finalPath attempt _ named
  rw [temp]
  exact (isTouched_of_mem lawful found member).place_ne
    (AtomicOutputFile.fileName_tempPathAt _ _ _) (not_isTzapName_tempName _ _ _) (by omega)

/-- Starting a run stages its volumes, or it fails and leaves nothing. -/
theorem beginArchive_cases (lawful : core.IsLawful)
    (placed : run.destination = directory ++ [Component.normal name]) {sink : TzapArchiveFileSink}
    (fresh : sink = ⟨run.destination, run.replaceExisting, run.emitBootstrapSidecar, existing,
      [], [], none⟩) :
    ((run.beginCancelled = false ∧ run.volumeCount ≠ 0 ∧
        (∀ path ∈ run.destination :: (run.volumePaths core ++ existing),
          files.IsAvailable run.replaceExisting path) ∧
        ∀ path ∈ run.volumePaths core, HasFreeTemp names files path) ∧
      ∃ staged last, sink.beginArchive core names run.beginCancelled run.volumeCount files =
          (.ok { sink with
            volumePaths := run.volumePaths core, outputs := staged.map Prod.fst }, last) ∧
        Staged files last staged ∧ staged.map (·.1.finalPath) = run.volumePaths core ∧
        staged.map (·.2) = List.replicate (run.volumePaths core).length [] ∧
        ∀ output ∈ staged, ∃ attempt,
          output.1.tempPath = AtomicOutputFile.tempPathAt names output.1.finalPath attempt) ∨
      ¬Commits core names run files existing ∧
        ∃ failure, sink.beginArchive core names run.beginCancelled run.volumeCount files =
          (.error failure, files) := by
  subst fresh
  unfold beginArchive
  by_cases cancelled : run.beginCancelled = true
  · rw [if_pos cancelled]
    refine .inr ⟨fun commits => ?_, _, rfl⟩
    rw [commits.begin] at cancelled
    cases cancelled
  rw [if_neg cancelled]
  by_cases empty : run.volumeCount = 0
  · rw [if_pos empty]
    exact .inr ⟨fun commits => commits.some_volume empty, _, rfl⟩
  rw [if_neg empty]
  simp only
  cases checked : ensureSplitDestinationsAvailable files run.destination (run.volumePaths core)
      existing run.replaceExisting with
  | error failure =>
    obtain ⟨path, source⟩ := failure
    right
    refine ⟨fun commits => ?_, ?_⟩
    · rw [ensureSplitDestinationsAvailable_ok.mpr commits.available] at checked
      cases checked
    · unfold volumePaths at checked
      simp only [checked]
      exact ⟨_, rfl⟩
  | ok value =>
    have available := ensureSplitDestinationsAvailable_ok.mp checked
    have named : ∀ path ∈ run.volumePaths core, PathBuf.fileName path ≠ none := by
      intro path member
      unfold volumePaths at member
      rw [placed] at member
      obtain ⟨touched, named, -⟩ := isTouched_volume lawful member
      rw [named]
      exact Option.some_ne_none _
    rcases outcome : createOutputs names (run.volumePaths core) [] files with ⟨result, last⟩
    unfold volumePaths at checked outcome
    simp only [checked, outcome]
    cases result with
    | error failure =>
      right
      refine ⟨fun commits => ?_, ?_⟩
      · obtain ⟨outputs, after, done⟩ := @createOutputs_succeeds names files files
          (run.volumePaths core) [] (Staged.nil files) (by simp) (by simpa using named)
          (by simpa using nodup_fileName_volumePaths lawful placed) commits.free
        unfold volumePaths at done
        rw [List.map_nil, outcome] at done
        cases done
      · have same : last = files := createOutputs_error (Staged.nil files) outcome
        rw [same]
        exact ⟨_, rfl⟩
    | ok outputs =>
      left
      obtain ⟨staged, same, held, finals, contents, temps, free⟩ :=
        createOutputs_ok (Staged.nil files) outcome
      rw [List.nil_append] at same held
      refine ⟨⟨by simpa using cancelled, empty, available, free⟩, staged, last, ?_, held, finals,
        contents, temps⟩
      rw [same]
      rfl

end

/-- **A run commits its volumes or leaves everything as it was.** -/
theorem run_cases (lawful : core.IsLawful) {directory : PathBuf} {name : Text}
    (placed : run.destination = directory ++ [Component.normal name])
    (found : existingTzapVolumePaths core files run.destination = .ok existing) :
    (Commits core names run files existing ∧
      run.run core names files = finishSidecar core names run files existing) ∨
      ¬Commits core names run files existing ∧
        ∃ failure, run.run core names files = (.error failure, files) := by
  unfold TzapRun.run TzapArchiveFileSink.new
  rw [found]
  simp only [bind, Except.bind, pure, Except.pure]
  rcases @beginArchive_cases core names run files existing directory name lawful placed _ rfl with
    ⟨⟨begins, some_volume, available, free⟩, staged, last, began, held, finals, contents, temps⟩ |
    ⟨stops, failure, failed⟩
  · rw [began]
    simp only [andThen]
    have lengths : (run.volumePaths core).length = staged.length := by
      rw [← finals, List.length_map]
    rcases @writeVolumes_cases files last ⟨run.destination, run.replaceExisting,
        run.emitBootstrapSidecar, existing, run.volumePaths core, staged.map Prod.fst, none⟩ staged
        run.writes held rfl lengths with
      ⟨fit, staged', last', wrote, held', outputs', contents'⟩ | ⟨unfit, failure, failed⟩
    · rw [wrote]
      simp only
      rcases @writeSidecar_cases files last' ⟨run.destination, run.replaceExisting,
          run.emitBootstrapSidecar, existing, run.volumePaths core, staged.map Prod.fst, none⟩
          staged' held' outputs'.symm rfl run.sidecar with
        ⟨passes, kept⟩ | ⟨stops, failure, failed⟩
      · have finals' : staged'.map (·.1.finalPath) = run.volumePaths core := by
          have mapped := congrArg (List.map AtomicOutputFile.finalPath) outputs'
          rw [List.map_map, List.map_map] at mapped
          exact mapped.trans finals
        have temps' : ∀ output ∈ staged', ∃ attempt,
            output.1.tempPath = AtomicOutputFile.tempPathAt names output.1.finalPath attempt := by
          intro output member
          have listed : output.1 ∈ staged.map Prod.fst := by
            rw [← outputs']
            exact List.mem_map_of_mem member
          obtain ⟨original, inside, same⟩ := List.mem_map.mp listed
          rw [← same]
          exact temps original inside
        rw [kept]
        simp only
        have filled : run.volumePaths core ≠ [] := by
          rw [← List.length_pos_iff, length_volumePaths]
          exact Nat.pos_of_ne_zero some_volume
        have places : ((run.volumePaths core).map Files.place).Nodup := by
          unfold volumePaths
          rw [placed]
          exact nodup_tzapOutputVolumePaths lawful
        rw [commit_cases held' outputs'.symm finals' filled available places
          (apart_from_temps lawful placed found finals' temps')]
        cases cancelled : run.commitCancelled with
        | true =>
          simp only [↓reduceIte]
          refine .inr ⟨fun commits => ?_, _, rfl⟩
          rw [commits.commit] at cancelled
          cases cancelled
        | false =>
          have fit' : WritesFit run.writes (run.volumePaths core).length := by
            rw [lengths]
            exact fit
          refine .inl ⟨⟨begins, some_volume, available, free, fit', passes, cancelled⟩, ?_⟩
          rw [publish_eq_placeVolumes, finals', contents', contents]
          rfl
      · rw [failed]
        exact .inr ⟨fun commits => stops commits.sidecar, failure, rfl⟩
    · rw [failed]
      refine .inr ⟨fun commits => unfit ?_, failure, rfl⟩
      rw [← lengths]
      exact commits.writes
  · rw [failed]
    exact .inr ⟨stops, failure, rfl⟩

/-! ## When a failed run has changed the directory -/

theorem lookup_placeVolumes {volumes : List (PathBuf × List UInt8)}
    (other : ∀ volume ∈ volumes, path ≠ Files.place volume.1) :
    (placeVolumes volumes base).lookup path = base.lookup path := by
  unfold placeVolumes
  induction volumes generalizing base with
  | nil => rfl
  | cons volume rest ih =>
    rw [List.foldl_cons, ih fun later member => other later (List.mem_cons_of_mem _ member),
      Finmap.lookup_insert_of_ne _ (other volume (List.mem_cons_self ..))]

/-- Committing the volumes changes only what the run touches. -/
theorem lookup_published
    (untouched : ∀ touched ∈ run.destination :: (run.volumePaths core ++ existing),
      Files.place touched ≠ path) :
    (run.published core files existing).lookup path = files.lookup path := by
  unfold published
  rw [lookup_placeVolumes]
  · cases run.replaceExisting with
    | false => rfl
    | true =>
      rw [if_pos rfl, lookup_removeAll, if_neg]
      intro removed
      obtain ⟨old, member, same⟩ := List.mem_map.mp removed
      refine untouched old ?_ same
      rcases List.mem_append.mp member with inside | last
      · exact List.mem_cons_of_mem _ (List.mem_append_right _ inside)
      · rw [List.mem_singleton.mp last]
        exact List.mem_cons_self ..
  · intro volume member same
    refine untouched volume.1 ?_ same.symm
    exact List.mem_cons_of_mem _ (List.mem_append_left _ (List.of_mem_zip member).1)

section

variable {directory : PathBuf} {name : Text}

/-- The sidecar's name and its temporary names are no names the run touches. -/
theorem sidecar_untouched (lawful : core.IsLawful)
    (placed : run.destination = directory ++ [Component.normal name])
    (found : existingTzapVolumePaths core files run.destination = .ok existing) :
    ∃ sidecarName, PathBuf.fileName (tzapBootstrapSidecarPath core run.destination) =
        some sidecarName ∧
      ∀ touched ∈ run.destination :: (run.volumePaths core ++ existing),
        Files.place touched ≠ Files.place (tzapBootstrapSidecarPath core run.destination) ∧
        ∀ attempt, Files.place touched ≠ Files.place (AtomicOutputFile.tempPathAt names
          (tzapBootstrapSidecarPath core run.destination) attempt) := by
  have named : PathBuf.fileName (tzapBootstrapSidecarPath core run.destination) =
      some (core.multiVolumeBaseName name ++ ".sidecar".toList) := by
    unfold tzapBootstrapSidecarPath
    rw [placed, fileName_concat, fileName_concat]
  refine ⟨_, named, ?_⟩
  unfold volumePaths
  rw [placed] at found named ⊢
  intro touched member
  have touches := @isTouched_of_mem core lawful files directory name existing run.volumeCount found
    touched member
  have longer : (core.multiVolumeBaseName name).length <
      (core.multiVolumeBaseName name ++ ".sidecar".toList).length := by
    rw [List.length_append]
    exact Nat.lt_add_of_pos_right (by decide)
  refine ⟨touches.place_ne named (not_isTzapName_sidecar _) longer, ?_⟩
  intro attempt
  have longest := @AtomicOutputFile.length_lt_tempName names _ attempt _ named
  exact touches.place_ne (AtomicOutputFile.fileName_tempPathAt _ _ _)
    (not_isTzapName_tempName _ _ _) (by omega)

/-- The commit of the volumes does not change what the sidecar meets. -/
theorem symlinkMetadata_published {path : PathBuf}
    (untouched : ∀ touched ∈ run.destination :: (run.volumePaths core ++ existing),
      Files.place touched ≠ Files.place path) :
    (run.published core files existing).symlinkMetadata path = files.symlinkMetadata path := by
  unfold Files.symlinkMetadata
  rw [lookup_published untouched]

end

/-- The sidecar cannot be written: its path is taken, or no temporary name of it is
free. -/
def SidecarRefused (core : TzapVolumeFiles) (names : TempNames) (run : TzapRun) (files : Files) :
    Prop :=
  ¬files.IsAvailable run.replaceExisting (tzapBootstrapSidecarPath core run.destination) ∨
    ¬HasFreeTemp names files (tzapBootstrapSidecarPath core run.destination)

/-- The run replaces the content of the directory and then fails on its sidecar. -/
def LosesDirectory (core : TzapVolumeFiles) (names : TempNames) (run : TzapRun) (files : Files) :
    Prop :=
  ∃ existing, existingTzapVolumePaths core files run.destination = .ok existing ∧
    Commits core names run files existing ∧ run.wanted ≠ none ∧
    SidecarRefused core names run files ∧
    (run.published core files existing ≠ files ∨
      run.replaceExisting ∧ ∃ bytes, files.symlinkMetadata
        (tzapBootstrapSidecarPath core run.destination) = some (.file bytes))

theorem erase_eq_self (absent : base.lookup path = none) : base.erase path = base := by
  apply Finmap.ext_lookup
  intro candidate
  by_cases same : candidate = path
  · rw [same, Finmap.lookup_erase, absent]
  · exact Finmap.lookup_erase_ne same

/-- An available sidecar path is cleared without loss exactly when no file stood
there. -/
theorem clearedSidecar_eq_iff {state : Files} {sidecarName : Text}
    (named : PathBuf.fileName (tzapBootstrapSidecarPath core run.destination) = some sidecarName)
    (seen : state.symlinkMetadata (tzapBootstrapSidecarPath core run.destination) =
      files.symlinkMetadata (tzapBootstrapSidecarPath core run.destination))
    (available : files.IsAvailable run.replaceExisting
      (tzapBootstrapSidecarPath core run.destination)) :
    clearedSidecar core run.destination run.replaceExisting state = files ↔
      ¬(state ≠ files ∨ run.replaceExisting ∧ ∃ bytes, files.symlinkMetadata
        (tzapBootstrapSidecarPath core run.destination) = some (.file bytes)) := by
  have hasName : PathBuf.fileName (tzapBootstrapSidecarPath core run.destination) ≠ none := by
    rw [named]
    exact Option.some_ne_none _
  have byLookup : ∀ base : Files, base.symlinkMetadata
      (tzapBootstrapSidecarPath core run.destination) =
        base.lookup (Files.place (tzapBootstrapSidecarPath core run.destination)) := by
    intro base
    rw [Files.symlinkMetadata, if_neg hasName]
  rw [byLookup, byLookup] at seen
  unfold clearedSidecar
  cases replaces : run.replaceExisting with
  | false => simp
  | true =>
    rw [if_pos rfl]
    constructor
    · intro same
      have absent : files.lookup (Files.place (tzapBootstrapSidecarPath core run.destination)) =
          none := by
        rw [← same, Finmap.lookup_erase]
      rw [erase_eq_self (seen.trans absent)] at same
      rintro (different | ⟨-, bytes, present⟩)
      · exact different same
      · rw [byLookup, absent] at present
        cases present
    · intro neither
      rw [not_or, not_not] at neither
      rw [neither.1]
      apply erase_eq_self
      cases found : files.lookup (Files.place (tzapBootstrapSidecarPath core run.destination)) with
      | none => rfl
      | some entry =>
        rw [← byLookup] at found
        cases entry with
        | directory => exact absurd found available.1
        | file bytes => exact absurd ⟨rfl, bytes, found⟩ neither.2

/-- After its volumes are committed, a run keeps the directory on failure exactly
when no sidecar is refused or nothing was changed. -/
theorem finishSidecar_keeps_iff (lawful : core.IsLawful) {directory : PathBuf} {name : Text}
    (placed : run.destination = directory ++ [Component.normal name])
    (found : existingTzapVolumePaths core files run.destination = .ok existing) :
    (∀ failure last, finishSidecar core names run files existing = (.error failure, last) →
        last = files) ↔
      ¬(run.wanted ≠ none ∧ SidecarRefused core names run files ∧
        (run.published core files existing ≠ files ∨
          run.replaceExisting ∧ ∃ bytes, files.symlinkMetadata
            (tzapBootstrapSidecarPath core run.destination) = some (.file bytes))) := by
  obtain ⟨sidecarName, named, untouched⟩ :=
    @sidecar_untouched core names run files existing directory name lawful placed found
  have seen : (run.published core files existing).symlinkMetadata
      (tzapBootstrapSidecarPath core run.destination) =
      files.symlinkMetadata (tzapBootstrapSidecarPath core run.destination) :=
    symlinkMetadata_published fun touched member => (untouched touched member).1
  have available_iff : (run.published core files existing).IsAvailable run.replaceExisting
      (tzapBootstrapSidecarPath core run.destination) ↔
      files.IsAvailable run.replaceExisting (tzapBootstrapSidecarPath core run.destination) := by
    unfold Files.IsAvailable
    rw [seen]
  have free_iff : HasFreeTemp names (run.published core files existing)
      (tzapBootstrapSidecarPath core run.destination) ↔
      HasFreeTemp names files (tzapBootstrapSidecarPath core run.destination) := by
    unfold HasFreeTemp
    refine exists_congr fun attempt => and_congr_right fun _ => ?_
    rw [symlinkMetadata_published fun touched member => (untouched touched member).2 attempt]
  unfold finishSidecar
  cases wants : run.wanted with
  | none => simp
  | some bytes =>
    simp only [ne_eq, reduceCtorEq, not_false_eq_true, true_and]
    by_cases available : files.IsAvailable run.replaceExisting
        (tzapBootstrapSidecarPath core run.destination)
    · by_cases free : HasFreeTemp names files (tzapBootstrapSidecarPath core run.destination)
      · obtain ⟨last, done⟩ := @commitBootstrapSidecar_succeeds core names _ run.destination bytes
          run.replaceExisting _ named (available_iff.mpr available) (free_iff.mpr free)
        rw [done]
        have fine : ¬SidecarRefused core names run files := by
          unfold SidecarRefused
          rw [not_or, not_not, not_not]
          exact ⟨available, free⟩
        simp [andThen, fine]
      · obtain ⟨failure, failed⟩ := @commitBootstrapSidecar_noTemp core names _ run.destination
          bytes run.replaceExisting _ named (available_iff.mpr available)
          (free_iff.not.mpr free)
        have refused : SidecarRefused core names run files := .inr free
        have kept := @clearedSidecar_eq_iff core run files _ sidecarName named seen available
        rw [failed]
        simp only [andThen, Prod.mk.injEq, Except.error.injEq, and_imp, forall_eq',
          forall_apply_eq_imp_iff, refused, true_and]
        exact kept
    · obtain ⟨failure, failed⟩ := @commitBootstrapSidecar_unavailable core names _
        run.destination bytes run.replaceExisting (available_iff.not.mpr available)
      have refused : SidecarRefused core names run files := .inl available
      have noFile : ¬(run.replaceExisting ∧ ∃ bytes, files.symlinkMetadata
          (tzapBootstrapSidecarPath core run.destination) = some (.file bytes)) := by
        rintro ⟨replaces, bytes, present⟩
        refine available ⟨?_, fun keeps => ?_⟩
        · rw [present]
          intro same
          cases same
        · rw [replaces] at keeps
          cases keeps
      rw [failed]
      simp only [andThen, Prod.mk.injEq, Except.error.injEq, and_imp, forall_eq',
        forall_apply_eq_imp_iff, refused, true_and]
      tauto

/-- A destination without a name is a directory, and the run is refused. -/
theorem run_nameless (nameless : PathBuf.fileName run.destination = none) :
    ∃ failure, run.run core names files = (.error failure, files) := by
  have found : existingTzapVolumePaths core files run.destination = .ok [] := by
    unfold existingTzapVolumePaths
    rw [nameless]
  have blocked : ∀ paths, ∃ failure, ensureSplitDestinationsAvailable files run.destination paths []
      run.replaceExisting = .error failure := by
    intro paths
    cases checked : ensureSplitDestinationsAvailable files run.destination paths []
        run.replaceExisting with
    | error failure => exact ⟨failure, rfl⟩
    | ok value =>
      refine absurd ?_ (ensureSplitDestinationsAvailable_ok.mp checked run.destination
        (List.mem_cons_self ..)).1
      rw [Files.symlinkMetadata, if_pos nameless]
  obtain ⟨⟨path, source⟩, refused⟩ :=
    blocked (tzapOutputVolumePaths core run.destination run.volumeCount)
  unfold TzapRun.run TzapArchiveFileSink.new
  rw [found]
  simp only [bind, Except.bind, pure, Except.pure, beginArchive, refused]
  split_ifs <;> exact ⟨_, rfl⟩

/-- **A failed TZAP run keeps the directory** exactly when it does not lose it on
its sidecar. -/
theorem run_keeps_iff (lawful : core.IsLawful) :
    (∀ failure last, run.run core names files = (.error failure, last) → last = files) ↔
      ¬LosesDirectory core names run files := by
  cases nameOf : PathBuf.fileName run.destination with
  | none =>
    obtain ⟨failure, failed⟩ := @run_nameless core names run files nameOf
    rw [failed]
    have kept : ¬LosesDirectory core names run files := by
      rintro ⟨existing, -, commits, -⟩
      refine (commits.available run.destination (List.mem_cons_self ..)).1 ?_
      rw [Files.symlinkMetadata, if_pos nameOf]
    refine ⟨fun _ => kept, fun _ => ?_⟩
    rintro failure' last same
    cases same
    rfl
  | some name =>
    have placed := eq_concat_of_fileName nameOf
    cases found : existingTzapVolumePaths core files run.destination with
    | error failure =>
      have failed : run.run core names files = (.error failure, files) := by
        unfold TzapRun.run TzapArchiveFileSink.new
        rw [found]
        rfl
      have kept : ¬LosesDirectory core names run files := by
        rintro ⟨existing, discovered, -⟩
        rw [found] at discovered
        cases discovered
      rw [failed]
      refine ⟨fun _ => kept, fun _ => ?_⟩
      rintro failure' last same
      cases same
      rfl
    | ok existing =>
      have unfolded : LosesDirectory core names run files ↔
          Commits core names run files existing ∧ run.wanted ≠ none ∧
            SidecarRefused core names run files ∧
            (run.published core files existing ≠ files ∨
              run.replaceExisting ∧ ∃ bytes, files.symlinkMetadata
                (tzapBootstrapSidecarPath core run.destination) = some (.file bytes)) := by
        constructor
        · rintro ⟨_, discovered, rest⟩
          rw [found] at discovered
          cases discovered
          exact rest
        · exact fun rest => ⟨existing, found, rest⟩
      rw [unfolded]
      rcases @run_cases core names run files existing lawful _ name placed found with
        ⟨commits, same⟩ | ⟨stops, failure, failed⟩
      · rw [same, finishSidecar_keeps_iff lawful placed found]
        simp only [commits, true_and]
      · rw [failed]
        refine ⟨fun _ held => stops held.1, fun _ => ?_⟩
        rintro failure' last equal
        cases equal
        rfl

end TzapRun

/-! ## All creations with several outputs -/

/-- A destination without a name has no base path, and the split is refused. -/
theorem splitZipTempArchive_nameless {order : ReadOrder} {names : TempNames} {files : Files}
    {archivePath destination : PathBuf} {volumeSize : Nat} {replaceExisting : Bool}
    (nameless : PathBuf.fileName destination = none) :
    (splitZipTempArchive order names files archivePath destination volumeSize
      replaceExisting).2 = files := by
  have based : ∃ failure, splitZipBasePath destination = .error failure := by
    unfold splitZipBasePath PathBuf.extension
    rw [nameless]
    exact ⟨_, rfl⟩
  obtain ⟨failure, based⟩ := based
  have existing : existingSplitZipVolumePaths order files destination = .error failure := by
    unfold existingSplitZipVolumePaths
    rw [based]
    rfl
  unfold splitZipTempArchive splitZipVolumes
  simp only [existing]
  split
  · rfl
  · split_ifs
    · rfl
    · rfl
    · split
      next => rfl
      next prepared =>
        obtain ⟨layout, -, prepared⟩ := Except.bind_eq_ok_iff.mp prepared
        obtain ⟨paths, -, prepared⟩ := Except.bind_eq_ok_iff.mp prepared
        cases prepared

/-- The creations that move several outputs into place. -/
inductive Creation where
  | splitZip (archivePath destination : PathBuf) (volumeSize : Nat) (replaceExisting : Bool)
      (large : minZipVolumeSizeBytes ≤ volumeSize)
      (valid : ∀ name, PathBuf.fileName destination = some name → IsEntryName name)
  | split7z (archivePath destination : PathBuf) (volumeSize : Nat) (replaceExisting : Bool)
  | tzap (run : TzapRun)

/-- The creation fails and leaves the given content. -/
def Creation.FailsTo (order : ReadOrder) (names : TempNames) (core : TzapVolumeFiles)
    (files last : Files) : Creation → Prop
  | .splitZip archivePath destination volumeSize replaceExisting _ _ =>
    ∃ failure, splitZipTempArchive order names files archivePath destination volumeSize
      replaceExisting = (.error failure, last)
  | .split7z archivePath destination volumeSize replaceExisting =>
    ∃ failure, split7zTempArchive order names files archivePath destination volumeSize
      replaceExisting = (.error failure, last)
  | .tzap run => ∃ failure, run.run core names files = (.error failure, last)

/-- **A failed creation leaves the directory as it was**, unless it is a TZAP run
that has committed its volumes, and changed the directory by it, when its
bootstrap sidecar is refused. -/
theorem failed_creation_keeps_directory_iff {order : ReadOrder} {names : TempNames}
    {core : TzapVolumeFiles} (lawful : core.IsLawful) {files : Files} {creation : Creation} :
    (∀ last, creation.FailsTo order names core files last → last = files) ↔
      ∀ run, creation = .tzap run → ¬run.LosesDirectory core names files := by
  cases creation with
  | splitZip archivePath destination volumeSize replaceExisting large valid =>
    refine ⟨fun _ run same => (by cases same), fun _ => ?_⟩
    rintro last ⟨failure, failed⟩
    cases nameOf : PathBuf.fileName destination with
    | none =>
      have kept := @splitZipTempArchive_nameless order names files archivePath destination
        volumeSize replaceExisting nameOf
      rw [failed] at kept
      exact kept
    | some name =>
      have placed := eq_concat_of_fileName nameOf
      have positive : 0 < volumeSize := lt_of_lt_of_le (by decide) large
      rw [placed] at failed
      rcases @splitZipTempArchive_cases order names files last archivePath
          ⟨destination.dropLast, name, valid name nameOf⟩ volumeSize replaceExisting
          (.error failure) positive failed with
        ⟨_, -, kept⟩ | ⟨_, _, _, _, _, _, impossible, -⟩
      · exact kept
      · cases impossible
  | split7z archivePath destination volumeSize replaceExisting =>
    refine ⟨fun _ run same => (by cases same), fun _ => ?_⟩
    rintro last ⟨failure, failed⟩
    rcases split7zTempArchive_cases failed with ⟨_, -, kept⟩ | ⟨_, _, _, _, _, impossible, -⟩
    · exact kept
    · cases impossible
  | tzap run =>
    have keeps := @TzapRun.run_keeps_iff core names run files lawful
    constructor
    · rintro unchanged _ ⟨⟩
      exact keeps.mp fun failure last failed => unchanged last ⟨failure, failed⟩
    · rintro fine last ⟨failure, failed⟩
      exact keeps.mpr (fine run rfl) failure last failed

/-! ## Two small runs -/

/-- Volume names of an archive library in directories that hold no volumes. -/
def plainVolumeFiles : TzapVolumeFiles where
  multiVolumeBaseName name :=
    if ".tzap".toList.isSuffixOf name then name.take (name.length - 5) else name
  volumeOutputPath path index :=
    match PathBuf.fileName path with
    | none => path
    | some name =>
      path.dropLast ++ [Component.normal ((if ".tzap".toList.isSuffixOf name then
        name.take (name.length - 5) else name) ++ ".vol".toList ++ Text.padded 3 index ++
          ".tzap".toList)]
  discoverSiblingVolumePaths _ _ _ := .ok []

theorem plainVolumeFiles_isLawful : plainVolumeFiles.IsLawful where
  base_cases name := by
    by_cases ends : ".tzap".toList.isSuffixOf name = true
    · right
      obtain ⟨front, split⟩ := List.isSuffixOf_iff_suffix.mp ends
      refine ⟨".tzap".toList, ?_, by unfold IsTzapName; decide⟩
      simp only [plainVolumeFiles, ends, ↓reduceIte]
      rw [← split, List.length_append, show ".tzap".toList.length = 5 by decide,
        Nat.add_sub_cancel, List.take_left]
    · left
      simp only [plainVolumeFiles, ends, Bool.false_eq_true, ↓reduceIte]
  volume_path directory name index := by
    simp only [plainVolumeFiles, fileName_concat, List.dropLast_concat]
  siblings files directory base paths found := by
    cases found
    intro path member
    cases member

/-- One volume of three bytes at `a.tzap`, with a sidecar of one byte. -/
def smallRun (commitCancelled : Bool) : TzapRun where
  destination := [.rootDir, .normal ['d'], .normal "a.tzap".toList]
  replaceExisting := false
  emitBootstrapSidecar := true
  volumeCount := 1
  beginCancelled := false
  writes := [(false, 0, [1, 2, 3])]
  sidecar := some (false, [9])
  commitCancelled := commitCancelled

/-- A directory that holds the sidecar of an earlier archive. -/
def oldSidecar : Files :=
  (∅ : Files).insert [.rootDir, .normal ['d'], .normal "a.sidecar".toList] (.file [7])

theorem failed_creation_keeps_directory_cancelled :
    ((smallRun true).run plainVolumeFiles ⟨7, fun _ => 8⟩ oldSidecar).1 = .error .cancelled ∧
      ((smallRun true).run plainVolumeFiles ⟨7, fun _ => 8⟩ oldSidecar).2 = oldSidecar := by
  have cancelled : ((smallRun true).run plainVolumeFiles ⟨7, fun _ => 8⟩ oldSidecar).1 =
      .error .cancelled := by
    decide +kernel
  refine ⟨cancelled, (@failed_creation_keeps_directory_iff .ofKeys ⟨7, fun _ => 8⟩ _
    plainVolumeFiles_isLawful oldSidecar (.tzap (smallRun true))).mpr ?_ _
      ⟨_, Prod.ext cancelled rfl⟩⟩
  rintro run ⟨⟩ ⟨existing, -, commits, -⟩
  exact Bool.noConfusion commits.commit

/-- The sidecar of an earlier archive is in the way after the volume is committed:
the run fails, and the new volume stays. -/
theorem failed_tzap_run_leaves_volume :
    ∃ last, (Creation.tzap (smallRun false)).FailsTo .ofKeys ⟨7, fun _ => 8⟩ plainVolumeFiles
        oldSidecar last ∧ last ≠ oldSidecar ∧
      last.lookup [.rootDir, .normal ['d'], .normal "a.tzap".toList] =
        some (.file [1, 2, 3]) := by
  have written : ((smallRun false).run plainVolumeFiles ⟨7, fun _ => 8⟩ oldSidecar).2.lookup
      [.rootDir, .normal ['d'], .normal "a.tzap".toList] = some (.file [1, 2, 3]) := by
    decide +kernel
  refine ⟨((smallRun false).run plainVolumeFiles ⟨7, fun _ => 8⟩ oldSidecar).2, ⟨.io
    [.rootDir, .normal ['d'], .normal "a.sidecar".toList] ⟨.alreadyExists,
      "destination already exists: /d/a.sidecar"⟩, ?_⟩, ?_, written⟩
  · apply Prod.ext
    · decide +kernel
    · rfl
  · intro same
    rw [same] at written
    exact absurd written (by decide +kernel)

end ZManager
