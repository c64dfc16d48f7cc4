import ZManager.Create.VolumeNames

/-! # Splitting a finished 7z archive into volumes

The finished archive is cut into pieces of the volume size, each staged beside
its volume path. Only when all are complete are old volumes removed and the
pieces moved into place.
-/

namespace ZManager

def sevenzMinVolumeSizeBytes : Nat := 1048576

/-- Fills one volume after the other from the unread rest of the archive. -/
def stage7zVolumes (names : TempNames) (archiveSize volumeSize : Nat) :
    Nat → List PathBuf → List UInt8 → List AtomicOutputFile → Files →
      Except SevenZError (List AtomicOutputFile) × Files
  | _, [], _, outputs, files => (.ok outputs, files)
  | index, volumePath :: rest, unread, outputs, files =>
    match AtomicOutputFile.create names files volumePath with
    | .error source => (.error (.io volumePath source), AtomicOutputFile.dropAll outputs files)
    | .ok (output, files) =>
      if 2 ^ 64 ≤ index * volumeSize then
        (.error (.io volumePath ⟨.invalidInput, "7z volume offset overflow"⟩),
          AtomicOutputFile.dropAll (outputs ++ [output]) files)
      else
        let bytesToCopy := min (archiveSize - index * volumeSize) volumeSize
        let copied := unread.take bytesToCopy
        let files := files.writeFile output.tempPath copied
        if copied.length ≠ bytesToCopy then
          (.error (.io volumePath
            ⟨.unexpectedEof, "7z temp archive ended before volume was filled"⟩),
            AtomicOutputFile.dropAll (outputs ++ [output]) files)
        else
          stage7zVolumes names archiveSize volumeSize (index + 1) rest
            (unread.drop bytesToCopy) (outputs ++ [output]) files

/-- The archive file of a creation that is to be split: its bytes. -/
def readArchive (files : Files) (archivePath : PathBuf) : Except SevenZError (List UInt8) :=
  match files.symlinkMetadata archivePath with
  | some (.file archive) => .ok archive
  | some .directory => .error (.io archivePath ⟨.isADirectory, "Is a directory (os error 21)"⟩)
  | none => .error (.io archivePath ⟨.notFound, "No such file or directory (os error 2)"⟩)

/-- Splits the archive at `archivePath` into the volumes of `destination`. -/
def split7zTempArchive (order : ReadOrder) (names : TempNames) (files : Files)
    (archivePath destination : PathBuf) (volumeSize : Nat) (replaceExisting : Bool) :
    Except SevenZError Nat × Files :=
  match readArchive files archivePath with
  | .error failure => (.error failure, files)
  | .ok archive =>
    let volumePaths := sevenzVolumePaths destination (splitVolumeCount archive.length volumeSize)
    let existing := existing7zVolumePaths order files destination
    match ensureSplitDestinationsAvailable files destination volumePaths existing
        replaceExisting with
    | .error (path, source) => (.error (.io path source), files)
    | .ok () =>
      match stage7zVolumes names archive.length volumeSize 0 volumePaths archive [] files with
      | (.error failure, files) => (.error failure, files)
      | (.ok outputs, files) =>
        match commitSplitVolumes (fun _ => destination) destination existing
            replaceExisting outputs files with
        | (.error (path, source), files) => (.error (.io path source), files)
        | (.ok (), files) => (.ok volumePaths.length, files)

/-! ## What splitting does -/

section

variable {order : ReadOrder} {names : TempNames} {base files last : Files}
  {archivePath destination : PathBuf} {volumeSize : Nat} {replaceExisting : Bool}
  {staged : List (AtomicOutputFile × List UInt8)} {archive : List UInt8}

/-- A failed staging drops every output. -/
theorem stage7zVolumes_error {index : Nat} {paths : List PathBuf} {unread : List UInt8}
    {failure : SevenZError} (held : Staged base files staged)
    (failed : stage7zVolumes names archive.length volumeSize index paths unread
      (staged.map Prod.fst) files = (.error failure, last)) : last = base := by
  induction paths generalizing index unread staged files with
  | nil => cases failed
  | cons path rest ih =>
    unfold stage7zVolumes at failed
    cases created : AtomicOutputFile.create names files path with
    | error source =>
      rw [created] at failed
      cases failed
      exact held.dropAll
    | ok result =>
      obtain ⟨output, files'⟩ := result
      obtain ⟨-, -, held⟩ := held.create created
      have outputs : staged.map Prod.fst ++ [output] =
          (staged ++ [(output, ([] : List UInt8))]).map Prod.fst := by simp
      rw [created] at failed
      simp only at failed
      by_cases overflow : 2 ^ 64 ≤ index * volumeSize
      · rw [if_pos overflow, outputs] at failed
        cases failed
        exact held.dropAll
      rw [if_neg overflow] at failed
      generalize copied : unread.take (min (archive.length - index * volumeSize) volumeSize) =
        piece at failed
      have outputs' : staged.map Prod.fst ++ [output] =
          (staged ++ [(output, piece)]).map Prod.fst := by simp
      rw [outputs'] at failed
      by_cases short : piece.length ≠ min (archive.length - index * volumeSize) volumeSize
      · rw [if_pos short] at failed
        cases failed
        exact (held.write piece).dropAll
      · rw [if_neg short] at failed
        exact ih (held.write piece) failed

/-- A successful staging has one output for each path, filled with its piece of
the archive. -/
theorem stage7zVolumes_ok {index : Nat} {paths : List PathBuf} {outputs : List AtomicOutputFile}
    (held : Staged base files staged)
    (done : stage7zVolumes names archive.length volumeSize index paths
      (archive.drop (index * volumeSize)) (staged.map Prod.fst) files = (.ok outputs, last)) :
    ∃ added, outputs = (staged ++ added).map Prod.fst ∧ Staged base last (staged ++ added) ∧
      added.map (·.1.finalPath) = paths ∧
      added.map (·.2) = (List.range' index paths.length).map (Bytes.piece volumeSize archive) ∧
      ∀ output ∈ added, ∃ attempt,
        output.1.tempPath = AtomicOutputFile.tempPathAt names output.1.finalPath attempt := by
  induction paths generalizing index staged files with
  | nil =>
    cases done
    exact ⟨[], by simp, by simpa using held, rfl, rfl, by simp⟩
  | cons path rest ih =>
    unfold stage7zVolumes at done
    cases created : AtomicOutputFile.create names files path with
    | error source =>
      rw [created] at done
      cases done
    | ok result =>
      obtain ⟨output, files'⟩ := result
      obtain ⟨final, ⟨attempt, temp⟩, held⟩ := held.create created
      rw [created] at done
      simp only at done
      by_cases overflow : 2 ^ 64 ≤ index * volumeSize
      · rw [if_pos overflow] at done
        cases done
      rw [if_neg overflow] at done
      have copied : (archive.drop (index * volumeSize)).take
          (min (archive.length - index * volumeSize) volumeSize) =
            Bytes.piece volumeSize archive index := by
        rw [Bytes.piece, List.take_eq_take_iff, List.length_drop]
        omega
      have unread : (archive.drop (index * volumeSize)).drop
          (min (archive.length - index * volumeSize) volumeSize) =
            archive.drop ((index + 1) * volumeSize) := by
        rw [List.drop_drop, Nat.add_mul, Nat.one_mul]
        by_cases full : volumeSize ≤ archive.length - index * volumeSize
        · rw [Nat.min_eq_right full]
        · rw [List.drop_eq_nil_of_le (by omega), List.drop_eq_nil_of_le (by omega)]
      rw [copied, unread] at done
      by_cases short : (Bytes.piece volumeSize archive index).length ≠
          min (archive.length - index * volumeSize) volumeSize
      · rw [if_pos short] at done
        cases done
      rw [if_neg short] at done
      have outputs' : staged.map Prod.fst ++ [output] =
          (staged ++ [(output, Bytes.piece volumeSize archive index)]).map Prod.fst := by simp
      rw [outputs'] at done
      obtain ⟨added, same, held, finals, contents, temps⟩ :=
        ih (held.write (Bytes.piece volumeSize archive index)) done
      refine ⟨(output, Bytes.piece volumeSize archive index) :: added, ?_, ?_, ?_, ?_, ?_⟩
      · simpa using same
      · simpa using held
      · rw [List.map_cons, finals, final]
      · rw [List.map_cons, contents, List.length_cons, List.range'_succ, List.map_cons]
      · intro candidate member
        rcases List.mem_cons.mp member with rfl | inside
        · exact ⟨attempt, by rw [temp, final]⟩
        · exact temps candidate inside

theorem readArchive_ok (read : readArchive files archivePath = .ok archive) :
    files.symlinkMetadata archivePath = some (.file archive) := by
  unfold readArchive at read
  cases found : files.symlinkMetadata archivePath with
  | none => simp [found] at read
  | some entry =>
    cases entry with
    | directory => simp [found] at read
    | file bytes =>
      simp only [found, Except.ok.injEq] at read
      rw [read]

/-- No path that splitting touches is one of its temporary files. -/
theorem sevenz_apart_from_temps {count : Nat} (held : Staged base files staged)
    (named : PathBuf.fileName destination ≠ none)
    (finals : staged.map (·.1.finalPath) = sevenzVolumePaths destination count)
    (temps : ∀ output ∈ staged, ∃ attempt,
      output.1.tempPath = AtomicOutputFile.tempPathAt names output.1.finalPath attempt) :
    ∀ path ∈ destination :: (staged.map (·.1.finalPath) ++
        existing7zVolumePaths order base destination),
      ∀ output ∈ staged, Files.place path ≠ Files.place output.1.tempPath := by
  intro path member output inside same
  obtain ⟨attempt, temp⟩ := temps output inside
  obtain ⟨index, -, final⟩ : ∃ index ∈ List.range' 1 count,
      sevenzVolumePath destination index = output.1.finalPath := by
    have listed : output.1.finalPath ∈ sevenzVolumePaths destination count := by
      rw [← finals]
      exact List.mem_map.mpr ⟨output, inside, rfl⟩
    exact List.mem_map.mp listed
  rw [temp] at same
  obtain ⟨name, nameOf⟩ := Option.ne_none_iff_exists'.mp named
  simp only [List.mem_cons, List.mem_append] at member
  rcases member with rfl | volume | old
  · -- the destination: its name is shorter than any temporary name
    have equal := fileName_eq_of_place_eq nameOf
      (AtomicOutputFile.fileName_tempPathAt _ _ _) same
    have longer := @AtomicOutputFile.length_lt_tempName names output.1.finalPath attempt _
      (by rw [← final]; exact fileName_appendToName _ _)
    rw [← equal, nameOf, Option.getD_some, List.length_append] at longer
    omega
  · -- a volume: its name ends in a digit
    rw [finals] at volume
    obtain ⟨other, -, rfl⟩ := List.mem_map.mp volume
    have equal := fileName_eq_of_place_eq (fileName_appendToName _ _)
      (AtomicOutputFile.fileName_tempPathAt _ _ _) same
    obtain ⟨digit, ending, isDigit⟩ := Text.getLast?_append_padded
      ((PathBuf.fileName destination).getD [] ++ ['.'])
    rw [List.append_assoc, List.singleton_append, equal, AtomicOutputFile.getLast?_tempName]
      at ending
    cases ending
    cases isDigit
  · -- an old volume: a temporary file was not there before
    unfold existing7zVolumePaths at old
    rw [nameOf] at old
    obtain ⟨found, part, -, rfl, present⟩ := mem_existingVolumePaths old
    rw [place_concat] at same
    exact held.fresh output inside (by rw [temp, ← same]; exact present)

/-- What a successful split leaves: old volumes and the destination removed when
they may be replaced, and the pieces of the archive at the volume paths. -/
def sevenzVolumes (staged : List (AtomicOutputFile × List UInt8)) (destination : PathBuf)
    (volumeSize : Nat) (archive : List UInt8) : Prop :=
  staged.map (·.1.finalPath) =
      sevenzVolumePaths destination (splitVolumeCount archive.length volumeSize) ∧
    staged.map (·.2) = (List.range (splitVolumeCount archive.length volumeSize)).map
      (Bytes.piece volumeSize archive)

/-- **Outcome of a split.** A failure leaves everything as it was; a success has
replaced the old volumes by the new ones. -/
theorem split7zTempArchive_cases {result : Except SevenZError Nat}
    (finished : split7zTempArchive order names files archivePath destination volumeSize
      replaceExisting = (result, last)) :
    (∃ failure, result = .error failure ∧ last = files) ∨
      ∃ archive staged, files.symlinkMetadata archivePath = some (.file archive) ∧
        (∀ path ∈ destination ::
            (sevenzVolumePaths destination (splitVolumeCount archive.length volumeSize) ++
              existing7zVolumePaths order files destination),
          files.IsAvailable replaceExisting path) ∧
        sevenzVolumes staged destination volumeSize archive ∧
        result = .ok (splitVolumeCount archive.length volumeSize) ∧
        last = publish staged (if replaceExisting then
          removeAll (existing7zVolumePaths order files destination ++ [destination]) files
          else files) := by
  unfold split7zTempArchive at finished
  cases read : readArchive files archivePath with
  | error failure =>
    simp only [read, Prod.mk.injEq] at finished
    exact .inl ⟨failure, finished.1.symm, finished.2.symm⟩
  | ok archive =>
    simp only [read] at finished
    cases checked : ensureSplitDestinationsAvailable files destination
        (sevenzVolumePaths destination (splitVolumeCount archive.length volumeSize))
        (existing7zVolumePaths order files destination) replaceExisting with
    | error failure =>
      simp only [checked, Prod.mk.injEq] at finished
      exact .inl ⟨_, finished.1.symm, finished.2.symm⟩
    | ok value =>
      cases value
      have available := ensureSplitDestinationsAvailable_ok.mp checked
      simp only [checked] at finished
      rcases outcome : stage7zVolumes names archive.length volumeSize 0
          (sevenzVolumePaths destination (splitVolumeCount archive.length volumeSize)) archive
          [] files with ⟨result', middle⟩
      rw [outcome] at finished
      cases result' with
      | error failure =>
        simp only [Prod.mk.injEq] at finished
        refine .inl ⟨failure, finished.1.symm, ?_⟩
        rw [← finished.2]
        exact stage7zVolumes_error (Staged.nil files) outcome
      | ok outputs =>
        obtain ⟨staged, same, held, finals, contents, temps⟩ :=
          @stage7zVolumes_ok names files files middle volumeSize [] archive 0 _ _
            (Staged.nil files) (by simpa using outcome)
        rw [List.nil_append] at same held
        have named : PathBuf.fileName destination ≠ none := by
          intro nameless
          refine (available destination (List.mem_cons_self ..)).1 ?_
          rw [Files.symlinkMetadata, if_pos nameless]
        have distinct : (staged.map fun output =>
            Files.place output.1.finalPath).Nodup := by
          have places := nodup_sevenzVolumePaths destination
            (splitVolumeCount archive.length volumeSize)
          rw [← finals, List.map_map] at places
          exact places
        have committed := held.commitSplitVolumes (fun _ => destination)
          (by rw [finals]; exact available) distinct
          (sevenz_apart_from_temps held named finals temps)
        simp only [same, committed, Prod.mk.injEq] at finished
        refine .inr ⟨archive, staged, readArchive_ok read, available, ⟨finals, ?_⟩, ?_,
          finished.2.symm⟩
        · rw [contents, List.range_eq_range']
          simp [sevenzVolumePaths]
        · rw [← finished.1]
          simp [sevenzVolumePaths]

end

end ZManager
