import ZManager.Create.SplitZipRoundTrip
import ZManager.Create.SplitZipWriter
import ZManager.Zip.VolumeStream

/-! # The outcome of splitting a ZIP archive

A split that fails leaves every file as it was. One that succeeds has removed
the old volumes, when they may be replaced, and holds the pieces of the split
stream at the volume paths.
-/

namespace ZManager

/-! ## Volume paths and temporary paths -/

/-- The only destinations with a base path are those with a `.zip` extension. -/
theorem exists_zipDestination {destination : Destination} {base : PathBuf}
    (based : splitZipBasePath destination.path = .ok base) :
    ∃ zip : ZipDestination, zip.toDestination = destination := by
  unfold splitZipBasePath at based
  split_ifs at based with extended
  cases found : PathBuf.extension destination.path with
  | none => simp [found] at extended
  | some extension =>
    rw [found] at extended
    unfold PathBuf.extension at found
    rw [Destination.path, fileName_concat, Option.bind_some] at found
    refine ⟨⟨destination, (PathBuf.stemAndExtension destination.name).1, extension, ?_, ?_⟩, rfl⟩
    · rw [← found]
    · simpa using extended

namespace ZipDestination

variable (destination : ZipDestination) {base : PathBuf} {count : Nat} {paths : List PathBuf}

/-- The sidecars either all lack a name or share a stem. -/
theorem sidecarPaths (based : splitZipBasePath destination.path = .ok base) :
    (∀ index, PathBuf.fileName (splitZipSidecarPath base index) = none) ∨
      ∃ stem, ∀ index, splitZipSidecarPath base index =
        destination.directory ++ [Component.normal (sidecarName stem index)] := by
  rcases destination.isEntryName_stem_or with valid | dots
  · rw [destination.basePath_entry valid] at based
    cases based
    by_cases dotted : '.' ∈ destination.stem.tail
    · rcases @splitZipSidecarPath_dotted destination.directory _ valid dotted with
        upward | ⟨shorter, -, named⟩
      · left
        intro index
        rw [upward, fileName_parentDir]
      · exact .inr ⟨shorter, named⟩
    · exact .inr ⟨_, splitZipSidecarPath_simple valid dotted⟩
  · rw [destination.basePath_dots dots] at based
    cases based
    left
    intro index
    rw [splitZipSidecarPath_parentDir, fileName_parentDir]

/-- The sidecars of a stem beside the destination, and the destination. -/
def sidecarsAndDestination (stem : Text) (sidecars : Nat) : List PathBuf :=
  (List.range' 1 sidecars).map (fun index =>
    destination.directory ++ [Component.normal (sidecarName stem index)]) ++ [destination.path]

/-- A volume that has a name is the destination or a numbered sidecar beside it. -/
theorem volumePaths_cases (listed : splitZipVolumePaths destination.path count = .ok paths)
    (named : ∀ path ∈ paths, PathBuf.fileName path ≠ none) :
    ∃ stem sidecars, paths = destination.sidecarsAndDestination stem sidecars := by
  unfold splitZipVolumePaths at listed
  by_cases single : count ≤ 1
  · rw [if_pos single] at listed
    cases listed
    exact ⟨[], 0, rfl⟩
  · rw [if_neg single] at listed
    obtain ⟨base, based, listed⟩ := Except.bind_eq_ok_iff.mp listed
    cases listed
    rcases destination.sidecarPaths based with nameless | ⟨stem, sidecar⟩
    · refine absurd (nameless 1) (named _ ?_)
      exact List.mem_append_left _ (List.mem_map.mpr ⟨1, List.mem_range'_1.mpr (by omega), rfl⟩)
    · refine ⟨stem, count - 1, ?_⟩
      rw [List.map_congr_left fun index _ => sidecar index]
      rfl

end ZipDestination

theorem getLast?_sidecarName (stem : Text) (index : Nat) :
    ∃ digit, (sidecarName stem index).getLast? = some digit ∧ digit.isDigit := by
  have split : sidecarName stem index = (stem ++ ['.', 'z']) ++ Text.padded 2 index := by
    simp [sidecarName]
  rw [split]
  exact Text.getLast?_append_padded _

/-- A destination with a `.zip` extension ends in a letter. -/
theorem ZipDestination.name_ne_of_digit (destination : ZipDestination) {name : Text} {digit : Char}
    (ending : name.getLast? = some digit) (isDigit : digit.isDigit) : destination.name ≠ name := by
  intro same
  have last : digit ∈ destination.extension := by
    rw [← same, destination.name_eq.2.1, List.getLast?_append] at ending
    cases tail : destination.extension with
    | nil =>
      have zip := destination.isZip
      rw [tail] at zip
      cases zip
    | cons head rest =>
      rw [tail, List.getLast?_cons_cons, List.getLast?_cons, Option.some_or] at ending
      rw [← List.getLast?_cons] at ending
      exact List.mem_of_getLast? ending
  have lowered : digit.toLower ∈ toAsciiLowercase destination.extension :=
    List.mem_map_of_mem last
  rw [destination.isZip, toLower_of_plain (isAlpha_eq_false_of_isDigit isDigit)] at lowered
  have letters : digit = 'z' ∨ digit = 'i' ∨ digit = 'p' := by simpa using lowered
  rcases letters with rfl | rfl | rfl <;> cases isDigit

section

variable {destination : ZipDestination} {stem : Text} {sidecars : Nat}

theorem nodup_sidecarsAndDestination :
    ((destination.sidecarsAndDestination stem sidecars).map Files.place).Nodup := by
  unfold ZipDestination.sidecarsAndDestination
  rw [List.map_append, List.map_map, List.map_singleton, List.nodup_append]
  refine ⟨?_, List.nodup_singleton _, ?_⟩
  · apply List.Nodup.map _ List.nodup_range'
    intro index index' same
    have names := fileName_eq_of_place_eq (fileName_concat _ _) (fileName_concat _ _) same
    have numerals := List.append_cancel_left names
    exact padded_injective 2 (List.tail_eq_of_cons_eq (List.tail_eq_of_cons_eq numerals))
  · intro sidecar member final last same
    obtain ⟨index, -, rfl⟩ := List.mem_map.mp member
    rw [List.mem_singleton.mp last] at same
    have names := fileName_eq_of_place_eq (fileName_concat _ _) (fileName_concat _ _) same
    obtain ⟨digit, ending, isDigit⟩ := getLast?_sidecarName stem index
    exact destination.name_ne_of_digit ending isDigit names.symm

theorem rsplitOnce_tempName (names : TempNames) (finalPath : PathBuf) (attempt : Nat) :
    ∃ before, Text.rsplitOnce '.' (AtomicOutputFile.tempName names finalPath attempt) =
      some (before, "tmp".toList) := by
  have ending : ".tmp".toList = '.' :: "tmp".toList := by simp
  unfold AtomicOutputFile.tempName
  rw [ending]
  exact ⟨_, Text.rsplitOnce_append (by decide)⟩

/-- No path that splitting touches is one of its temporary files. -/
theorem zip_apart_from_temps {names : TempNames} {order : ReadOrder} {base files : Files}
    {staged : List (AtomicOutputFile × List UInt8)} {existing : List PathBuf}
    (held : Staged base files staged)
    (temps : ∀ output ∈ staged, ∃ attempt,
      output.1.tempPath = AtomicOutputFile.tempPathAt names output.1.finalPath attempt)
    (found : existingSplitZipVolumePaths order base destination.path = .ok existing) :
    ∀ path ∈ destination.path :: (destination.sidecarsAndDestination stem sidecars ++ existing),
      ∀ output ∈ staged, Files.place path ≠ Files.place output.1.tempPath := by
  intro path member output inside same
  obtain ⟨attempt, temp⟩ := temps output inside
  rw [temp] at same
  have tempNamed := AtomicOutputFile.fileName_tempPathAt names output.1.finalPath attempt
  have not_destination : path ≠ destination.path := by
    rintro rfl
    have equal := fileName_eq_of_place_eq (fileName_concat _ _) tempNamed same
    obtain ⟨before, split⟩ := rsplitOnce_tempName names output.1.finalPath attempt
    rw [← equal, destination.rsplitOnce_name] at split
    have zip := destination.isZip
    rw [(Prod.mk.inj (Option.some.inj split)).2] at zip
    exact absurd zip (by decide)
  simp only [ZipDestination.sidecarsAndDestination, List.mem_cons, List.mem_append, List.not_mem_nil,
    or_false] at member
  rcases member with rfl | (sidecar | rfl) | old
  · exact not_destination rfl
  · -- a sidecar: its name ends in a digit
    obtain ⟨index, -, rfl⟩ := List.mem_map.mp sidecar
    have equal := fileName_eq_of_place_eq (fileName_concat _ _) tempNamed same
    obtain ⟨digit, ending, isDigit⟩ := getLast?_sidecarName stem index
    rw [equal, AtomicOutputFile.getLast?_tempName] at ending
    cases ending
    cases isDigit
  · exact not_destination rfl
  · -- an old volume: a temporary file was not there before
    rcases destination.isEntryName_stem_or with valid | dots
    · rw [destination.existing_entry order base valid] at found
      cases found
      obtain ⟨name, part, -, rfl, present⟩ := mem_existingVolumePaths old
      rw [place_concat] at same
      exact held.fresh output inside (by rw [temp, ← same]; exact present)
    · rw [destination.existing_dots order base dots] at found
      cases found
      cases old

end

/-! ## Runs of the writer -/

/-- A run of the writer has dropped everything, or it has replaced the old volumes
by the pieces of a stream. -/
def Publishes (base : Files) (destination : PathBuf) (existing : List PathBuf)
    (replaceExisting : Bool) (paths : List PathBuf) (volumeSize : Nat) (stream : List UInt8)
    (outcome : Except ZipBackendError Unit × Files) : Prop :=
  (∃ failure, outcome = (.error failure, base)) ∨
    ∃ staged : List (AtomicOutputFile × List UInt8),
      outcome = (.ok (), publish staged (if replaceExisting then
        removeAll (existing ++ [destination]) base else base)) ∧
      staged.map (·.1.finalPath) = paths ∧
      staged.map (·.2) = (List.range paths.length).map (Bytes.piece volumeSize stream)

section

variable {names : TempNames} {order : ReadOrder} {base : Files} {destination : ZipDestination}
  {paths existing : List PathBuf} {volumeSize count : Nat} {replaceExisting : Bool}

/-- Finishing a writer whose volumes are the destination's. -/
theorem publishes_finish {files : Files} {writer : ZipSplitVolumeWriter}
    {staged : List (AtomicOutputFile × List UInt8)} {stream : List UInt8}
    (holds : writer.Holds names base files staged stream)
    (listed : splitZipVolumePaths destination.path count = .ok writer.paths)
    (found : existingSplitZipVolumePaths order base destination.path = .ok existing)
    (available : ∀ path ∈ destination.path :: (writer.paths ++ existing),
      base.IsAvailable replaceExisting path) :
    Publishes base destination.path existing replaceExisting writer.paths writer.volumeSize stream
      (writer.finish destination.path existing replaceExisting files) := by
  have named : ∀ path ∈ writer.paths, PathBuf.fileName path ≠ none := by
    intro path member nameless
    refine (available path ?_).1 (by rw [Files.symlinkMetadata, if_pos nameless])
    exact List.mem_cons_of_mem _ (List.mem_append_left _ member)
  obtain ⟨stem, sidecars, computed⟩ := destination.volumePaths_cases listed named
  rcases holds.finish available (by rw [computed]; exact nodup_sidecarsAndDestination)
    (by rw [computed]; exact zip_apart_from_temps holds.held holds.temps found) with
    failed | ⟨done, finals⟩
  · exact .inl failed
  · refine .inr ⟨staged, done, finals, ?_⟩
    have lengths := congrArg List.length finals
    rw [List.length_map, holds.index] at lengths
    rw [holds.contents, lengths]

/-- An archive that fits in one volume is published whole. -/
theorem publishes_single {archive : List UInt8}
    (found : existingSplitZipVolumePaths order base destination.path = .ok existing)
    (available : ∀ path ∈ destination.path :: ([destination.path] ++ existing),
      base.IsAvailable replaceExisting path) :
    Publishes base destination.path existing replaceExisting [destination.path]
      (max archive.length 1) archive
      (writeSingleZipVolume names archive destination.path existing replaceExisting base) := by
  unfold writeSingleZipVolume
  apply ZipSplitVolumeWriter.new_continues.andThen
  · exact fun failure => .inl ⟨failure, rfl⟩
  intro writer files staged holds paths size
  have copied := @ZipSplitVolumeWriter.Holds.copyFrom names base files writer staged []
    destination.path archive.length archive holds (by rw [size]; exact Nat.le_max_right _ _)
    (Nat.le_refl _)
  rw [List.nil_append, List.take_length] at copied
  apply copied.andThen
  · exact fun failure => .inl ⟨failure, rfl⟩
  intro writer' files' staged' holds' paths' size'
  have paths' : writer'.paths = [destination.path] := paths'.trans paths
  have size' : writer'.volumeSize = max archive.length 1 := size'.trans size
  rw [← paths', ← size']
  rw [← paths'] at available
  exact publishes_finish holds' (show splitZipVolumePaths destination.path 1 =
      _ by rw [paths']; rfl)
    found available

/-- An archive that is split is published in pieces behind its signature. -/
theorem publishes_volumes {archive central eocd : List UInt8} {archivePath : PathBuf}
    {centralDirectoryOffset : Nat} (positive : 0 < volumeSize)
    (inside : centralDirectoryOffset ≤ archive.length)
    (listed : splitZipVolumePaths destination.path count = .ok paths)
    (found : existingSplitZipVolumePaths order base destination.path = .ok existing)
    (available : ∀ path ∈ destination.path :: (paths ++ existing),
      base.IsAvailable replaceExisting path) :
    Publishes base destination.path existing replaceExisting paths volumeSize
      (zipSplitSignature ++ archive.take centralDirectoryOffset ++ central ++ eocd)
      (writeZipVolumes names archivePath archive centralDirectoryOffset central eocd paths
        volumeSize destination.path existing replaceExisting base) := by
  unfold writeZipVolumes
  apply ZipSplitVolumeWriter.new_continues.andThen
  · exact fun failure => .inl ⟨failure, rfl⟩
  intro writer files staged holds same size
  have size : writer.volumeSize = volumeSize := size
  apply (holds.writeAll (by omega) zipSplitSignature).andThen
  · exact fun failure => .inl ⟨failure, rfl⟩
  intro writer₁ files₁ staged₁ holds₁ same₁ size₁
  apply (holds₁.copyFrom (by omega) inside).andThen
  · exact fun failure => .inl ⟨failure, rfl⟩
  intro writer₂ files₂ staged₂ holds₂ same₂ size₂
  apply (holds₂.writeAll (by omega) central).andThen
  · exact fun failure => .inl ⟨failure, rfl⟩
  intro writer₃ files₃ staged₃ holds₃ same₃ size₃
  apply (holds₃.writeAll (by omega) eocd).andThen
  · exact fun failure => .inl ⟨failure, rfl⟩
  intro writer₄ files₄ staged₄ holds₄ same₄ size₄
  have paths₄ : writer₄.paths = paths := by rw [same₄, same₃, same₂, same₁, same]
  have volumes₄ : writer₄.volumeSize = volumeSize := by omega
  rw [← paths₄] at listed available
  have published := publishes_finish holds₄ listed found available
  rwa [paths₄, volumes₄, List.nil_append] at published

end

/-! ## The outcome -/

/-- The split stream of an archive, as the volumes hold it. -/
def splitZipStream (archive : List UInt8) (volumeSize : Nat) (eocd : ZipEndOfCentralDirectory) :
    Except ZipBackendError (List UInt8) := do
  let layout ← ZipSplitLayout.new (archive.length + 4) volumeSize eocd
  let (central, eocdBytes) ← splitZipRecords archive volumeSize layout eocd
  return zipSplitSignature ++ archive.take eocd.centralDirectoryOffset ++ central ++ eocdBytes

/-- The central directory that the end record names lies before the record. -/
theorem readZipEocd_eq_ok {archive : List UInt8} {eocd : ZipEndOfCentralDirectory}
    (read : readZipEocd archive = .ok eocd) :
    eocd.centralDirectoryOffset + eocd.centralDirectorySize + zipEocdMinSize ≤ archive.length ∧
      findEndRecord archive = some (eocd.centralDirectoryOffset + eocd.centralDirectorySize) := by
  unfold readZipEocd at read
  cases found : findEndRecord archive with
  | none => simp [found] at read
  | some offset =>
    simp only [found] at read
    split_ifs at read with locator disks markers counts gap
    cases read
    obtain ⟨inside, -⟩ := findEndRecord_eq_some found
    simp only
    have reached : Bytes.readU32 (archive.drop offset) 16 +
      Bytes.readU32 (archive.drop offset) 12 = offset := by omega
    rw [reached]
    exact ⟨inside, rfl⟩

theorem readZipArchive_ok {files : Files} {archivePath : PathBuf} {archive : List UInt8}
    (read : readZipArchive files archivePath = .ok archive) :
    files.symlinkMetadata archivePath = some (.file archive) := by
  unfold readZipArchive at read
  cases found : files.symlinkMetadata archivePath with
  | none => simp [found] at read
  | some entry =>
    cases entry with
    | directory => simp [found] at read
    | file bytes =>
      simp only [found, Except.ok.injEq] at read
      rw [read]

section

variable {order : ReadOrder} {names : TempNames} {files last : Files} {archivePath : PathBuf}
  {destination : Destination} {volumeSize : Nat} {replaceExisting : Bool}

/-- What a successful split has done. -/
structure SplitZipDone (order : ReadOrder) (files : Files) (archivePath : PathBuf)
    (destination : Destination) (volumeSize : Nat) (replaceExisting : Bool) (count : Nat)
    (last : Files) (archive : List UInt8) (eocd : ZipEndOfCentralDirectory)
    (paths existing : List PathBuf) (staged : List (AtomicOutputFile × List UInt8)) : Prop where
  isZip : ∃ zip : ZipDestination, zip.toDestination = destination
  archived : files.symlinkMetadata archivePath = some (.file archive)
  record : readZipEocd archive = .ok eocd
  listed : splitZipVolumePaths destination.path count = .ok paths
  found : existingSplitZipVolumePaths order files destination.path = .ok existing
  available : ∀ path ∈ destination.path :: (paths ++ existing),
    files.IsAvailable replaceExisting path
  finals : staged.map (·.1.finalPath) = paths
  published : last = publish staged (if replaceExisting then
    removeAll (existing ++ [destination.path]) files else files)
  contents : (archive.length ≤ volumeSize ∧ count = 1 ∧ staged.map (·.2) = [archive]) ∨
    volumeSize < archive.length ∧ count = splitVolumeCount (archive.length + 4) volumeSize ∧
      ∃ stream, splitZipStream archive volumeSize eocd = .ok stream ∧
        staged.map (·.2) = (List.range paths.length).map (Bytes.piece volumeSize stream)

theorem Publishes.andThen_count {base : Files} {path : PathBuf} {existing paths : List PathBuf}
    {size count : Nat} {stream : List UInt8} {outcome : Except ZipBackendError Unit × Files}
    {result : Except ZipBackendError Nat}
    (publishes : Publishes base path existing replaceExisting paths size stream outcome)
    (finished : andThen outcome (fun _ files => (.ok count, files)) = (result, last)) :
    (∃ failure, result = .error failure ∧ last = base) ∨
      ∃ staged : List (AtomicOutputFile × List UInt8), result = .ok count ∧
        last = publish staged (if replaceExisting then
          removeAll (existing ++ [path]) base else base) ∧
        staged.map (·.1.finalPath) = paths ∧
        staged.map (·.2) = (List.range paths.length).map (Bytes.piece size stream) := by
  rcases publishes with ⟨failure, rfl⟩ | ⟨staged, rfl, finals, contents⟩
  · cases finished
    exact .inl ⟨failure, rfl, rfl⟩
  · cases finished
    exact .inr ⟨staged, rfl, rfl, finals, contents⟩

variable {archive : List UInt8} {eocd : ZipEndOfCentralDirectory}
  {result : Except ZipBackendError Nat}

/-- The outcome for an archive that does not fit in one volume. -/
theorem splitZipVolumes_cases (positive : 0 < volumeSize)
    (archived : files.symlinkMetadata archivePath = some (.file archive))
    (record : readZipEocd archive = .ok eocd) (large : volumeSize < archive.length)
    (finished : splitZipVolumes order names files archivePath destination.path archive eocd
      volumeSize replaceExisting = (result, last)) :
    (∃ failure, result = .error failure ∧ last = files) ∨
      ∃ count paths existing staged, result = .ok count ∧
        SplitZipDone order files archivePath destination volumeSize replaceExisting count last
          archive eocd paths existing staged := by
  unfold splitZipVolumes at finished
  by_cases overflow : 2 ^ 64 ≤ archive.length + 4
  · rw [if_pos overflow] at finished
    cases finished
    exact .inl ⟨_, rfl, rfl⟩
  rw [if_neg overflow] at finished
  simp only at finished
  split at finished
  next failure _ =>
    cases finished
    exact .inl ⟨failure, rfl, rfl⟩
  next paths existing central eocdBytes prepared =>
    obtain ⟨layout, laid, prepared⟩ := Except.bind_eq_ok_iff.mp prepared
    obtain ⟨_, listed, prepared⟩ := Except.bind_eq_ok_iff.mp prepared
    obtain ⟨_, found, prepared⟩ := Except.bind_eq_ok_iff.mp prepared
    obtain ⟨_, checked, prepared⟩ := Except.bind_eq_ok_iff.mp prepared
    obtain ⟨records, patched, prepared⟩ := Except.bind_eq_ok_iff.mp prepared
    cases prepared
    have available := ensureSplitDestinationsAvailable_ok.mp (Except.mapError_eq_ok.mp checked)
    obtain ⟨base, based, -⟩ := Except.bind_eq_ok_iff.mp found
    obtain ⟨zip, rfl⟩ := exists_zipDestination based
    have inside := (readZipEocd_eq_ok record).1
    rcases (publishes_volumes positive (by omega) listed found available).andThen_count finished
      with failed | ⟨staged, done, published, finals, contents⟩
    · exact .inl failed
    · have stream : splitZipStream archive volumeSize eocd = .ok (zipSplitSignature ++
          archive.take eocd.centralDirectoryOffset ++ records.1 ++ records.2) := by
        unfold splitZipStream
        rw [laid]
        simp only [bind, Except.bind, patched]
        rfl
      exact .inr ⟨_, _, _, staged, done, ⟨⟨zip, rfl⟩, archived, record, listed, found, available,
        finals, published, .inr ⟨large, rfl, _, stream, contents⟩⟩⟩

/-- **Outcome of a split.** A failure leaves everything as it was; a success has
replaced the old volumes by the new ones. -/
theorem splitZipTempArchive_cases (positive : 0 < volumeSize)
    (finished : splitZipTempArchive order names files archivePath destination.path volumeSize
      replaceExisting = (result, last)) :
    (∃ failure, result = .error failure ∧ last = files) ∨
      ∃ count archive eocd paths existing staged, result = .ok count ∧
        SplitZipDone order files archivePath destination volumeSize replaceExisting count last
          archive eocd paths existing staged := by
  unfold splitZipTempArchive at finished
  simp only at finished
  split at finished
  next failure _ =>
    cases finished
    exact .inl ⟨failure, rfl, rfl⟩
  next archive eocd opened =>
    obtain ⟨_, read, opened⟩ := Except.bind_eq_ok_iff.mp opened
    obtain ⟨_, record, opened⟩ := Except.bind_eq_ok_iff.mp opened
    cases opened
    have archived := readZipArchive_ok read
    by_cases fits : archive.length ≤ volumeSize
    · rw [if_pos fits] at finished
      split at finished
      next failure _ =>
        cases finished
        exact .inl ⟨failure, rfl, rfl⟩
      next existing prepared =>
        obtain ⟨_, found, prepared⟩ := Except.bind_eq_ok_iff.mp prepared
        obtain ⟨_, checked, prepared⟩ := Except.bind_eq_ok_iff.mp prepared
        cases prepared
        have available := ensureSplitDestinationsAvailable_ok.mp (Except.mapError_eq_ok.mp checked)
        obtain ⟨base, based, -⟩ := Except.bind_eq_ok_iff.mp found
        obtain ⟨zip, rfl⟩ := exists_zipDestination based
        rcases (publishes_single found available).andThen_count finished with
          failed | ⟨staged, done, published, finals, contents⟩
        · exact .inl failed
        · have whole : Bytes.piece (max archive.length 1) archive 0 = archive := by
            rw [Bytes.piece, Nat.zero_mul, List.drop_zero, List.take_of_length_le]
            exact Nat.le_max_left _ _
          refine .inr ⟨1, archive, eocd, _, existing, staged, done, ⟨⟨zip, rfl⟩, archived, record,
            rfl, found, available, finals, published, .inl ⟨fits, rfl, ?_⟩⟩⟩
          simpa [whole] using contents
    · rw [if_neg fits] at finished
      rcases splitZipVolumes_cases positive archived record (by omega) finished with
        failed | ⟨count, paths, existing, staged, done, success⟩
      · exact .inl failed
      · exact .inr ⟨count, archive, eocd, paths, existing, staged, done, success⟩

end

end ZManager
