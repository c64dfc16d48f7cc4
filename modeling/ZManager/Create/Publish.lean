import ZManager.Create.FailedCreation

/-! # Publishing a created archive

The command line lets the backend write one archive to a temporary path beside
the destination, then links it into place: the old file is removed when it may be
replaced, the new one is hard-linked to the destination, and the temporary name is
unlinked. The bootstrap sidecar follows in the same way. Each file-system call may
fail, and a call that fails changes nothing.
-/

namespace ZManager

/-- The file-system calls of one publication. -/
inductive PublishStep where
  | inspect
  | removeOld
  | hardLink
  | removeTemp

/-- The file-system calls of a create command after its backend returned. -/
inductive CreateStep where
  | archive (step : PublishStep)
  | probeSidecar
  | sidecar (step : PublishStep)
  | removeTemp
  | removeTempSidecar

namespace Files

/-- `fs::remove_file`, which may fail. -/
def tryRemoveFile (fault : Option IoError) (path : PathBuf) (files : Files) :
    Except IoError Unit × Files :=
  match fault with
  | some source => (.error source, files)
  | none =>
    match files.symlinkMetadata path with
    | some (.file _) => (.ok (), files.removeFile path)
    | some .directory => (.error ⟨.isADirectory, "Is a directory (os error 21)"⟩, files)
    | none => (.error ⟨.notFound, "No such file or directory (os error 2)"⟩, files)

/-- `fs::hard_link`, which may fail. -/
def tryHardLink (fault : Option IoError) (source target : PathBuf) (files : Files) :
    Except IoError Unit × Files :=
  match fault with
  | some source => (.error source, files)
  | none =>
    match files.symlinkMetadata source, files.symlinkMetadata target with
    | none, _ => (.error ⟨.notFound, "No such file or directory (os error 2)"⟩, files)
    | some .directory, _ =>
      (.error ⟨.permissionDenied, "Operation not permitted (os error 1)"⟩, files)
    | some (.file _), some _ => (.error ⟨.alreadyExists, "File exists (os error 17)"⟩, files)
    | some (.file bytes), none => (.ok (), files.writeFile target bytes)

end Files

def removeFileDestinationForPublish (faults : PublishStep → Option IoError) (path : PathBuf)
    (files : Files) : Except IoError Unit × Files :=
  match faults .inspect with
  | some source => if source.kind = .notFound then (.ok (), files) else (.error source, files)
  | none =>
    match files.symlinkMetadata path with
    | none => (.ok (), files)
    | some .directory =>
      (.error ⟨.isADirectory, "cannot replace directory " ++ PathBuf.display path⟩, files)
    | some (.file _) => files.tryRemoveFile (faults .removeOld) path

/-- Moves the archive into place by a hard link. -/
def publishArchive (faults : PublishStep → Option IoError) (temp destination : PathBuf)
    (force : Bool) (files : Files) : Except IoError Unit × Files :=
  andThen (if force then removeFileDestinationForPublish faults destination files
      else (.ok (), files)) fun _ files =>
    andThen (files.tryHardLink (faults .hardLink) temp destination) fun _ files =>
      (.ok (), (files.tryRemoveFile (faults .removeTemp) temp).2)

/-- The name of the temporary archive of a destination. -/
def tempArchiveName (names : TempNames) (destination : PathBuf) : Text :=
  ".".toList ++ (PathBuf.fileName destination).getD "archive".toList ++ ".tmp".toList ++
    "-".toList ++ Nat.toDigits 10 names.processId ++ "-".toList ++
    Nat.toDigits 10 (names.now destination)

/-- The destination with its name replaced, or extended when it ends in none. -/
def tempArchivePath (names : TempNames) (destination : PathBuf) : PathBuf :=
  (if PathBuf.fileName destination = none then destination else destination.dropLast) ++
    [.normal (tempArchiveName names destination)]

/-- Shared create-failure path: cleans up the temp archive and reports the error. -/
def failCreate (fault : Option IoError) (temp : PathBuf) (error : String) (files : Files) :
    Except String Unit × Files :=
  (.error ("create failed: " ++ error), (files.tryRemoveFile fault temp).2)

/-- The report of an archive or sidecar that could not be moved. -/
def moveFailed (temp destination : PathBuf) (source : IoError) : String :=
  "create failed: failed to move " ++ PathBuf.display temp ++ " to " ++
    PathBuf.display destination ++ ": " ++ source.message

/-- The single-volume branch of a create command, from the backend's result on. -/
def runCreateRequest (core : TzapVolumeFiles) (names : TempNames)
    (faults : CreateStep → Option IoError) (destination : PathBuf) (force : Bool)
    (backend : Except String Unit) (files : Files) : Except String Unit × Files :=
  let temp := tempArchivePath names destination
  match backend with
  | .error error => failCreate (faults .removeTemp) temp error files
  | .ok () =>
    let tempSidecar := tzapBootstrapSidecarPath core temp
    match publishArchive (fun step => faults (.archive step)) temp destination force files with
    | (.error source, files) =>
      (.error (moveFailed temp destination source),
        ((files.tryRemoveFile (faults .removeTemp) temp).2.tryRemoveFile
          (faults .removeTempSidecar) tempSidecar).2)
    | (.ok (), files) =>
      -- A probe that fails counts as an absent sidecar.
      if faults .probeSidecar = none ∧ files.symlinkMetadata tempSidecar ≠ none then
        let destSidecar := tzapBootstrapSidecarPath core destination
        match publishArchive (fun step => faults (.sidecar step)) tempSidecar destSidecar force
            files with
        | (.error source, files) =>
          (.error (moveFailed tempSidecar destSidecar source),
            (files.tryRemoveFile (faults .removeTempSidecar) tempSidecar).2)
        | (.ok (), files) => (.ok (), files)
      else (.ok (), files)

/-! ## One publication -/

section

variable {faults : PublishStep → Option IoError} {force : Bool} {files : Files}
  {temp destination : PathBuf}

/-- An object that can be linked and unlinked. -/
def IsFileEntry (entry : Option DirectoryEntry) : Prop :=
  ∃ bytes, entry = some (.file bytes)

/-- The old file is removed and the link that should take its place fails. -/
def PublishLoses (faults : PublishStep → Option IoError) (force : Bool)
    (source target : Option DirectoryEntry) : Prop :=
  force = true ∧ faults .inspect = none ∧ IsFileEntry target ∧ faults .removeOld = none ∧
    (faults .hardLink ≠ none ∨ ¬IsFileEntry source)

/-- The old object stays and nothing is published: it cannot be inspected or removed,
it is in the way, or the link fails with nothing to replace. -/
def PublishRefuses (faults : PublishStep → Option IoError) (force : Bool)
    (source target : Option DirectoryEntry) : Prop :=
  if force = true ∧ faults .inspect = none then
    target = some .directory ∨ IsFileEntry target ∧ faults .removeOld ≠ none ∨
      target = none ∧ (faults .hardLink ≠ none ∨ ¬IsFileEntry source)
  else
    force = true ∧ (∃ error, faults .inspect = some error ∧ error.kind ≠ .notFound) ∨
      target ≠ none ∨ faults .hardLink ≠ none ∨ ¬IsFileEntry source

theorem tryHardLink_error {fault : Option IoError} {source target : PathBuf}
    (fails : fault ≠ none ∨ ¬IsFileEntry (files.symlinkMetadata source) ∨
      files.symlinkMetadata target ≠ none) :
    ∃ error, files.tryHardLink fault source target = (.error error, files) := by
  unfold Files.tryHardLink
  cases fault with
  | some error => exact ⟨error, rfl⟩
  | none =>
    cases found : files.symlinkMetadata source with
    | none => exact ⟨_, rfl⟩
    | some entry =>
      cases entry with
      | directory => exact ⟨_, rfl⟩
      | file bytes =>
        cases there : files.symlinkMetadata target with
        | some entry => exact ⟨_, rfl⟩
        | none =>
          rw [found, there] at fails
          simp [IsFileEntry] at fails

theorem tryHardLink_ok {source target : PathBuf} {bytes : List UInt8}
    (held : files.symlinkMetadata source = some (.file bytes))
    (free : files.symlinkMetadata target = none) :
    files.tryHardLink none source target = (.ok (), files.writeFile target bytes) := by
  unfold Files.tryHardLink
  simp only [held, free]

theorem tryRemoveFile_file {path : PathBuf} (file : IsFileEntry (files.symlinkMetadata path)) :
    (files.tryRemoveFile none path).2 = files.removeFile path := by
  obtain ⟨bytes, found⟩ := file
  unfold Files.tryRemoveFile
  simp only [found]

theorem tryRemoveFile_kept {fault : Option IoError} {path : PathBuf}
    (kept : fault ≠ none ∨ ¬IsFileEntry (files.symlinkMetadata path)) :
    (files.tryRemoveFile fault path).2 = files := by
  unfold Files.tryRemoveFile
  cases fault with
  | some error => rfl
  | none =>
    cases found : files.symlinkMetadata path with
    | none => rfl
    | some entry =>
      cases entry with
      | directory => rfl
      | file bytes =>
        rw [found] at kept
        simp [IsFileEntry] at kept

theorem symlinkMetadata_of_named {path : PathBuf} (named : PathBuf.fileName path ≠ none) :
    files.symlinkMetadata path = files.lookup (Files.place path) := by
  unfold Files.symlinkMetadata
  rw [if_neg named]

theorem named_of_free (free : files.symlinkMetadata destination = none) :
    PathBuf.fileName destination ≠ none := by
  intro nameless
  unfold Files.symlinkMetadata at free
  rw [if_pos nameless] at free
  cases free

/-- What a publication leaves when it succeeds. -/
def published (fault : Option IoError) (temp destination : PathBuf) (bytes : List UInt8)
    (files : Files) : Files :=
  ((files.writeFile destination bytes).tryRemoveFile fault temp).2

/-- The link and what follows it, once nothing is at the destination. -/
theorem link_cases (free : files.symlinkMetadata destination = none) :
    ((faults .hardLink ≠ none ∨ ¬IsFileEntry (files.symlinkMetadata temp)) ∧
      ∃ error, (andThen (files.tryHardLink (faults .hardLink) temp destination) fun _ files =>
        (.ok (), (files.tryRemoveFile (faults .removeTemp) temp).2)) = (.error error, files)) ∨
    (¬(faults .hardLink ≠ none ∨ ¬IsFileEntry (files.symlinkMetadata temp)) ∧
      ∃ bytes, files.symlinkMetadata temp = some (.file bytes) ∧
        (andThen (files.tryHardLink (faults .hardLink) temp destination) fun _ files =>
          (.ok (), (files.tryRemoveFile (faults .removeTemp) temp).2)) =
            ((.ok (), published (faults .removeTemp) temp destination bytes files) :
              Except IoError Unit × Files)) := by
  by_cases fails : faults .hardLink ≠ none ∨ ¬IsFileEntry (files.symlinkMetadata temp)
  · obtain ⟨error, linked⟩ := @tryHardLink_error files (faults .hardLink) temp destination
      (fails.imp_right .inl)
    exact .inl ⟨fails, error, by rw [linked]; rfl⟩
  · obtain ⟨works, bytes, held⟩ := not_or.mp fails |>.imp not_not.mp not_not.mp
    refine .inr ⟨fails, bytes, held, ?_⟩
    rw [works, tryHardLink_ok held free]
    rfl

theorem writeFile_removeFile (bytes : List UInt8) :
    (files.removeFile destination).writeFile destination bytes =
      files.writeFile destination bytes := by
  apply Finmap.ext_lookup
  intro path
  unfold Files.writeFile Files.removeFile
  by_cases same : path = Files.place destination
  · rw [same, Finmap.lookup_insert, Finmap.lookup_insert]
  · rw [Finmap.lookup_insert_of_ne _ same, Finmap.lookup_insert_of_ne _ same,
      Finmap.lookup_erase_ne same]

/-- A publication loses the old file, refuses with nothing changed, or succeeds. -/
theorem publishArchive_cases (named : PathBuf.fileName temp ≠ none)
    (apart : Files.place temp ≠ Files.place destination) :
    (PublishLoses faults force (files.symlinkMetadata temp) (files.symlinkMetadata destination) ∧
      PathBuf.fileName destination ≠ none ∧
      ∃ error, publishArchive faults temp destination force files =
        (.error error, files.removeFile destination)) ∨
    (¬PublishLoses faults force (files.symlinkMetadata temp)
        (files.symlinkMetadata destination) ∧
      PublishRefuses faults force (files.symlinkMetadata temp)
        (files.symlinkMetadata destination) ∧
      ∃ error, publishArchive faults temp destination force files = (.error error, files)) ∨
    (¬PublishLoses faults force (files.symlinkMetadata temp)
        (files.symlinkMetadata destination) ∧
      ¬PublishRefuses faults force (files.symlinkMetadata temp)
        (files.symlinkMetadata destination) ∧
      PathBuf.fileName destination ≠ none ∧
      ∃ bytes, files.symlinkMetadata temp = some (.file bytes) ∧
        publishArchive faults temp destination force files =
          (.ok (), published (faults .removeTemp) temp destination bytes files)) := by
  unfold PublishLoses PublishRefuses publishArchive
  by_cases clearing : force = true ∧ faults .inspect = none
  · obtain ⟨forced, inspected⟩ := clearing
    subst forced
    simp only [inspected, and_self, ↓reduceIte, true_and, removeFileDestinationForPublish]
    cases found : files.symlinkMetadata destination with
    | none =>
      rcases @link_cases faults files temp destination found with
        ⟨fails, error, ended⟩ | ⟨works, bytes, held, ended⟩
      · exact .inr (.inl ⟨by simp [IsFileEntry], .inr (.inr ⟨rfl, fails⟩), error, ended⟩)
      · refine .inr (.inr ⟨by simp [IsFileEntry], ?_, named_of_free found, bytes, held, ended⟩)
        rintro (directory | ⟨⟨_, file⟩, -⟩ | ⟨-, fails⟩)
        · cases directory
        · cases file
        · exact works fails
    | some entry =>
      have destinationNamed : PathBuf.fileName destination = none → entry = .directory := by
        intro nameless
        unfold Files.symlinkMetadata at found
        rw [if_pos nameless] at found
        exact (Option.some.inj found).symm
      cases entry with
      | directory =>
        exact .inr (.inl ⟨by simp [IsFileEntry], .inl rfl, _, rfl⟩)
      | file old =>
        have namedThere : PathBuf.fileName destination ≠ none := fun nameless =>
          DirectoryEntry.noConfusion (destinationNamed nameless)
        cases removal : faults .removeOld with
        | some error =>
          exact .inr (.inl ⟨by simp, .inr (.inl ⟨⟨old, rfl⟩, by simp⟩), error, rfl⟩)
        | none =>
          have removed : files.tryRemoveFile none destination =
              (.ok (), files.removeFile destination) := by
            unfold Files.tryRemoveFile
            simp only [found]
          have cleared : (files.removeFile destination).symlinkMetadata destination =
              none := by
            rw [symlinkMetadata_of_named namedThere]
            exact Finmap.lookup_erase _ _
          have kept : (files.removeFile destination).symlinkMetadata temp =
              files.symlinkMetadata temp := by
            rw [symlinkMetadata_of_named named, symlinkMetadata_of_named named]
            exact Finmap.lookup_erase_ne apart
          simp only [removed]
          rcases @link_cases faults (files.removeFile destination) temp destination cleared
            with ⟨fails, error, ended⟩ | ⟨works, bytes, held, ended⟩
          · rw [kept] at fails
            exact .inl ⟨⟨⟨old, rfl⟩, trivial, fails⟩, namedThere, error, ended⟩
          · rw [kept] at works held
            refine .inr (.inr ⟨fun lost => works lost.2.2, ?_, namedThere, bytes, held, ?_⟩)
            · rintro (directory | ⟨-, fails⟩ | ⟨gone, -⟩)
              · cases directory
              · exact fails rfl
              · cases gone
            · refine ended.trans ?_
              unfold published
              rw [writeFile_removeFile]
  · have noLoss : ¬(force = true ∧ faults .inspect = none ∧
        IsFileEntry (files.symlinkMetadata destination) ∧ faults .removeOld = none ∧
          (faults .hardLink ≠ none ∨ ¬IsFileEntry (files.symlinkMetadata temp))) :=
      fun lost => clearing ⟨lost.1, lost.2.1⟩
    simp only [clearing, ↓reduceIte]
    by_cases unseen : force = true ∧ ∃ error, faults .inspect = some error ∧
        error.kind ≠ .notFound
    · obtain ⟨forced, error, inspected, other⟩ := unseen
      refine .inr (.inl ⟨noLoss, .inl ⟨forced, error, inspected, other⟩, error, ?_⟩)
      simp only [forced, ↓reduceIte, removeFileDestinationForPublish, inspected, other]
      rfl
    · have passed : (if force = true then removeFileDestinationForPublish faults destination files
          else (.ok (), files)) = ((.ok (), files) : Except IoError Unit × Files) := by
        cases force with
        | false => rfl
        | true =>
          unfold removeFileDestinationForPublish
          cases inspected : faults .inspect with
          | none => exact absurd ⟨rfl, inspected⟩ clearing
          | some error =>
            by_cases missing : error.kind = .notFound
            · simp only [↓reduceIte, missing]
            · exact absurd ⟨rfl, error, inspected, missing⟩ unseen
      rw [passed]
      by_cases free : files.symlinkMetadata destination = none
      · rcases @link_cases faults files temp destination free with
          ⟨fails, error, ended⟩ | ⟨works, bytes, held, ended⟩
        · exact .inr (.inl ⟨noLoss, .inr (.inr fails), error, ended⟩)
        · refine .inr (.inr ⟨noLoss, ?_, named_of_free free, bytes, held, ended⟩)
          rintro (unseen' | there | fails)
          · exact unseen unseen'
          · exact there free
          · exact works fails
      · obtain ⟨error, linked⟩ := @tryHardLink_error files (faults .hardLink) temp destination
          (.inr (.inr free))
        refine .inr (.inl ⟨noLoss, .inr (.inl free), error, ?_⟩)
        simp only [andThen, linked]

end

/-! ## The paths of a command -/

section

variable {core : TzapVolumeFiles} {names : TempNames} {destination : PathBuf}

theorem length_lt_tempArchiveName {name : Text}
    (named : PathBuf.fileName destination = some name) :
    name.length + 8 < (tempArchiveName names destination).length := by
  have processId := @Nat.length_toDigits_pos 10 names.processId
  have now := @Nat.length_toDigits_pos 10 (names.now destination)
  have marked : ".tmp".toList.length = 4 := by decide
  have dot : ".".toList.length = 1 := by decide
  have dash : "-".toList.length = 1 := by decide
  unfold tempArchiveName
  rw [named]
  simp only [Option.getD_some, List.length_append]
  omega

theorem not_isTzapName_tempArchiveName : ¬IsTzapName (tempArchiveName names destination) := by
  intro tzap
  have digits : ∀ c ∈ Nat.toDigits 10 (names.now destination), c.isDigit := fun c member =>
    @Nat.isDigit_of_mem_toDigits 10 _ c (by decide) (by decide) member
  unfold IsTzapName tempArchiveName at tzap
  rw [toAsciiLowercase_append, toAsciiLowercase_of_digits digits] at tzap
  obtain ⟨front, whole⟩ := tzap
  have last : (Nat.toDigits 10 (names.now destination)).getLast? = some 'p' := by
    have last := congrArg List.getLast? whole
    rw [List.getLast?_append_of_ne_nil _ Nat.toDigits_ne_nil,
      List.getLast?_append_of_ne_nil _ (by decide)] at last
    exact last.symm.trans (by decide)
  exact absurd (digits 'p' (List.mem_of_getLast? last)) (by decide)

theorem sidecarName_ne (lawful : core.IsLawful) (name : Text) :
    core.multiVolumeBaseName name ++ ".sidecar".toList ≠ name := by
  intro same
  have marked : ".sidecar".toList.length = 8 := by decide
  rcases lawful.base_cases name with whole | ⟨suffix, split, tzap⟩
  · have lengths := congrArg List.length same
    rw [whole, List.length_append] at lengths
    omega
  · have suffixed : suffix = ".sidecar".toList :=
      (List.append_cancel_left (same.trans split)).symm
    rw [suffixed] at tzap
    exact not_isTzapName_sidecar [] tzap

theorem length_multiVolumeBaseName_le (lawful : core.IsLawful) (name : Text) :
    (core.multiVolumeBaseName name).length ≤ name.length := by
  rcases lawful.base_cases name with whole | ⟨suffix, split, -⟩
  · rw [whole]
  · have lengths := congrArg List.length split
    rw [List.length_append] at lengths
    omega

theorem fileName_tempArchivePath :
    PathBuf.fileName (tempArchivePath names destination) =
      some (tempArchiveName names destination) :=
  fileName_concat _ _

theorem tempArchivePath_named : PathBuf.fileName (tempArchivePath names destination) ≠ none := by
  rw [fileName_tempArchivePath]
  exact Option.some_ne_none _

theorem fileName_tzapBootstrapSidecarPath {name : Text}
    (named : PathBuf.fileName destination = some name) :
    PathBuf.fileName (tzapBootstrapSidecarPath core destination) =
      some (core.multiVolumeBaseName name ++ ".sidecar".toList) := by
  unfold tzapBootstrapSidecarPath
  rw [named]
  exact fileName_concat _ _

/-- The four paths of a command are apart. -/
structure CreatePathsApart (core : TzapVolumeFiles) (names : TempNames) (destination : PathBuf) :
    Prop where
  temp : Files.place (tempArchivePath names destination) ≠ Files.place destination
  tempSidecar : Files.place (tzapBootstrapSidecarPath core (tempArchivePath names destination)) ≠
    Files.place destination
  temps : Files.place (tzapBootstrapSidecarPath core (tempArchivePath names destination)) ≠
    Files.place (tempArchivePath names destination)
  named : PathBuf.fileName (tzapBootstrapSidecarPath core (tempArchivePath names destination)) ≠
    none
  sidecar : PathBuf.fileName destination ≠ none →
    PathBuf.fileName (tzapBootstrapSidecarPath core destination) ≠ none ∧
    Files.place (tzapBootstrapSidecarPath core destination) ≠ Files.place destination ∧
    Files.place (tzapBootstrapSidecarPath core destination) ≠
      Files.place (tempArchivePath names destination) ∧
    Files.place (tzapBootstrapSidecarPath core destination) ≠
      Files.place (tzapBootstrapSidecarPath core (tempArchivePath names destination))

theorem createPathsApart (lawful : core.IsLawful) : CreatePathsApart core names destination := by
  have tempNamed := @fileName_tempArchivePath names destination
  have sidecarNamed := @fileName_tzapBootstrapSidecarPath core _ _ tempNamed
  have marked : ".sidecar".toList.length = 8 := by decide
  have base : core.multiVolumeBaseName (tempArchiveName names destination) =
      tempArchiveName names destination := by
    rcases lawful.base_cases (tempArchiveName names destination) with
      whole | ⟨suffix, split, tzap⟩
    · exact whole
    · have ends := @IsTzapName.append
        (core.multiVolumeBaseName (tempArchiveName names destination)) suffix tzap
      rw [← split] at ends
      exact absurd ends not_isTzapName_tempArchiveName
  rw [base] at sidecarNamed
  have tempsApart : Files.place (tzapBootstrapSidecarPath core (tempArchivePath names
      destination)) ≠ Files.place (tempArchivePath names destination) := by
    intro same
    have lengths := congrArg List.length (fileName_eq_of_place_eq sidecarNamed tempNamed same)
    rw [List.length_append] at lengths
    omega
  have sidecarSome : PathBuf.fileName (tzapBootstrapSidecarPath core (tempArchivePath names
      destination)) ≠ none := by
    rw [sidecarNamed]
    exact Option.some_ne_none _
  cases named : PathBuf.fileName destination with
  | none =>
    have below : ∀ last, Files.place (destination ++ [Component.normal last]) ≠
        Files.place destination := by
      intro last same
      rw [place_concat] at same
      have lengths := congrArg List.length same
      rw [List.length_append, List.length_singleton] at lengths
      omega
    have tempPath : tempArchivePath names destination =
        destination ++ [Component.normal (tempArchiveName names destination)] := by
      unfold tempArchivePath
      rw [if_pos named]
    have sidecarPath : tzapBootstrapSidecarPath core (tempArchivePath names destination) =
        destination ++ [Component.normal (core.multiVolumeBaseName (tempArchiveName names destination) ++
          ".sidecar".toList)] := by
      unfold tzapBootstrapSidecarPath
      rw [tempNamed, tempPath]
      simp [PathBuf.parent]
    refine ⟨?_, ?_, tempsApart, sidecarSome, fun some => absurd named some⟩
    · rw [tempPath]
      exact below _
    · rw [sidecarPath]
      exact below _
  | some name =>
    have longer := @length_lt_tempArchiveName names destination name named
    have shorter := @length_multiVolumeBaseName_le core lawful name
    have destNamed := @fileName_tzapBootstrapSidecarPath core _ _ named
    refine ⟨?_, ?_, tempsApart, sidecarSome, fun _ => ⟨?_, ?_, ?_, ?_⟩⟩
    · intro same
      have lengths := congrArg List.length (fileName_eq_of_place_eq tempNamed named same)
      omega
    · intro same
      have lengths := congrArg List.length (fileName_eq_of_place_eq sidecarNamed named same)
      rw [List.length_append] at lengths
      omega
    · rw [destNamed]
      exact Option.some_ne_none _
    · intro same
      exact sidecarName_ne lawful name (fileName_eq_of_place_eq destNamed named same)
    · intro same
      have lengths := congrArg List.length (fileName_eq_of_place_eq destNamed tempNamed same)
      rw [List.length_append] at lengths
      omega
    · intro same
      have lengths := congrArg List.length (fileName_eq_of_place_eq destNamed sidecarNamed same)
      rw [List.length_append, List.length_append] at lengths
      omega

end

/-! ## What a failed command leaves -/

/-- The directory when the backend returned: its archive stands under the temporary
name, and its sidecar, if it wrote one, beside it. -/
def writtenByBackend (core : TzapVolumeFiles) (names : TempNames) (destination : PathBuf)
    (archive : List UInt8) (sidecar : Option (List UInt8)) (before : Files) : Files :=
  match sidecar with
  | none => before.writeFile (tempArchivePath names destination) archive
  | some bytes =>
    (before.writeFile (tempArchivePath names destination) archive).writeFile
      (tzapBootstrapSidecarPath core (tempArchivePath names destination)) bytes

/-- The destination holds the old bytes or the new archive, every other file is as
before, and no temporary file of the command is there. -/
structure CreateLosesNothing (core : TzapVolumeFiles) (names : TempNames) (destination : PathBuf)
    (archive : List UInt8) (sidecar : Option (List UInt8)) (before after : Files) : Prop where
  kept : after.lookup (Files.place destination) = before.lookup (Files.place destination) ∨
    after.lookup (Files.place destination) = some (.file archive)
  others : ∀ path, path ≠ Files.place destination → path ∈ before →
    after.lookup path = before.lookup path
  temp : Files.place (tempArchivePath names destination) ∉ after
  tempSidecar : sidecar ≠ none →
    Files.place (tzapBootstrapSidecarPath core (tempArchivePath names destination)) ∉ after

/-- What stands under the temporary sidecar's name when the backend returned. -/
def tempSidecarEntry (core : TzapVolumeFiles) (names : TempNames) (destination : PathBuf)
    (sidecar : Option (List UInt8)) (before : Files) : Option DirectoryEntry :=
  match sidecar with
  | some bytes => some (.file bytes)
  | none => before.lookup
      (Files.place (tzapBootstrapSidecarPath core (tempArchivePath names destination)))

/-- Removing the temporary sidecar takes away the command's own file, and no other. -/
def RemovesOwnSidecar (fault : Option IoError) (entry : Option DirectoryEntry)
    (sidecar : Option (List UInt8)) : Prop :=
  fault = none ∧ IsFileEntry entry ↔ sidecar ≠ none

/-- The calls that fail leave a failing command room to clean up: no old file is
removed before its replacement cannot be linked, and the temporary files can be
removed. -/
def FailsSafely (core : TzapVolumeFiles) (names : TempNames)
    (faults : CreateStep → Option IoError) (destination : PathBuf) (force : Bool)
    (backend : Except String Unit) (archive : List UInt8) (sidecar : Option (List UInt8))
    (before : Files) : Prop :=
  let entry := tempSidecarEntry core names destination sidecar before
  let old := before.symlinkMetadata destination
  let oldSidecar := before.symlinkMetadata (tzapBootstrapSidecarPath core destination)
  let archiveFaults := fun step => faults (.archive step)
  let sidecarFaults := fun step => faults (.sidecar step)
  match backend with
  | .error _ => faults .removeTemp = none ∧ sidecar = none
  | .ok () =>
    ¬PublishLoses archiveFaults force (some (.file archive)) old ∧
    (PublishRefuses archiveFaults force (some (.file archive)) old →
      faults .removeTemp = none ∧ RemovesOwnSidecar (faults .removeTempSidecar) entry sidecar) ∧
    (¬PublishRefuses archiveFaults force (some (.file archive)) old →
      faults .probeSidecar = none → entry ≠ none →
        ¬PublishLoses sidecarFaults force entry oldSidecar ∧
        (PublishRefuses sidecarFaults force entry oldSidecar →
          faults (.archive .removeTemp) = none ∧
            RemovesOwnSidecar (faults .removeTempSidecar) entry sidecar))

section

variable {core : TzapVolumeFiles} {names : TempNames} {faults : CreateStep → Option IoError}
  {destination : PathBuf} {force : Bool} {archive : List UInt8} {sidecar : Option (List UInt8)}
  {before after files : Files}

variable {fault : Option IoError}

theorem lookup_tryRemoveFile_ne {path other : PathBuf} (apart : other ≠ Files.place path) :
    (files.tryRemoveFile fault path).2.lookup other = files.lookup other := by
  by_cases removes : fault = none ∧ IsFileEntry (files.symlinkMetadata path)
  · rw [removes.1, tryRemoveFile_file removes.2]
    exact Finmap.lookup_erase_ne apart
  · rw [tryRemoveFile_kept (not_and_or.mp removes)]

/-- What stands under a name once it was tried to remove it. -/
def afterRemoval (fault : Option IoError) : Option DirectoryEntry → Option DirectoryEntry
  | some (.file bytes) => if fault = none then none else some (.file bytes)
  | entry => entry

theorem lookup_tryRemoveFile_self {path : PathBuf} (named : PathBuf.fileName path ≠ none) :
    (files.tryRemoveFile fault path).2.lookup (Files.place path) =
      afterRemoval fault (files.lookup (Files.place path)) := by
  have seen := @symlinkMetadata_of_named files path named
  by_cases removes : fault = none ∧ IsFileEntry (files.symlinkMetadata path)
  · obtain ⟨rfl, bytes, file⟩ := removes
    rw [tryRemoveFile_file ⟨bytes, file⟩, ← seen, file]
    exact Finmap.lookup_erase _ _
  · rw [tryRemoveFile_kept (not_and_or.mp removes), ← seen]
    cases found : files.symlinkMetadata path with
    | none => rfl
    | some entry =>
      cases entry with
      | directory => rfl
      | file bytes =>
        have faulty : fault ≠ none := fun works => removes ⟨works, bytes, found⟩
        exact (if_neg faulty).symm

/-- What the backend left, path by path. -/
theorem lookup_writtenByBackend (apart : CreatePathsApart core names destination) :
    (writtenByBackend core names destination archive sidecar before).lookup
        (Files.place (tempArchivePath names destination)) = some (.file archive) ∧
    (writtenByBackend core names destination archive sidecar before).lookup
        (Files.place (tzapBootstrapSidecarPath core (tempArchivePath names destination))) =
      tempSidecarEntry core names destination sidecar before ∧
    ∀ path, path ≠ Files.place (tempArchivePath names destination) →
      path ≠ Files.place (tzapBootstrapSidecarPath core (tempArchivePath names destination)) →
      (writtenByBackend core names destination archive sidecar before).lookup path =
        before.lookup path := by
  unfold writtenByBackend tempSidecarEntry Files.writeFile
  cases sidecar with
  | none =>
    refine ⟨Finmap.lookup_insert _, Finmap.lookup_insert_of_ne _ apart.temps, ?_⟩
    intro path other _
    exact Finmap.lookup_insert_of_ne _ other
  | some bytes =>
    refine ⟨?_, Finmap.lookup_insert _, ?_⟩
    · rw [Finmap.lookup_insert_of_ne _ apart.temps.symm]
      exact Finmap.lookup_insert _
    · intro path other besides
      rw [Finmap.lookup_insert_of_ne _ besides, Finmap.lookup_insert_of_ne _ other]

/-- A directory that is `before` but for the three names of a command. -/
structure Holds (core : TzapVolumeFiles) (names : TempNames) (destination : PathBuf)
    (before : Files) (target temp beside : Option DirectoryEntry) (files : Files) : Prop where
  target : files.lookup (Files.place destination) = target
  temp : files.lookup (Files.place (tempArchivePath names destination)) = temp
  beside : files.lookup
    (Files.place (tzapBootstrapSidecarPath core (tempArchivePath names destination))) = beside
  others : ∀ path, path ≠ Files.place destination →
    path ≠ Files.place (tempArchivePath names destination) →
    path ≠ Files.place (tzapBootstrapSidecarPath core (tempArchivePath names destination)) →
    files.lookup path = before.lookup path

variable {target temp beside : Option DirectoryEntry}

theorem holds_writtenByBackend (apart : CreatePathsApart core names destination) :
    Holds core names destination before (before.lookup (Files.place destination))
      (some (.file archive)) (tempSidecarEntry core names destination sidecar before)
      (writtenByBackend core names destination archive sidecar before) := by
  obtain ⟨written, there, others⟩ :=
    @lookup_writtenByBackend core names destination archive sidecar before apart
  exact ⟨others _ apart.temp.symm apart.tempSidecar.symm, written, there,
    fun path _ isTemp isSidecar => others path isTemp isSidecar⟩

section

variable (holds : Holds core names destination before target temp beside files)
  (apart : CreatePathsApart core names destination)
include holds apart

theorem Holds.removeTemp (fault : Option IoError) :
    Holds core names destination before target (afterRemoval fault temp) beside
      (files.tryRemoveFile fault (tempArchivePath names destination)).2 where
  target := by rw [lookup_tryRemoveFile_ne apart.temp.symm, holds.target]
  temp := by rw [lookup_tryRemoveFile_self tempArchivePath_named, holds.temp]
  beside := by rw [lookup_tryRemoveFile_ne apart.temps, holds.beside]
  others path other isTemp isSidecar := by
    rw [lookup_tryRemoveFile_ne isTemp, holds.others path other isTemp isSidecar]

theorem Holds.removeTempSidecar (fault : Option IoError) :
    Holds core names destination before target temp (afterRemoval fault beside)
      (files.tryRemoveFile fault
        (tzapBootstrapSidecarPath core (tempArchivePath names destination))).2 where
  target := by rw [lookup_tryRemoveFile_ne apart.tempSidecar.symm, holds.target]
  temp := by rw [lookup_tryRemoveFile_ne apart.temps.symm, holds.temp]
  beside := by rw [lookup_tryRemoveFile_self apart.named, holds.beside]
  others path other isTemp isSidecar := by
    rw [lookup_tryRemoveFile_ne isSidecar, holds.others path other isTemp isSidecar]

/-- The directory once the archive is published. -/
theorem Holds.published (archive : List UInt8) (fault : Option IoError) :
    Holds core names destination before (some (.file archive)) (afterRemoval fault temp) beside
      (published fault (tempArchivePath names destination) destination archive files) :=
  Holds.removeTemp
    { target := Finmap.lookup_insert _
      temp := (Finmap.lookup_insert_of_ne _ apart.temp).trans holds.temp
      beside := (Finmap.lookup_insert_of_ne _ apart.tempSidecar).trans holds.beside
      others := fun path other isTemp isSidecar => (Finmap.lookup_insert_of_ne _ other).trans
        (holds.others path other isTemp isSidecar) } apart fault

end

/-- The temporary sidecar's name is as a failed command should leave it. -/
def SidecarSettled (sidecar : Option (List UInt8)) (entry beside : Option DirectoryEntry) : Prop :=
  beside = match sidecar with
    | some _ => none
    | none => entry

/-- Removing the temporary sidecar settles its name exactly when it takes away the
command's own file. -/
theorem sidecarSettled_iff :
    SidecarSettled sidecar (tempSidecarEntry core names destination sidecar before)
        (afterRemoval fault (tempSidecarEntry core names destination sidecar before)) ↔
      RemovesOwnSidecar fault (tempSidecarEntry core names destination sidecar before)
        sidecar := by
  unfold SidecarSettled RemovesOwnSidecar
  cases sidecar with
  | some bytes => simp [tempSidecarEntry, afterRemoval, IsFileEntry]
  | none =>
    dsimp only
    cases tempSidecarEntry core names destination none before with
    | none => simp [afterRemoval, IsFileEntry]
    | some entry =>
      cases entry with
      | directory => simp [afterRemoval, IsFileEntry]
      | file bytes => simp [afterRemoval, IsFileEntry]

/-- Where nothing but the temporary names is in doubt. -/
theorem Holds.losesNothing_iff
    (holds : Holds core names destination before target temp beside files)
    (apart : CreatePathsApart core names destination)
    (tempFree : Files.place (tempArchivePath names destination) ∉ before)
    (sidecarFree : sidecar ≠ none → Files.place (tzapBootstrapSidecarPath core
      (tempArchivePath names destination)) ∉ before)
    (kept : target = before.lookup (Files.place destination) ∨ target = some (.file archive))
    (lasting : tempSidecarEntry core names destination sidecar before = none → sidecar = none →
      beside = none) :
    CreateLosesNothing core names destination archive sidecar before files ↔
      temp = none ∧
        SidecarSettled sidecar (tempSidecarEntry core names destination sidecar before) beside := by
  unfold SidecarSettled
  constructor
  · intro nothing
    refine ⟨holds.temp.symm.trans (Finmap.lookup_eq_none.mpr nothing.temp), ?_⟩
    cases sidecar with
    | some bytes =>
      exact holds.beside.symm.trans
        (Finmap.lookup_eq_none.mpr (nothing.tempSidecar (Option.some_ne_none _)))
    | none =>
      by_cases present : tempSidecarEntry core names destination none before = none
      · exact (lasting present rfl).trans present.symm
      · exact holds.beside.symm.trans (nothing.others _ apart.tempSidecar
          (Decidable.byContradiction fun absent => present (Finmap.lookup_eq_none.mpr absent)))
  · rintro ⟨cleared, settled⟩
    refine ⟨by rw [holds.target]; exact kept, ?_,
      Finmap.lookup_eq_none.mp (holds.temp.trans cleared), ?_⟩
    · intro path other present
      by_cases isTemp : path = Files.place (tempArchivePath names destination)
      · exact absurd (isTemp ▸ present) tempFree
      by_cases isSidecar : path = Files.place (tzapBootstrapSidecarPath core
        (tempArchivePath names destination))
      · cases sidecar with
        | some bytes => exact absurd (isSidecar ▸ present) (sidecarFree (Option.some_ne_none _))
        | none =>
          rw [isSidecar]
          exact holds.beside.trans settled
      · exact holds.others path other isTemp isSidecar
    · intro own
      cases sidecar with
      | some bytes => exact Finmap.lookup_eq_none.mp (holds.beside.trans settled)
      | none => exact absurd rfl own

/-- An old file that was removed and not replaced. -/
theorem not_createLosesNothing_of_removed {path : PathBuf}
    (held : IsFileEntry (before.lookup path)) (gone : after.lookup path = none) :
    ¬CreateLosesNothing core names destination archive sidecar before after := by
  obtain ⟨bytes, found⟩ := held
  intro nothing
  by_cases itself : path = Files.place destination
  · subst itself
    have kept := nothing.kept
    rw [gone, found] at kept
    simp at kept
  · have unchanged := nothing.others path itself (Finmap.mem_of_lookup_eq_some found)
    rw [gone, found] at unchanged
    cases unchanged

/-- **A failed create command.** The destination keeps its old bytes or holds the new
archive, every other file is unchanged and no temporary file remains, exactly when
the failing calls leave room for it. -/
theorem failed_create_loses_nothing_iff {backend : Except String Unit}
    (lawful : core.IsLawful)
    (tempFree : Files.place (tempArchivePath names destination) ∉ before)
    (sidecarFree : sidecar ≠ none → Files.place (tzapBootstrapSidecarPath core
      (tempArchivePath names destination)) ∉ before) :
    (∀ message after, runCreateRequest core names faults destination force backend
        (writtenByBackend core names destination archive sidecar before) =
          (.error message, after) →
        CreateLosesNothing core names destination archive sidecar before after) ↔
      FailsSafely core names faults destination force backend archive sidecar before := by
  have apart := @createPathsApart core names destination lawful
  have written := @holds_writtenByBackend core names destination archive sidecar before apart
  have tempSeen : (writtenByBackend core names destination archive sidecar before).symlinkMetadata
      (tempArchivePath names destination) = some (.file archive) := by
    rw [symlinkMetadata_of_named tempArchivePath_named, written.temp]
  have destSeen : (writtenByBackend core names destination archive sidecar before).symlinkMetadata
      destination = before.symlinkMetadata destination := by
    unfold Files.symlinkMetadata
    rw [written.target]
  unfold FailsSafely runCreateRequest
  cases backend with
  | error failure =>
    simp only [failCreate, Prod.mk.injEq, Except.error.injEq]
    refine Iff.trans ⟨fun safe => safe _ _ ⟨rfl, rfl⟩, ?_⟩
      (((written.removeTemp apart _).losesNothing_iff apart tempFree sidecarFree (.inl rfl)
        fun absent _ => absent).trans (and_congr ?_ ?_))
    · rintro safe _ _ ⟨rfl, rfl⟩
      exact safe
    · exact ite_eq_left_iff.trans (by simp)
    · cases sidecar with
      | some bytes => simp [SidecarSettled, tempSidecarEntry]
      | none => simp [SidecarSettled]
  | ok finished =>
    have outcome := @publishArchive_cases (fun step => faults (.archive step)) force
      (writtenByBackend core names destination archive sidecar before)
      (tempArchivePath names destination) destination tempArchivePath_named apart.temp
    rw [tempSeen, destSeen] at outcome
    rcases outcome with ⟨loses, named, error, ended⟩ | ⟨safe, refuses, error, ended⟩ |
      ⟨safe, works, named, bytes, held, ended⟩
    · simp only [ended, loses, not_true_eq_false, false_and, iff_false]
      intro all
      refine @not_createLosesNothing_of_removed core names destination archive sidecar before _
        (Files.place destination) ?_ ?_ (all _ _ rfl)
      · rw [← symlinkMetadata_of_named named]
        exact loses.2.2.1
      · rw [lookup_tryRemoveFile_ne apart.tempSidecar.symm,
          lookup_tryRemoveFile_ne apart.temp.symm]
        exact Finmap.lookup_erase _ _
    · simp only [ended, safe, refuses, not_false_eq_true, not_true_eq_false, false_imp_iff,
        true_imp_iff, true_and, and_true, Prod.mk.injEq, Except.error.injEq]
      refine Iff.trans ⟨fun all => all _ _ ⟨rfl, rfl⟩, ?_⟩
        ((((written.removeTemp apart _).removeTempSidecar apart _).losesNothing_iff apart tempFree
          sidecarFree (.inl rfl) fun absent _ => by rw [absent]; rfl).trans
            (and_congr ?_ sidecarSettled_iff))
      · rintro clean _ _ ⟨rfl, rfl⟩
        exact clean
      · exact ite_eq_left_iff.trans (by simp)
    · simp only [ended, safe, works, not_false_eq_true, false_imp_iff, true_imp_iff, true_and]
      cases held
      have placed := written.published apart archive (faults (.archive .removeTemp))
      generalize published (faults (.archive .removeTemp)) (tempArchivePath names destination)
        destination archive (writtenByBackend core names destination archive sidecar before) =
          files at placed
      obtain ⟨destNamed, notDest, notTemp, notBeside⟩ := apart.sidecar named
      have sidecarSeen : files.symlinkMetadata
            (tzapBootstrapSidecarPath core (tempArchivePath names destination)) =
          tempSidecarEntry core names destination sidecar before := by
        rw [symlinkMetadata_of_named apart.named, placed.beside]
      have oldSeen : files.symlinkMetadata (tzapBootstrapSidecarPath core destination) =
          before.symlinkMetadata (tzapBootstrapSidecarPath core destination) := by
        rw [symlinkMetadata_of_named destNamed, symlinkMetadata_of_named destNamed,
          placed.others _ notDest notTemp notBeside]
      rw [sidecarSeen]
      by_cases probed : faults .probeSidecar = none ∧
          tempSidecarEntry core names destination sidecar before ≠ none
      · simp only [probed, ne_eq, not_false_eq_true, and_self, ↓reduceIte, true_imp_iff]
        have second := @publishArchive_cases (fun step => faults (.sidecar step)) force files
          (tzapBootstrapSidecarPath core (tempArchivePath names destination))
          (tzapBootstrapSidecarPath core destination) apart.named notBeside.symm
        rw [sidecarSeen, oldSeen] at second
        rcases second with ⟨loses, -, error, ended⟩ | ⟨safe, refuses, error, ended⟩ |
          ⟨safe, works, -, bytes, -, ended⟩
        · simp only [ended, loses, not_true_eq_false, false_and, iff_false]
          intro all
          refine @not_createLosesNothing_of_removed core names destination archive sidecar before _
            (Files.place (tzapBootstrapSidecarPath core destination)) ?_ ?_ (all _ _ rfl)
          · rw [← symlinkMetadata_of_named destNamed]
            exact loses.2.2.1
          · rw [lookup_tryRemoveFile_ne notBeside]
            exact Finmap.lookup_erase _ _
        · simp only [ended, safe, refuses, not_false_eq_true, true_imp_iff, true_and,
            Prod.mk.injEq, Except.error.injEq]
          refine Iff.trans ⟨fun all => all _ _ ⟨rfl, rfl⟩, ?_⟩
            (((placed.removeTempSidecar apart _).losesNothing_iff apart tempFree sidecarFree
              (.inr rfl) fun absent _ => by rw [absent]; rfl).trans
                (and_congr ?_ sidecarSettled_iff))
          · rintro clean _ _ ⟨rfl, rfl⟩
            exact clean
          · exact ite_eq_left_iff.trans (by simp)
        · simp [ended, safe, works]
      · rw [if_neg probed]
        refine iff_of_true ?_ fun works present => absurd ⟨works, present⟩ probed
        intro message after ended
        cases ended

end

/-! ## A file system without hard links -/

/-- Every link fails and nothing else does. -/
def noHardLinks : CreateStep → Option IoError
  | .archive .hardLink | .sidecar .hardLink =>
    some ⟨.other, "Operation not supported (os error 95)"⟩
  | _ => none

/-- Where there is nothing to replace, the command fails and leaves nothing behind. -/
theorem failed_create_loses_nothing_without_links :
    CreateLosesNothing plainVolumeFiles ⟨7, fun _ => 8⟩
      [.rootDir, .normal ['d'], .normal "a.tzap".toList] [1, 2] (some [9]) oldSidecar
      (runCreateRequest plainVolumeFiles ⟨7, fun _ => 8⟩ noHardLinks
        [.rootDir, .normal ['d'], .normal "a.tzap".toList] true (.ok ())
        (writtenByBackend plainVolumeFiles ⟨7, fun _ => 8⟩
          [.rootDir, .normal ['d'], .normal "a.tzap".toList] [1, 2] (some [9]) oldSidecar)).2 := by
  have safely : FailsSafely plainVolumeFiles ⟨7, fun _ => 8⟩ noHardLinks
      [.rootDir, .normal ['d'], .normal "a.tzap".toList] true (.ok ()) [1, 2] (some [9])
      oldSidecar := by
    refine ⟨?_, ?_, ?_⟩
    · have free : oldSidecar.symlinkMetadata
          [.rootDir, .normal ['d'], .normal "a.tzap".toList] = none := by
        decide +kernel
      rintro ⟨-, -, ⟨bytes, held⟩, -⟩
      rw [free] at held
      cases held
    · intro _
      exact ⟨rfl, fun _ => Option.some_ne_none _, fun _ => ⟨rfl, [9], rfl⟩⟩
    · intro works
      refine absurd ?_ works
      unfold PublishRefuses
      rw [if_pos ⟨rfl, rfl⟩]
      exact .inr (.inr ⟨by decide +kernel, .inl (Option.some_ne_none _)⟩)
  refine (failed_create_loses_nothing_iff plainVolumeFiles_isLawful (by decide +kernel)
    fun _ => by decide +kernel).mpr safely ("create failed: failed to move " ++
      "/d/.a.tzap.tmp-7-8 to /d/a.tzap: Operation not supported (os error 95)") _
    (Prod.ext ?_ rfl)
  decide +kernel

/-- A directory that holds an earlier archive. -/
def oldArchive : Files :=
  (∅ : Files).insert [.rootDir, .normal ['d'], .normal "a.zip".toList] (.file [7])

/-- With `--force` the old archive is removed before the link fails. -/
theorem failed_create_loses_old_archive :
    ∃ message after, runCreateRequest plainVolumeFiles ⟨7, fun _ => 8⟩ noHardLinks
        [.rootDir, .normal ['d'], .normal "a.zip".toList] true (.ok ())
        (writtenByBackend plainVolumeFiles ⟨7, fun _ => 8⟩
          [.rootDir, .normal ['d'], .normal "a.zip".toList] [1, 2] none oldArchive) =
        (.error message, after) ∧
      after.lookup [.rootDir, .normal ['d'], .normal "a.zip".toList] = none ∧
      ¬CreateLosesNothing plainVolumeFiles ⟨7, fun _ => 8⟩
        [.rootDir, .normal ['d'], .normal "a.zip".toList] [1, 2] none oldArchive after := by
  have failed : (runCreateRequest plainVolumeFiles ⟨7, fun _ => 8⟩ noHardLinks
      [.rootDir, .normal ['d'], .normal "a.zip".toList] true (.ok ())
      (writtenByBackend plainVolumeFiles ⟨7, fun _ => 8⟩
        [.rootDir, .normal ['d'], .normal "a.zip".toList] [1, 2] none oldArchive)).1 =
      .error (moveFailed
        (tempArchivePath ⟨7, fun _ => 8⟩ [.rootDir, .normal ['d'], .normal "a.zip".toList])
        [.rootDir, .normal ['d'], .normal "a.zip".toList]
        ⟨.other, "Operation not supported (os error 95)"⟩) := by
    decide +kernel
  have gone : (runCreateRequest plainVolumeFiles ⟨7, fun _ => 8⟩ noHardLinks
      [.rootDir, .normal ['d'], .normal "a.zip".toList] true (.ok ())
      (writtenByBackend plainVolumeFiles ⟨7, fun _ => 8⟩
        [.rootDir, .normal ['d'], .normal "a.zip".toList] [1, 2] none oldArchive)).2.lookup
          [.rootDir, .normal ['d'], .normal "a.zip".toList] = none := by
    decide +kernel
  refine ⟨_, _, Prod.ext failed rfl, gone, ?_⟩
  exact not_createLosesNothing_of_removed ⟨[7], by decide +kernel⟩ gone

end ZManager
