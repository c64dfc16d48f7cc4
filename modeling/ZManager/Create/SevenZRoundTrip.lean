import ZManager.Create.LowerNames
import ZManager.Create.SevenZ

/-! # Written 7z volumes are found again

Discovery lists the numbered files of the destination's name, in lower case. It
finds exactly the written volumes when the numerals have the width the parser
demands and the path has a directory that can be listed.
-/

namespace ZManager

/-! ## Volume names -/

section

variable {base : Text} {part : Nat}

theorem parse7zVolumeFileName_padded (positive : 0 < part) (small : part < 1000) :
    parse7zVolumeFileName (base ++ '.' :: Text.padded 3 part) = some (base, part) := by
  have width : (Text.padded 3 part).length = 3 :=
    (Text.length_padded_eq_iff (by decide)).mpr (by omega)
  have value : parseU32 (Text.padded 3 part) = some part := parseU32_padded (by omega)
  unfold parse7zVolumeFileName
  rw [Text.rsplitOnce_append (dot_not_mem_padded 3 part)]
  simp only [Option.bind_eq_bind, Option.bind_some, width, value, all_isDigit_padded,
    sevenzVolumeExtensionWidth, positive, if_true]
  rfl

/-- A numeral of more than three digits is no part number. -/
theorem parse7zVolumeFileName_wide (large : 1000 ≤ part) :
    parse7zVolumeFileName (base ++ '.' :: Text.padded 3 part) = none := by
  have width : (Text.padded 3 part).length ≠ 3 := by
    rw [Ne, Text.length_padded_eq_iff (by decide)]
    omega
  unfold parse7zVolumeFileName
  rw [Text.rsplitOnce_append (dot_not_mem_padded 3 part)]
  simp [width, sevenzVolumeExtensionWidth]

/-- A name that ends in `.7z` is no volume name. -/
theorem parse7zVolumeFileName_archive (stem : Text) :
    parse7zVolumeFileName (stem ++ ".7z".toList) = none := by
  have ending : ".7z".toList = '.' :: ['7', 'z'] := by simp
  unfold parse7zVolumeFileName
  rw [ending, Text.rsplitOnce_append (by decide)]
  rfl

theorem has7zExtension_archive {stem : Text} (valid : IsEntryName (stem ++ ".7z".toList)) :
    has7zExtension (stem ++ ".7z".toList) = true ↔ stem ≠ [] := by
  have ending : ".7z".toList = '.' :: ['7', 'z'] := by simp
  unfold has7zExtension
  rw [extension_ofText valid, PathBuf.stemAndExtension, if_neg valid.ne_dotdot, ending,
    Text.rsplitOnce_append (by decide)]
  by_cases empty : stem = []
  · simp [empty]
  · simp only [empty, ↓reduceIte, Option.any_some, ne_eq, not_false_eq_true, iff_true]
    decide

theorem has7zExtension_wide (valid : IsEntryName (base ++ '.' :: Text.padded 3 part)) :
    has7zExtension (base ++ '.' :: Text.padded 3 part) = false := by
  unfold has7zExtension
  rw [extension_ofText valid, PathBuf.stemAndExtension, if_neg valid.ne_dotdot,
    Text.rsplitOnce_append (dot_not_mem_padded 3 part)]
  by_cases empty : base = []
  · simp [empty]
  · simp only [empty, ↓reduceIte, Option.any_some, toAsciiLowercase_padded,
      decide_eq_false_iff_not]
    intro same
    have digit : 'z'.isDigit := @Text.isDigit_of_mem_padded 3 part 'z' (by rw [same]; simp)
    cases digit

end

/-! ## Discovery -/

section

variable {order : ReadOrder} {files : Files} {directory : PathBuf} {name base : Text}

/-- A file name of no volume set stands for itself. -/
theorem discover7z_single (alone : sevenzVolumeBase (toAsciiLowercase name) = none) :
    discover7zReadVolumePaths order files (directory ++ [Component.normal name]) =
      .ok [directory ++ [Component.normal name]] := by
  unfold discover7zReadVolumePaths
  rw [fileName_concat, Option.bind_some, alone]

/-- A bare file name stands for itself, since the empty path cannot be listed. -/
theorem discover7z_bare :
    discover7zReadVolumePaths order files [.normal name] = .ok [[.normal name]] := by
  cases based : sevenzVolumeBase (toAsciiLowercase name) with
  | none => exact @discover7z_single order files [] name based
  | some base =>
    unfold discover7zReadVolumePaths
    rw [show PathBuf.fileName [.normal name] = some name from rfl, Option.bind_some, based]
    rfl

/-- A set whose parts are exactly the numbers from one on is found in order. -/
theorem discover7z_exact {value : Nat → Text} {count : Nat} (listable : directory ≠ [])
    (based : sevenzVolumeBase (toAsciiLowercase name) = some base) (positive : 0 < count)
    (exact : ∀ candidate part, Files.place directory ++ [Component.normal candidate] ∈ files ∧
        match7zVolume base (toAsciiLowercase candidate) = some part ↔
      1 ≤ part ∧ part ≤ count ∧ candidate = value part) :
    discover7zReadVolumePaths order files (directory ++ [Component.normal name]) =
      .ok ((List.range' 1 count).map fun part => directory ++ [Component.normal (value part)]) := by
  have parts : PartMap.ofList ((order.names files directory).filterMap fun candidate =>
      (match7zVolume base (toAsciiLowercase candidate)).map fun part =>
        (part, directory ++ [Component.normal candidate])) =
      PartMap.consecutive (fun part => directory ++ [Component.normal (value part)]) count := by
    apply PartMap.ofList_eq_consecutive
    rintro ⟨part, path⟩
    simp only [List.mem_filterMap, Option.map_eq_some_iff, Prod.mk.injEq, order.mem_names,
      PartMap.mem_consecutive]
    constructor
    · rintro ⟨candidate, present, _, matched, rfl, rfl⟩
      obtain ⟨low, high, rfl⟩ := (exact candidate _).mp ⟨present, matched⟩
      exact ⟨low, high, rfl⟩
    · rintro ⟨low, high, rfl⟩
      obtain ⟨present, matched⟩ := (exact (value part) part).mpr ⟨low, high, rfl⟩
      exact ⟨_, present, part, matched, rfl, rfl⟩
  have last := @PartMap.getLast?_consecutive _ (fun part => directory ++
    [Component.normal (value part)]) count positive
  have complete : (List.range' 1 count).find? (fun expected => decide
      ((PartMap.consecutive (fun part => directory ++ [Component.normal (value part)]) count).lookup
        expected = none)) = none := by
    rw [List.find?_eq_none]
    intro expected member
    rw [List.mem_range'_1] at member
    simp [PartMap.lookup_consecutive member.1 (by omega : expected ≤ count)]
  unfold discover7zReadVolumePaths ReadOrder.readDir
  rw [fileName_concat, Option.bind_some, based, directoryOf_concat, if_neg listable]
  simp only [parts, last, Option.map_some, Option.getD_some, complete, PartMap.map_snd_consecutive]
  rw [if_neg]
  intro empty
  rw [empty] at last
  cases last

end

/-! ## Round trip -/

/-- Every path of the set is read as the written volumes, and joined they are
the archive. -/
def IsFoundAgain (order : ReadOrder) (files : Files) (destination : Destination)
    (volumes : List PathBuf) (archive : List UInt8) : Prop :=
  (∀ path ∈ destination.path :: volumes, discover7zReadVolumePaths order files path = .ok volumes) ∧
    joinedContent files volumes = some archive

section

variable {order : ReadOrder} {names : TempNames} {files last : Files} {archivePath : PathBuf}
  {destination : Destination} {volumeSize count : Nat} {replaceExisting : Bool}
  {archive : List UInt8}

theorem sevenzVolumePath_eq (destination : Destination) (index : Nat) :
    sevenzVolumePath destination.path index =
      destination.directory ++ [Component.normal (destination.name ++
          '.' :: Text.padded 3 index)] := by
  simp [sevenzVolumePath, appendToName, Destination.path, fileName_concat,
    sevenzVolumeExtensionWidth]

/-- The names of one archive's volumes, in lower case. -/
theorem toAsciiLowercase_volumeName (name : Text) (index : Nat) :
    toAsciiLowercase (name ++ '.' :: Text.padded 3 index) =
      toAsciiLowercase name ++ '.' :: Text.padded 3 index := by
  rw [toAsciiLowercase_append, toAsciiLowercase_cons, toAsciiLowercase_padded,
    toLower_of_plain (by decide)]

theorem match7zVolume_volumeName {base : Text} {index : Nat} (positive : 0 < index)
    (small : index < 1000) : match7zVolume base (base ++ '.' :: Text.padded 3 index) =
        some index := by
  unfold match7zVolume
  rw [parse7zVolumeFileName_padded positive small]
  exact if_pos rfl

theorem destination_ne_volume (destination : Destination) (index : Nat) :
    destination.path ≠ sevenzVolumePath destination.path index := by
  intro same
  rw [sevenzVolumePath_eq, Destination.path] at same
  have names := congrArg List.length (Component.normal.inj (List.head_eq_of_cons_eq
    (List.append_cancel_left same)))
  simp at names

/-- What a successful split has written, and where. -/
theorem split7z_written (archived : files.symlinkMetadata archivePath = some (.file archive))
    (positive : 0 < volumeSize)
    (written : split7zTempArchive order names files archivePath destination.path volumeSize
      replaceExisting = (.ok count, last)) :
    count = splitVolumeCount archive.length volumeSize ∧
      joinedContent last (sevenzVolumePaths destination.path count) = some archive ∧
      ∀ index, 1 ≤ index → index ≤ count →
        Files.place destination.directory ++
          [.normal (destination.name ++ '.' :: Text.padded 3 index)] ∈ last := by
  rcases split7zTempArchive_cases written with ⟨_, failed, -⟩ | ⟨archive', staged, archived', -,
    ⟨finals, contents⟩, counted, rfl⟩
  · cases failed
  rw [archived] at archived'
  cases archived'
  have counted := Except.ok.inj counted
  have places := nodup_sevenzVolumePaths destination.path count
  rw [counted, ← finals, List.map_map] at places
  have named : ∀ output ∈ staged, PathBuf.fileName output.1.finalPath ≠ none := by
    intro output member
    have listed : output.1.finalPath ∈ staged.map (·.1.finalPath) :=
      List.mem_map.mpr ⟨output, member, rfl⟩
    rw [finals] at listed
    obtain ⟨index, -, same⟩ := List.mem_map.mp listed
    rw [← same, sevenzVolumePath_eq, fileName_concat]
    exact Option.some_ne_none _
  refine ⟨counted, ?_, ?_⟩
  · rw [counted, ← finals, joinedContent_publish named places, contents, List.range_eq_range',
      Bytes.flatten_pieces, Nat.zero_mul, List.drop_zero, List.take_of_length_le]
    have enough := (splitVolumeCount_le_iff positive).mp
      (Nat.le_refl (splitVolumeCount archive.length volumeSize))
    omega
  · intro index low high
    have listed : sevenzVolumePath destination.path index ∈ staged.map (·.1.finalPath) := by
      rw [finals]
      exact List.mem_map.mpr ⟨index, List.mem_range'_1.mpr (by omega), rfl⟩
    obtain ⟨output, member, same⟩ := List.mem_map.mp listed
    have found := @lookup_publish_of_mem staged (if replaceExisting then
      removeAll (existing7zVolumePaths order files destination.path ++ [destination.path]) files
      else files) places output member
    rw [same, sevenzVolumePath_eq, place_concat] at found
    exact Finmap.mem_of_lookup_eq_some found

/-- **Split 7z round trip.** After a split, the destination and every volume are
read as exactly the written volumes, whose bytes joined are the archive, if and
only if the destination has a directory component, the archive fits in 999
volumes, and the name is not just the extension. -/
theorem sevenz_volumes_found_again_iff (large : sevenzMinVolumeSizeBytes ≤ volumeSize)
    (ending : ".7z".toList <:+ toAsciiLowercase destination.name)
    (archived : files.symlinkMetadata archivePath = some (.file archive))
    (written : split7zTempArchive order names files archivePath destination.path volumeSize
      replaceExisting = (.ok count, last))
    (alone : ∀ candidate part, Files.place destination.directory ++ [Component.normal candidate] ∈
        last →
      match7zVolume (toAsciiLowercase destination.name) (toAsciiLowercase candidate) = some part →
      destination.directory ++ [Component.normal candidate] ∈
          sevenzVolumePaths destination.path count) :
    IsFoundAgain order last destination (sevenzVolumePaths destination.path count) archive ↔
      destination.directory ≠ [] ∧ archive.length ≤ 999 * volumeSize ∧
        toAsciiLowercase destination.name ≠ ".7z".toList := by
  have positive : 0 < volumeSize := lt_of_lt_of_le (by decide) large
  obtain ⟨counted, joined, present⟩ := split7z_written archived positive written
  obtain ⟨stem, split⟩ := ending
  have lowered : IsEntryName (stem ++ ".7z".toList) := by
    rw [split]
    exact destination.isEntryName.toAsciiLowercase
  have fits : archive.length ≤ 999 * volumeSize ↔ count ≤ 999 := by
    rw [counted, splitVolumeCount_le_iff positive]
    omega
  have some_volume : 0 < count := by
    rw [counted, ← Nat.not_le, splitVolumeCount_le_iff positive]
    omega
  have stemmed : toAsciiLowercase destination.name ≠ ".7z".toList ↔ stem ≠ [] := by
    rw [← split]
    simp
  rw [fits, stemmed]
  -- the destination is never a volume, so it must not stand for itself
  have not_itself : sevenzVolumePaths destination.path count ≠ [destination.path] := by
    intro same
    have listed : destination.path ∈ sevenzVolumePaths destination.path count := by
      rw [same]
      exact List.mem_singleton.mpr rfl
    obtain ⟨index, -, equal⟩ := List.mem_map.mp listed
    exact destination_ne_volume destination index equal.symm
  constructor
  · rintro ⟨found, -⟩
    have opened := found destination.path (List.mem_cons_self ..)
    refine ⟨?_, ?_, ?_⟩
    · intro bare
      have alone : destination.path = [.normal destination.name] := by
        rw [Destination.path, bare, List.nil_append]
      rw [alone, discover7z_bare] at opened
      rw [alone] at not_itself
      exact not_itself (Except.ok.inj opened).symm
    · by_contra many
      have member : sevenzVolumePath destination.path 1000 ∈
          sevenzVolumePaths destination.path count :=
        List.mem_map.mpr ⟨1000, List.mem_range'_1.mpr (by omega), rfl⟩
      have wide := found _ (List.mem_cons_of_mem _ member)
      have valid : IsEntryName (toAsciiLowercase destination.name ++ '.' :: Text.padded 3 1000) :=
        destination.isEntryName.toAsciiLowercase.append (by decide) (by decide)
      rw [sevenzVolumePath_eq, discover7z_single] at wide
      · have lengths := congrArg List.length (Except.ok.inj wide)
        simp only [sevenzVolumePaths, List.length_singleton, List.length_map,
          List.length_range'] at lengths
        omega
      · unfold sevenzVolumeBase
        rw [toAsciiLowercase_volumeName, parse7zVolumeFileName_wide (by decide)]
        simp only [has7zExtension_wide valid, Bool.false_eq_true, ↓reduceIte]
    · intro bare
      rw [Destination.path, discover7z_single] at opened
      · exact not_itself (Except.ok.inj opened).symm
      · have plain : has7zExtension (stem ++ ".7z".toList) = false := by
          rw [← Bool.not_eq_true, has7zExtension_archive lowered]
          exact not_not_intro bare
        unfold sevenzVolumeBase
        rw [← split, parse7zVolumeFileName_archive]
        simp only [plain, Bool.false_eq_true, ↓reduceIte]
  · rintro ⟨listable, few, nonempty⟩
    refine ⟨?_, joined⟩
    have extended : has7zExtension (toAsciiLowercase destination.name) = true := by
      rw [← split]
      exact (has7zExtension_archive lowered).mpr nonempty
    have exact : ∀ candidate part,
        Files.place destination.directory ++ [Component.normal candidate] ∈ last ∧
          match7zVolume (toAsciiLowercase destination.name) (toAsciiLowercase candidate) =
            some part ↔
        1 ≤ part ∧ part ≤ count ∧ candidate = destination.name ++ '.' :: Text.padded 3 part := by
      intro candidate part
      constructor
      · rintro ⟨there, matched⟩
        obtain ⟨index, bounds, same⟩ := List.mem_map.mp (alone candidate part there matched)
        rw [List.mem_range'_1] at bounds
        rw [sevenzVolumePath_eq] at same
        have names := Component.normal.inj (List.head_eq_of_cons_eq (List.append_cancel_left same))
        rw [← names, toAsciiLowercase_volumeName,
          match7zVolume_volumeName (by omega) (by omega)] at matched
        cases matched
        exact ⟨by omega, by omega, names.symm⟩
      · rintro ⟨low, high, rfl⟩
        refine ⟨present part low high, ?_⟩
        rw [toAsciiLowercase_volumeName]
        exact match7zVolume_volumeName (by omega) (by omega)
    have volumes : sevenzVolumePaths destination.path count = (List.range' 1 count).map fun part =>
        destination.directory ++ [Component.normal (destination.name ++
            '.' :: Text.padded 3 part)] := by
      unfold sevenzVolumePaths
      exact List.map_congr_left fun index _ => sevenzVolumePath_eq destination index
    intro path member
    rw [volumes]
    rcases List.mem_cons.mp member with rfl | inside
    · refine discover7z_exact listable ?_ some_volume exact
      unfold sevenzVolumeBase
      rw [← split, parse7zVolumeFileName_archive, split]
      simp only [extended, ↓reduceIte]
    · obtain ⟨index, bounds, rfl⟩ := List.mem_map.mp inside
      rw [List.mem_range'_1] at bounds
      rw [sevenzVolumePath_eq]
      refine discover7z_exact listable ?_ some_volume exact
      unfold sevenzVolumeBase
      rw [toAsciiLowercase_volumeName, parse7zVolumeFileName_padded (by omega) (by omega)]
      simp only [extended, ↓reduceIte]

end

/-! ## Two small archives -/

/-- The archive of three bytes at the name `t` of a directory. -/
def threeBytes (directory : PathBuf) : Files :=
  (∅ : Files).insert (directory ++ [Component.normal ['t']]) (.file [1, 2, 3])

def archive7z (directory : PathBuf) : Destination where
  directory := directory
  name := "a.7z".toList
  isEntryName := ⟨by decide, by decide, by decide, by decide⟩

/-- The split of the three bytes at the destination `a.7z`. -/
noncomputable def splitThreeBytes (directory : PathBuf) : Except SevenZError Nat × Files :=
  split7zTempArchive .ofKeys ⟨7, fun _ => 8⟩ (threeBytes directory)
    (directory ++ [Component.normal ['t']]) (archive7z directory).path 1048576 false

theorem existing7z_threeBytes (directory : PathBuf) :
    existing7zVolumePaths .ofKeys (threeBytes directory) (archive7z directory).path = [] := by
  rw [existing7zVolumePaths_path]
  apply existingVolumePaths_eq_nil
  intro name present
  rcases Finmap.mem_insert.mp present with same | impossible
  · have last : Component.normal name = .normal ['t'] := by
      have ends := congrArg List.getLast? same
      simpa [archive7z] using ends
    rw [Component.normal.inj last]
    rfl
  · exact absurd impossible Finmap.notMem_empty

theorem sevenz_volumes_found_again_threeBytes :
    IsFoundAgain .ofKeys (splitThreeBytes [.rootDir, .normal ['d']]).2
      (archive7z [.rootDir, .normal ['d']])
      [[.rootDir, .normal ['d'], .normal "a.7z.001".toList]] [1, 2, 3] := by
  have run : (splitThreeBytes [.rootDir, .normal ['d']]).1 = .ok 1 ∧
      (splitThreeBytes [.rootDir, .normal ['d']]).2.keys =
        {[.rootDir, .normal ['d'], .normal ['t']],
          [.rootDir, .normal ['d'], .normal "a.7z.001".toList]} := by
    unfold splitThreeBytes split7zTempArchive
    rw [existing7z_threeBytes]
    exact ⟨rfl, by decide +kernel⟩
  obtain ⟨done, keys⟩ := run
  refine (sevenz_volumes_found_again_iff (Nat.le_refl _) ⟨['a'], by decide +kernel⟩
    (by decide +kernel) (Prod.ext done rfl) ?_).mpr ⟨by decide, by decide, by decide +kernel⟩
  intro candidate part present matched
  rw [← Finmap.mem_keys] at present
  change _ ∈ (splitThreeBytes [.rootDir, .normal ['d']]).2.keys at present
  rw [keys, Finset.mem_insert, Finset.mem_singleton] at present
  rcases present with same | same
  · have other : candidate = ['t'] := by simpa [archive7z, Files.place] using same
    subst other
    cases matched
  · have other : candidate = "a.7z.001".toList := by
      have ends := congrArg List.getLast? same
      rw [List.getLast?_concat] at ends
      exact Component.normal.inj (Option.some.inj ends)
    subst other
    decide +kernel

/-- Without a directory component the destination is read as itself, a file that
was not written. -/
theorem sevenz_bare_volumes_lost :
    (splitThreeBytes []).1 = .ok 1 ∧
      (∀ candidate part, [Component.normal candidate] ∈ (splitThreeBytes []).2 →
        match7zVolume "a.7z".toList (toAsciiLowercase candidate) = some part →
        candidate = "a.7z.001".toList) ∧
      ¬ IsFoundAgain .ofKeys (splitThreeBytes []).2 (archive7z [])
        (sevenzVolumePaths (archive7z []).path 1) [1, 2, 3] := by
  have run : (splitThreeBytes []).1 = .ok 1 ∧
      (splitThreeBytes []).2.keys = {[.normal ['t']], [.normal "a.7z.001".toList]} := by
    unfold splitThreeBytes split7zTempArchive
    rw [existing7z_threeBytes]
    exact ⟨rfl, by decide +kernel⟩
  refine ⟨run.1, ?_, ?_⟩
  · intro candidate part present matched
    rw [← Finmap.mem_keys, run.2, Finset.mem_insert, Finset.mem_singleton] at present
    rcases present with same | same
    · cases same
      cases matched
    · cases same
      rfl
  · rintro ⟨found, -⟩
    have opened := found (archive7z []).path (List.mem_cons_self ..)
    rw [show (archive7z []).path = [.normal "a.7z".toList] from rfl, discover7z_bare] at opened
    exact absurd (Except.ok.inj opened) (by decide +kernel)

end ZManager
