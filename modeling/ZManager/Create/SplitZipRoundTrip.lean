import ZManager.Create.SplitZipNames

/-! # Split ZIP volumes are found again

Creation and discovery agree on the volumes of a set when the stem has no
extension of its own, the part numbers fit in 32 bits and the directory of the
destination can be listed.
-/

namespace ZManager

/-! ## Complete sets -/

theorem le_foldl_max {keys : List Nat} {start bound : Nat} :
    keys.foldl max start ≤ bound ↔ start ≤ bound ∧ ∀ key ∈ keys, key ≤ bound := by
  induction keys generalizing start with
  | nil => simp
  | cons key rest ih =>
    rw [List.foldl_cons, ih, Nat.max_le, List.forall_mem_cons, and_assoc]

theorem mapM_eq_some_of_forall {α β : Type} {step : α → Option β} {value : α → β} {list : List α}
    (found : ∀ x ∈ list, step x = some (value x)) : list.mapM step = some (list.map value) := by
  induction list with
  | nil => rfl
  | cons head rest ih =>
    rw [List.mapM_cons, found head (List.mem_cons_self ..),
      ih fun x member => found x (List.mem_cons_of_mem _ member)]
    rfl

/-- Parts that are numbered from one without a gap make a complete set. -/
theorem contiguousVolumes_exact {pairs : List (Nat × Text)} {value : Nat → Text} {count : Nat}
    (positive : 0 < count)
    (exact : ∀ pair, pair ∈ pairs ↔ pair ∈ PartMap.consecutive value count) :
    contiguousVolumes pairs = some ((List.range' 1 count).map value) := by
  have highest : (pairs.map Prod.fst).foldl max 0 = count := by
    apply Nat.le_antisymm
    · rw [le_foldl_max]
      refine ⟨Nat.zero_le _, ?_⟩
      intro key member
      obtain ⟨pair, inside, rfl⟩ := List.mem_map.mp member
      exact (PartMap.mem_consecutive.mp ((exact pair).mp inside)).2.1
    · have last : (count, value count) ∈ pairs :=
        (exact _).mpr (PartMap.mem_consecutive.mpr ⟨positive, Nat.le_refl _, rfl⟩)
      exact (le_foldl_max.mp (Nat.le_refl _)).2 count (List.mem_map_of_mem last)
  unfold contiguousVolumes
  rw [highest]
  apply mapM_eq_some_of_forall
  intro expected member
  rw [List.mem_range'_1] at member
  have present : (expected, value expected) ∈ pairs :=
    (exact _).mpr (PartMap.mem_consecutive.mpr ⟨member.1, by omega, rfl⟩)
  cases found : pairs.reverse.find? (·.1 = expected) with
  | none =>
    have absent := List.find?_eq_none.mp found _ (List.mem_reverse.mpr present)
    simp at absent
  | some pair =>
    have inside := List.mem_reverse.mp (List.mem_of_find?_eq_some found)
    have named : pair.1 = expected := by simpa using List.find?_some found
    rw [Option.map_some, (PartMap.mem_consecutive.mp ((exact pair).mp inside)).2.2, named]

/-! ## Discovery -/

section

variable {order : ReadOrder} {files : Files} {directory : PathBuf} {name base last : Text}
  {value : Nat → Text} {count : Nat}

theorem mem_splitZipCandidates {folder : ArchiveFolder} {part : SplitZipPart} {candidate : Text} :
    (part, candidate) ∈ splitZipCandidates folder base ↔
      candidate ∈ folder.map Prod.fst ∧
        parseSplitZipPart (toAsciiLowercase candidate) = some (base, part) := by
  unfold splitZipCandidates
  rw [List.mem_filterMap]
  constructor
  · rintro ⟨⟨entry, bytes⟩, member, matched⟩
    cases parsed : parseSplitZipPart (toAsciiLowercase entry) with
    | none => simp [parsed] at matched
    | some found =>
      obtain ⟨candidateBase, candidatePart⟩ := found
      simp only [parsed] at matched
      split_ifs at matched with same
      cases matched
      exact ⟨List.mem_map_of_mem member, by rw [parsed, same]⟩
  · rintro ⟨member, parsed⟩
    obtain ⟨entry, inside, rfl⟩ := List.mem_map.mp member
    exact ⟨entry, inside, by simp [parsed]⟩

theorem directoryOrCurrent_concat (listable : directory ≠ []) :
    directoryOrCurrent (directory ++ [Component.normal name]) = directory := by
  have parent : PathBuf.parent (directory ++ [Component.normal name]) = some directory := by
    simp [PathBuf.parent]
  unfold directoryOrCurrent
  rw [parent]
  cases directory with
  | nil => exact absurd rfl listable
  | cons head rest => rfl

/-- The existing volumes of a directory where exactly consecutive parts match. -/
theorem existingVolumePaths_exact (listable : directory ≠ []) {matcher : Text → Option Nat}
    (exact : ∀ candidate part, Files.place directory ++ [Component.normal candidate] ∈ files ∧
        matcher candidate = some part ↔
      1 ≤ part ∧ part ≤ count ∧ candidate = value part) :
    existingVolumePaths order files directory matcher =
      (List.range' 1 count).map fun part => directory ++ [Component.normal (value part)] := by
  unfold existingVolumePaths ReadOrder.readDir
  rw [if_neg listable, ← PartMap.map_snd_consecutive]
  apply congrArg (List.map Prod.snd)
  apply PartMap.ofList_eq_consecutive
  rintro ⟨part, path⟩
  rw [List.mem_filterMap, PartMap.mem_consecutive]
  constructor
  · rintro ⟨candidate, listed, matched⟩
    obtain ⟨_, found, same⟩ := Option.map_eq_some_iff.mp matched
    cases same
    obtain ⟨low, high, named⟩ := (exact candidate part).mp
      ⟨(order.mem_names files directory candidate).mp listed, found⟩
    exact ⟨low, high, by rw [named]⟩
  · rintro ⟨low, high, named⟩
    obtain ⟨there, matched⟩ := (exact (value part) part).mpr ⟨low, high, rfl⟩
    refine ⟨value part, (order.mem_names files directory _).mpr there, ?_⟩
    rw [matched, Option.map_some, ← named]

/-- Discovery on any member of a set whose parts are exactly consecutive sidecars
and one final volume. -/
theorem discoverSplitZip_exact (listable : directory ≠ []) {part : SplitZipPart}
    (parsed : parseSplitZipPart (toAsciiLowercase name) = some (base, part))
    (positive : 0 < count)
    (exact : ∀ candidate part, Files.place directory ++ [Component.normal candidate] ∈ files ∧
        parseSplitZipPart (toAsciiLowercase candidate) = some (base, part) ↔
      (∃ index, 1 ≤ index ∧ index ≤ count ∧ part = .sidecar index ∧ candidate = value index) ∨
        part = .final ∧ candidate = last) :
    discoverSplitZipVolumePaths order files (directory ++ [Component.normal name]) =
      some ((List.range' 1 count).map (fun index => directory ++
          [Component.normal (value index)]) ++
        [directory ++ [Component.normal last]]) := by
  have candidates : ∀ part candidate,
      (part, candidate) ∈ splitZipCandidates ((order.names files directory).map (·, [])) base ↔
      (∃ index, 1 ≤ index ∧ index ≤ count ∧ part = .sidecar index ∧ candidate = value index) ∨
        part = .final ∧ candidate = last := by
    intro part candidate
    rw [mem_splitZipCandidates, ← exact, ← order.mem_names, List.map_map]
    simp
  generalize split : splitZipCandidates ((order.names files directory).map (·, [])) base =
    members at candidates
  have numbered : members.filterMap numberedPart = [] := by
    rw [List.filterMap_eq_nil_iff]
    rintro ⟨part, candidate⟩ member
    rcases (candidates part candidate).mp member with ⟨index, -, -, rfl, -⟩ | ⟨rfl, -⟩
    · rfl
    · rfl
  have sidecars : ∀ pair, pair ∈ members.filterMap sidecarPart ↔
      pair ∈ PartMap.consecutive value count := by
    rintro ⟨index, candidate⟩
    rw [List.mem_filterMap, PartMap.mem_consecutive]
    constructor
    · rintro ⟨⟨part, found⟩, member, same⟩
      rcases (candidates part found).mp member with ⟨_, low, high, rfl, rfl⟩ | ⟨rfl, -⟩
      · cases same
        exact ⟨low, high, rfl⟩
      · cases same
    · rintro ⟨low, high, named⟩
      exact ⟨(.sidecar index, candidate),
        (candidates _ _).mpr (.inl ⟨index, low, high, rfl, named⟩), rfl⟩
  have some_sidecar : members.filterMap sidecarPart ≠ [] := by
    apply List.ne_nil_of_mem
    exact (sidecars (1, value 1)).mpr (PartMap.mem_consecutive.mpr ⟨Nat.le_refl _, positive, rfl⟩)
  have final : (members.filter (·.1 = .final)).getLast? = some (.final, last) := by
    have all_last : ∀ member ∈ members.filter (·.1 = .final), member = (.final, last) := by
      rintro ⟨part, candidate⟩ member
      obtain ⟨inside, finalPart⟩ := List.mem_filter.mp member
      have finalPart : part = .final := by simpa using finalPart
      rcases (candidates part candidate).mp inside with ⟨index, -, -, rfl, -⟩ | ⟨rfl, rfl⟩
      · cases finalPart
      · rfl
    have present : (SplitZipPart.final, last) ∈ members.filter (·.1 = .final) :=
      List.mem_filter.mpr ⟨(candidates _ _).mpr (.inr ⟨rfl, rfl⟩), by simp⟩
    rw [List.getLast?_eq_some_getLast (List.ne_nil_of_mem present)]
    exact congrArg some (all_last _ (List.getLast_mem _))
  unfold discoverSplitZipVolumePaths ReadOrder.readDir discoverSplitZipVolumes
  rw [fileName_concat, directoryOrCurrent_concat listable, if_neg listable]
  simp only [Option.bind_eq_bind, Option.bind_some, parsed, split, numbered, ne_eq,
    not_true_eq_false, ↓reduceIte, some_sidecar, not_false_eq_true,
    contiguousVolumes_exact positive sidecars, final]
  simp

end

/-! ## Found again -/

/-- Discovery reads every path of the set as the whole set, and creation takes
its sidecars for the volumes that exist. -/
def IsSplitZipFoundAgain (order : ReadOrder) (files : Files) (destination : Destination)
    (volumes : List PathBuf) : Prop :=
  (∀ path ∈ volumes, discoverSplitZipVolumePaths order files path = some volumes) ∧
    existingSplitZipVolumePaths order files destination.path = .ok volumes.dropLast

/-- A destination with a `.zip` extension, in any case. -/
structure ZipDestination extends Destination where
  stem : Text
  extension : Text
  stemmed : PathBuf.stemAndExtension name = (stem, some extension)
  isZip : toAsciiLowercase extension = "zip".toList

namespace ZipDestination

variable (destination : ZipDestination)

theorem name_eq : destination.stem ≠ [] ∧ destination.name = destination.stem ++ '.' ::
    destination.extension ∧ '.' ∉ destination.extension :=
  stemAndExtension_eq_some destination.stemmed

theorem stem_ne_nil : destination.stem ≠ [] := destination.name_eq.1

theorem slash_not_mem_stem : '/' ∉ destination.stem := by
  intro member
  apply destination.isEntryName.no_slash
  rw [destination.name_eq.2.1]
  exact List.mem_append_left _ member

theorem rsplitOnce_name :
    Text.rsplitOnce '.' destination.name = some (destination.stem, destination.extension) := by
  rw [destination.name_eq.2.1]
  exact Text.rsplitOnce_append destination.name_eq.2.2

/-- The destination is the final volume of its set. -/
theorem parse_name : parseSplitZipPart (toAsciiLowercase destination.name) =
    some (toAsciiLowercase destination.stem, .final) := by
  rw [parseSplitZipPart_lower destination.rsplitOnce_name, if_pos destination.isZip]

theorem basePath : splitZipBasePath destination.path =
    .ok (PathBuf.setExtension (PathBuf.join destination.directory (destination.stem ++ ['.']))
      []) := by
  have extended : PathBuf.extension destination.path = some destination.extension := by
    unfold PathBuf.extension
    rw [Destination.path, fileName_concat, Option.bind_some, destination.stemmed]
  unfold splitZipBasePath PathBuf.withExtension
  rw [extended, Option.any_some, destination.isZip, if_pos (by simp), Destination.path,
    fileName_concat, Option.map_some, destination.stemmed, List.dropLast_concat]

/-- The base path of a stem that a directory can hold. -/
theorem basePath_entry (valid : IsEntryName destination.stem) :
    splitZipBasePath destination.path =
      .ok (destination.directory ++ [Component.normal destination.stem]) := by
  have nonempty := destination.stem_ne_nil
  rw [destination.basePath, join_entryName
    (isEntryName_dot nonempty valid.ne_dot destination.slash_not_mem_stem)]
  unfold PathBuf.setExtension
  simp only [fileName_concat, stemAndExtension_dot nonempty valid.ne_dot, List.dropLast_concat,
    ↓reduceIte, join_entryName valid]

/-- A stem of dots leads to the parent directory. -/
theorem basePath_dots (dots : destination.stem = ['.'] ∨ destination.stem = ['.', '.']) :
    splitZipBasePath destination.path = .ok (destination.directory ++ [Component.parentDir]) := by
  rw [destination.basePath]
  rcases dots with dot | dotdot
  · rw [dot, List.singleton_append, join_dotdot, setExtension_parentDir]
  · have valid : IsEntryName ['.', '.', '.'] := ⟨by decide, by decide, by decide, by decide⟩
    rw [dotdot, show ['.', '.'] ++ ['.'] = ['.', '.', '.'] from rfl, join_entryName valid]
    unfold PathBuf.setExtension
    rw [fileName_concat, List.dropLast_concat]
    exact congrArg Except.ok (join_dotdot _)

theorem isEntryName_stem_or :
    IsEntryName destination.stem ∨ destination.stem = ['.'] ∨ destination.stem = ['.', '.'] := by
  by_cases dots : destination.stem = ['.'] ∨ destination.stem = ['.', '.']
  · exact .inr dots
  · rw [not_or] at dots
    exact .inl ⟨destination.stem_ne_nil, dots.1, dots.2, destination.slash_not_mem_stem⟩

variable (order : ReadOrder) (files : Files)

theorem existing_entry (valid : IsEntryName destination.stem) :
    existingSplitZipVolumePaths order files destination.path =
      .ok (existingVolumePaths order files destination.directory
        (matchSplitZipSidecar destination.stem)) := by
  unfold existingSplitZipVolumePaths
  rw [destination.basePath_entry valid, Destination.path, directoryOf_concat]
  simp only [bind, Except.bind, fileName_concat]
  rfl

theorem existing_dots (dots : destination.stem = ['.'] ∨ destination.stem = ['.', '.']) :
    existingSplitZipVolumePaths order files destination.path = .ok [] := by
  unfold existingSplitZipVolumePaths
  rw [destination.basePath_dots dots]
  simp only [bind, Except.bind, fileName_parentDir]
  rfl

theorem volumePaths_of_base {base : PathBuf} (based : splitZipBasePath destination.path = .ok base)
    {count : Nat} (several : 2 ≤ count) :
    splitZipVolumePaths destination.path count =
      .ok ((List.range' 1 (count - 1)).map (splitZipSidecarPath base) ++ [destination.path]) := by
  unfold splitZipVolumePaths
  rw [if_neg (by omega), based]
  rfl

/-- The volumes of a set whose stem has no extension, in order. -/
def volumes (count : Nat) : List PathBuf :=
  (List.range' 1 (count - 1)).map (fun index =>
    destination.directory ++ [Component.normal (sidecarName destination.stem index)]) ++
        [destination.path]

/-- The volumes of a stem that a directory can hold and that has no extension. -/
theorem volumePaths_simple (valid : IsEntryName destination.stem)
    (simple : '.' ∉ destination.stem.tail) {count : Nat} (several : 2 ≤ count) :
    splitZipVolumePaths destination.path count =
      .ok (destination.volumes count) := by
  rw [destination.volumePaths_of_base (destination.basePath_entry valid) several,
    List.map_congr_left fun index _ => splitZipSidecarPath_simple valid simple index]
  rfl

end ZipDestination

section

variable {order : ReadOrder} {files : Files} {destination : ZipDestination} {count : Nat}
  {volumes : List PathBuf}

/-- An existing volume has the stem of the destination and a part number that
fits. -/
theorem sidecarName_of_existing {stem : Text} {index : Nat}
    (member : destination.directory ++ [Component.normal (sidecarName stem index)] ∈
      existingVolumePaths order files destination.directory
        (matchSplitZipSidecar destination.stem)) :
    stem.length = destination.stem.length ∧ index < 2 ^ 32 := by
  obtain ⟨name, part, matched, same, -⟩ := mem_existingVolumePaths member
  have names := Component.normal.inj (List.head_eq_of_cons_eq (List.append_cancel_left same))
  rw [← names, matchSplitZipSidecar_sidecarName] at matched
  split_ifs at matched with fits
  have lengths := congrArg List.length fits.1
  rw [toAsciiLowercase, toAsciiLowercase, List.length_map, List.length_map] at lengths
  exact ⟨lengths, fits.2.2⟩

/-- Creation sees the sidecars only when the names keep the stem and the numbers
fit. -/
theorem conditions_of_existing (several : 2 ≤ count)
    (named : splitZipVolumePaths destination.path count = .ok volumes)
    (existing : existingSplitZipVolumePaths order files destination.path = .ok volumes.dropLast) :
    destination.directory ≠ [] ∧ '.' ∉ destination.stem.tail ∧ destination.stem ≠ ['.'] ∧
      count ≤ 2 ^ 32 := by
  rcases destination.isEntryName_stem_or with valid | dots
  · rw [destination.volumePaths_of_base (destination.basePath_entry valid) several] at named
    cases named
    rw [destination.existing_entry order files valid, List.dropLast_concat] at existing
    have existing := Except.ok.inj existing
    have member : ∀ index, 1 ≤ index → index < count →
        splitZipSidecarPath (destination.directory ++ [Component.normal destination.stem]) index ∈
          existingVolumePaths order files destination.directory
            (matchSplitZipSidecar destination.stem) := by
      intro index low high
      rw [existing]
      exact List.mem_map.mpr ⟨index, List.mem_range'_1.mpr (by omega), rfl⟩
    have simple : '.' ∉ destination.stem.tail := by
      intro dotted
      have first := member 1 (Nat.le_refl _) (by omega)
      rcases @splitZipSidecarPath_dotted destination.directory _ valid dotted with
        upward | ⟨shorter, short, path⟩
      · rw [upward] at first
        obtain ⟨name, -, -, same, -⟩ := mem_existingVolumePaths first
        cases List.head_eq_of_cons_eq (List.append_cancel_left same)
      · rw [path] at first
        have lengths := (sidecarName_of_existing first).1
        omega
    refine ⟨?_, simple, valid.ne_dot, ?_⟩
    · intro bare
      have first := member 1 (Nat.le_refl _) (by omega)
      unfold existingVolumePaths ReadOrder.readDir at first
      rw [if_pos bare] at first
      cases first
    · have last := member (count - 1) (by omega) (by omega)
      rw [splitZipSidecarPath_simple valid simple] at last
      have small := (sidecarName_of_existing last).2
      omega
  · rw [destination.existing_dots order files dots] at existing
    rw [destination.volumePaths_of_base (destination.basePath_dots dots) several] at named
    cases named
    have lengths := congrArg List.length (Except.ok.inj existing)
    rw [List.dropLast_concat, List.length_map, List.length_range', List.length_nil] at lengths
    omega

theorem parse_sidecarName {index : Nat} (positive : 0 < index) (small : index < 2 ^ 32) :
    parseSplitZipPart (toAsciiLowercase (sidecarName destination.stem index)) =
      some (toAsciiLowercase destination.stem, .sidecar index) := by
  rw [← matchSplitZipSidecar_eq_some_iff destination.stem_ne_nil, matchSplitZipSidecar_sidecarName,
    if_pos ⟨rfl, positive, small⟩]

theorem mem_of_symlinkMetadata {directory : PathBuf} {name : Text}
    (present : files.symlinkMetadata (directory ++ [Component.normal name]) ≠ none) :
    Files.place directory ++ [Component.normal name] ∈ files := by
  unfold Files.symlinkMetadata at present
  rw [fileName_concat, if_neg (Option.some_ne_none _), place_concat] at present
  by_contra absent
  exact present (Finmap.lookup_eq_none.mpr absent)

theorem mem_volumes {candidate : Text} :
    destination.directory ++ [Component.normal candidate] ∈ destination.volumes count ↔
      (∃ index, 1 ≤ index ∧ index < count ∧ candidate = sidecarName destination.stem index) ∨
        candidate = destination.name := by
  unfold ZipDestination.volumes Destination.path
  simp only [List.mem_append, List.mem_map, List.mem_range'_1, List.mem_singleton,
    List.append_cancel_left_eq, List.cons.injEq, Component.normal.injEq, and_true]
  constructor
  · rintro (⟨index, bounds, same⟩ | same)
    · exact .inl ⟨index, by omega, by omega, same.symm⟩
    · exact .inr same
  · rintro (⟨index, low, high, same⟩ | same)
    · exact .inl ⟨index, by omega, same.symm⟩
    · exact .inr same

/-- The members of a set that stands alone in its directory. -/
theorem members_iff (small : count ≤ 2 ^ 32)
    (present : ∀ path ∈ destination.volumes count, files.symlinkMetadata path ≠ none)
    (alone : ∀ candidate part, Files.place destination.directory ++ [Component.normal candidate] ∈
        files →
      parseSplitZipPart (toAsciiLowercase candidate) =
        some (toAsciiLowercase destination.stem, part) →
      destination.directory ++ [Component.normal candidate] ∈ destination.volumes count)
    (candidate : Text) (part : SplitZipPart) :
    Files.place destination.directory ++ [Component.normal candidate] ∈ files ∧
        parseSplitZipPart (toAsciiLowercase candidate) =
          some (toAsciiLowercase destination.stem, part) ↔
      (∃ index, 1 ≤ index ∧ index ≤ count - 1 ∧ part = .sidecar index ∧
        candidate = sidecarName destination.stem index) ∨
        part = .final ∧ candidate = destination.name := by
  constructor
  · rintro ⟨there, parsed⟩
    rcases mem_volumes.mp (alone candidate part there parsed) with ⟨index, low, high, rfl⟩ | rfl
    · rw [parse_sidecarName low (by omega)] at parsed
      cases parsed
      exact .inl ⟨index, low, by omega, rfl, rfl⟩
    · rw [destination.parse_name] at parsed
      cases parsed
      exact .inr ⟨rfl, rfl⟩
  · rintro (⟨index, low, high, rfl, rfl⟩ | ⟨rfl, rfl⟩)
    · refine ⟨mem_of_symlinkMetadata (present _ ?_), parse_sidecarName low (by omega)⟩
      exact mem_volumes.mpr (.inl ⟨index, low, by omega, rfl⟩)
    · exact ⟨mem_of_symlinkMetadata (present _ (mem_volumes.mpr (.inr rfl))),
        destination.parse_name⟩

/-- **Split ZIP names are found again.** Once the volumes of a set exist, discovery
reads each of them as exactly the set, and creation takes exactly its sidecars
for existing volumes, if and only if the destination has a directory component,
the stem no extension of its own, and the part numbers fit in 32 bits. -/
theorem split_zip_volumes_found_again_iff (several : 2 ≤ count)
    (named : splitZipVolumePaths destination.path count = .ok volumes)
    (present : ∀ path ∈ volumes, files.symlinkMetadata path ≠ none)
    (alone : ∀ candidate part, Files.place destination.directory ++ [Component.normal candidate] ∈
        files →
      parseSplitZipPart (toAsciiLowercase candidate) =
        some (toAsciiLowercase destination.stem, part) →
      destination.directory ++ [Component.normal candidate] ∈ volumes) :
    IsSplitZipFoundAgain order files destination.toDestination volumes ↔
      destination.directory ≠ [] ∧ '.' ∉ destination.stem.tail ∧ destination.stem ≠ ['.'] ∧
        count ≤ 2 ^ 32 := by
  constructor
  · rintro ⟨-, existing⟩
    exact conditions_of_existing several named existing
  · rintro ⟨listable, simple, noDot, small⟩
    have valid : IsEntryName destination.stem := by
      refine ⟨destination.stem_ne_nil, noDot, ?_, destination.slash_not_mem_stem⟩
      intro dots
      rw [dots] at simple
      exact simple (by decide)
    rw [destination.volumePaths_simple valid simple several] at named
    cases named
    have exact := members_iff small present alone
    refine ⟨?_, ?_⟩
    · intro path member
      have parsed : ∃ name part, path = destination.directory ++ [Component.normal name] ∧
          parseSplitZipPart (toAsciiLowercase name) =
            some (toAsciiLowercase destination.stem, part) := by
        rcases List.mem_append.mp member with sidecar | final
        · obtain ⟨index, bounds, rfl⟩ := List.mem_map.mp sidecar
          rw [List.mem_range'_1] at bounds
          exact ⟨_, _, rfl, parse_sidecarName bounds.1 (by omega)⟩
        · rw [List.mem_singleton.mp final]
          exact ⟨_, _, rfl, destination.parse_name⟩
      obtain ⟨name, part, rfl, parsed⟩ := parsed
      exact discoverSplitZip_exact listable parsed (by omega) exact
    · rw [destination.existing_entry order files valid, ZipDestination.volumes,
        List.dropLast_concat]
      congr 1
      apply existingVolumePaths_exact listable
      intro candidate part
      rw [matchSplitZipSidecar_eq_some_iff destination.stem_ne_nil, exact]
      constructor
      · rintro (⟨_, low, high, same, rfl⟩ | ⟨same, -⟩)
        · cases same
          exact ⟨low, high, rfl⟩
        · cases same
      · rintro ⟨low, high, rfl⟩
        exact .inl ⟨part, low, high, rfl, rfl⟩

end

/-! ## Two small sets -/

/-- The destination `stem.zip` in the directory `d`. -/
def archiveZip (stem : Text) (valid : IsEntryName (stem ++ ".zip".toList))
    (stemmed : PathBuf.stemAndExtension (stem ++ ".zip".toList) = (stem, some "zip".toList)) :
    ZipDestination where
  directory := [.rootDir, .normal ['d']]
  name := stem ++ ".zip".toList
  isEntryName := valid
  stem := stem
  extension := "zip".toList
  stemmed := stemmed
  isZip := by decide

/-- A directory `d` that holds two files. -/
def twoFiles (first second : Text) : Files :=
  ((∅ : Files).insert [.rootDir, .normal ['d'], .normal first] (.file [1])).insert
    [.rootDir, .normal ['d'], .normal second] (.file [2])

theorem mem_twoFiles {first second candidate : Text}
    (present : Files.place [.rootDir, .normal ['d']] ++ [Component.normal candidate] ∈
      twoFiles first second) : candidate = first ∨ candidate = second := by
  rcases Finmap.mem_insert.mp present with same | inner
  · exact .inr (by simpa [Files.place] using same)
  · rcases Finmap.mem_insert.mp inner with same | impossible
    · exact .inl (by simpa [Files.place] using same)
    · exact absurd impossible Finmap.notMem_empty

def simpleZip : ZipDestination :=
  archiveZip ['a'] ⟨by decide, by decide, by decide, by decide⟩ (by decide)

def dottedZip : ZipDestination :=
  archiveZip "a.b".toList ⟨by decide, by decide, by decide, by decide⟩ (by decide)

theorem split_zip_volumes_found_again_simple :
    IsSplitZipFoundAgain .ofKeys (twoFiles "a.z01".toList "a.zip".toList)
      simpleZip.toDestination (simpleZip.volumes 2) := by
  refine (split_zip_volumes_found_again_iff (Nat.le_refl 2) (by decide) ?_ ?_).mpr
    ⟨by decide, by decide, by decide, by decide⟩
  · decide +kernel
  · intro candidate part present parsed
    rcases mem_twoFiles present with rfl | rfl <;> decide +kernel

/-- The sidecar of `a.b.zip` is `a.z01`, which neither discovery nor creation takes
for its volume. -/
theorem split_zip_dotted_volumes_lost :
    splitZipVolumePaths dottedZip.path 2 =
        .ok [[.rootDir, .normal ['d'], .normal "a.z01".toList], dottedZip.path] ∧
      (∀ path ∈ [[.rootDir, .normal ['d'], .normal "a.z01".toList], dottedZip.path],
        (twoFiles "a.z01".toList "a.b.zip".toList).symlinkMetadata path ≠ none) ∧
      (∀ candidate part, Files.place dottedZip.directory ++ [Component.normal candidate] ∈
          twoFiles "a.z01".toList "a.b.zip".toList →
        parseSplitZipPart (toAsciiLowercase candidate) =
          some (toAsciiLowercase dottedZip.stem, part) → candidate = dottedZip.name) ∧
      ¬ IsSplitZipFoundAgain .ofKeys (twoFiles "a.z01".toList "a.b.zip".toList)
        dottedZip.toDestination
        [[.rootDir, .normal ['d'], .normal "a.z01".toList], dottedZip.path] := by
  have named : splitZipVolumePaths dottedZip.path 2 =
      .ok [[.rootDir, .normal ['d'], .normal "a.z01".toList], dottedZip.path] := by
    decide +kernel
  refine ⟨named, by decide +kernel, ?_, ?_⟩
  · intro candidate part present parsed
    rcases mem_twoFiles present with rfl | rfl
    · cases parsed
    · rfl
  · rintro ⟨-, existing⟩
    exact (conditions_of_existing (Nat.le_refl 2) named existing).2.1 (by decide)

end ZManager
