import ZManager.Create.LowerNames
import ZManager.Create.Tzap

/-! # What the steps of a TZAP run leave

Up to the commit of the volumes a run only adds temporary files, which a failure
drops again. The names it touches end in `.tzap` or are the base name itself, so
that neither the bootstrap sidecar nor a temporary file is among them.
-/

namespace ZManager

/-- A name that ends in `.tzap`, in any case. -/
def IsTzapName (name : Text) : Prop :=
  ".tzap".toList <:+ toAsciiLowercase name

/-- What the archive library promises of its names: a base name is the name itself
or lacks an ending in `.tzap`, volumes are `BASE.volNNN.tzap` beside the
destination, and the volumes found in a directory are files there. -/
structure TzapVolumeFiles.IsLawful (core : TzapVolumeFiles) : Prop where
  base_cases : ∀ name, core.multiVolumeBaseName name = name ∨
    ∃ suffix, name = core.multiVolumeBaseName name ++ suffix ∧ IsTzapName suffix
  volume_path : ∀ directory name index,
    core.volumeOutputPath (directory ++ [Component.normal name]) index =
      directory ++ [Component.normal (core.multiVolumeBaseName name ++ ".vol".toList ++
        Text.padded 3 index ++ ".tzap".toList)]
  siblings : ∀ files directory base paths,
    core.discoverSiblingVolumePaths files directory base = .ok paths →
      ∀ path ∈ paths, ∃ name, path = directory ++ [Component.normal name] ∧
        Files.place directory ++ [Component.normal name] ∈ files ∧ IsTzapName name

theorem IsTzapName.append {front suffix : Text} (ending : IsTzapName suffix) :
    IsTzapName (front ++ suffix) := by
  unfold IsTzapName
  rw [toAsciiLowercase_append]
  exact ending.trans (List.suffix_append _ _)

/-- A name that ends otherwise. -/
theorem not_isTzapName {name ending : Text} (other : ¬ending <:+ ".tzap".toList)
    (short : ending.length ≤ 5) (ends : ending <:+ toAsciiLowercase name) :
    ¬IsTzapName name := by
  intro tzap
  exact other (List.suffix_of_suffix_length_le ends tzap short)

theorem not_isTzapName_tempName (names : TempNames) (path : PathBuf) (attempt : Nat) :
    ¬IsTzapName (AtomicOutputFile.tempName names path attempt) := by
  have ending : ¬".tmp".toList <:+ ".tzap".toList := by decide
  apply not_isTzapName ending (by decide)
  unfold AtomicOutputFile.tempName
  rw [toAsciiLowercase_append]
  exact List.suffix_append _ _

theorem not_isTzapName_sidecar (base : Text) : ¬IsTzapName (base ++ ".sidecar".toList) := by
  intro tzap
  have ends : "r".toList <:+ toAsciiLowercase (base ++ ".sidecar".toList) := by
    rw [toAsciiLowercase_append]
    exact (by decide : "r".toList <:+ toAsciiLowercase ".sidecar".toList).trans
      (List.suffix_append _ _)
  exact not_isTzapName (by decide) (by decide) ends tzap

/-- A text is determined by what stands before a dash and a numeral. -/
theorem eq_of_append_dash_numeral {front front' : Text} {number number' : Nat}
    (same : front ++ "-".toList ++ Nat.toDigits 10 number =
      front' ++ "-".toList ++ Nat.toDigits 10 number') : front = front' := by
  have dash : ∀ number, '-' ∉ Nat.toDigits 10 number := by
    intro number member
    have digit := Text.isDigit_of_mem_decimal member
    cases digit
  have single : "-".toList = ['-'] := by simp
  rw [single, List.append_assoc, List.append_assoc, List.singleton_append,
    List.singleton_append] at same
  exact (Text.append_cons_inj_of_last same (dash _) (dash _)).1

/-- Temporary names of different files are different. -/
theorem AtomicOutputFile.fileName_eq_of_tempName_eq {names : TempNames} {path path' : PathBuf}
    {attempt attempt' : Nat} {name name' : Text} (named : PathBuf.fileName path = some name)
    (named' : PathBuf.fileName path' = some name')
    (same : tempName names path attempt = tempName names path' attempt') : name = name' := by
  unfold tempName at same
  rw [named, named', Option.getD_some, Option.getD_some] at same
  have attempts := List.append_cancel_right same
  have clocks := eq_of_append_dash_numeral attempts
  have processes := eq_of_append_dash_numeral clocks
  exact List.append_cancel_left (eq_of_append_dash_numeral processes)

/-! ## Touched names -/

section

variable {core : TzapVolumeFiles} (lawful : core.IsLawful) {files : Files} {directory : PathBuf}
  {name : Text} {existing : List PathBuf} {count : Nat}

variable {path : PathBuf}

/-- A path in the destination's directory that a run may write or remove: it ends in
`.tzap` or is the base name. -/
def IsTouched (core : TzapVolumeFiles) (directory : PathBuf) (name : Text) (path : PathBuf) :
    Prop :=
  ∃ touched, PathBuf.fileName path = some touched ∧
    Files.place path = Files.place directory ++ [Component.normal touched] ∧
    (IsTzapName touched ∨ touched = core.multiVolumeBaseName name)

include lawful in
theorem isTouched_destination :
    IsTouched core directory name (directory ++ [Component.normal name]) := by
  refine ⟨name, fileName_concat _ _, place_concat _ _, ?_⟩
  rcases lawful.base_cases name with same | ⟨suffix, recomposed, ending⟩
  · exact .inr same.symm
  · left
    rw [recomposed]
    exact ending.append

theorem isTzapName_volume (base : Text) (index : Nat) :
    IsTzapName (base ++ ".vol".toList ++ Text.padded 3 index ++ ".tzap".toList) :=
  IsTzapName.append (by unfold IsTzapName; decide)

include lawful in
theorem isTouched_volume
    (member : path ∈ tzapOutputVolumePaths core (directory ++ [Component.normal name]) count) :
    IsTouched core directory name path := by
  unfold tzapOutputVolumePaths at member
  split_ifs at member with single
  · rw [List.mem_singleton.mp member]
    exact isTouched_destination lawful
  · obtain ⟨index, -, rfl⟩ := List.mem_map.mp member
    rw [lawful.volume_path]
    exact ⟨_, fileName_concat _ _, place_concat _ _, .inl (isTzapName_volume _ _)⟩

theorem place_directoryOrCurrent :
    Files.place (directoryOrCurrent (directory ++ [Component.normal name])) =
        Files.place directory := by
  have parent : PathBuf.parent (directory ++ [Component.normal name]) = some directory := by
    simp [PathBuf.parent]
  unfold directoryOrCurrent
  rw [parent]
  cases directory with
  | nil => rfl
  | cons head rest => rfl

include lawful in
theorem isTouched_existing
    (found : existingTzapVolumePaths core files (directory ++ [Component.normal name]) =
        .ok existing) (member : path ∈ existing) : IsTouched core directory name path := by
  unfold existingTzapVolumePaths at found
  rw [fileName_concat] at found
  simp only at found
  cases discovered : core.discoverSiblingVolumePaths files
      (directoryOrCurrent (directory ++
          [Component.normal name])) (core.multiVolumeBaseName name) with
  | error source =>
    rw [discovered] at found
    cases found
  | ok paths =>
    rw [discovered] at found
    cases found
    obtain ⟨sibling, rfl, -, ending⟩ := lawful.siblings _ _ _ _ discovered path member
    exact ⟨sibling, fileName_concat _ _, by rw [place_concat, place_directoryOrCurrent],
      .inl ending⟩

include lawful in
theorem isTouched_of_mem
    (found : existingTzapVolumePaths core files (directory ++ [Component.normal name]) =
        .ok existing)
    {path : PathBuf} (member : path ∈ (directory ++ [Component.normal name]) ::
      (tzapOutputVolumePaths core (directory ++ [Component.normal name]) count ++ existing)) :
    IsTouched core directory name path := by
  rcases List.mem_cons.mp member with rfl | inside
  · exact isTouched_destination lawful
  · rcases List.mem_append.mp inside with volume | old
    · exact isTouched_volume lawful volume
    · exact isTouched_existing lawful found old

/-- A path with another ending and a longer name is not touched. -/
theorem IsTouched.place_ne {other : PathBuf} (touched : IsTouched core directory name path)
    {candidate : Text} (named : PathBuf.fileName other = some candidate)
    (plain : ¬IsTzapName candidate)
    (long : (core.multiVolumeBaseName name).length < candidate.length) :
    Files.place path ≠ Files.place other := by
  intro same
  obtain ⟨found, nameOf, -, kind⟩ := touched
  have equal := fileName_eq_of_place_eq nameOf named same
  subst equal
  rcases kind with tzap | base
  · exact plain tzap
  · rw [base] at long
    omega

/-- A touched volume has at least the length of the base name. -/
theorem length_base_le (lawful : core.IsLawful) {found : Text}
    (member : path ∈ tzapOutputVolumePaths core (directory ++ [Component.normal name]) count)
    (named : PathBuf.fileName path = some found) :
    (core.multiVolumeBaseName name).length ≤ found.length := by
  unfold tzapOutputVolumePaths at member
  split_ifs at member with single
  · rw [List.mem_singleton.mp member, fileName_concat] at named
    cases named
    rcases lawful.base_cases name with same | ⟨suffix, recomposed, -⟩
    · rw [same]
    · have lengths := congrArg List.length recomposed
      rw [List.length_append] at lengths
      omega
  · obtain ⟨index, -, rfl⟩ := List.mem_map.mp member
    rw [lawful.volume_path, fileName_concat] at named
    cases named
    simp only [List.length_append]
    omega

include lawful in
theorem nodup_tzapOutputVolumePaths :
    ((tzapOutputVolumePaths core (directory ++
        [Component.normal name]) count).map Files.place).Nodup := by
  unfold tzapOutputVolumePaths
  split_ifs with single
  · exact List.nodup_singleton _
  · rw [List.map_map]
    apply List.Nodup.map _ List.nodup_range
    intro index index' same
    simp only [Function.comp_apply, lawful.volume_path] at same
    have names := fileName_eq_of_place_eq (fileName_concat _ _) (fileName_concat _ _) same
    have numerals := List.append_cancel_right names
    exact padded_injective 3 (List.append_cancel_left numerals)

end

/-! ## Staging the volumes -/

/-- A temporary name for the path is free. -/
def HasFreeTemp (names : TempNames) (files : Files) (path : PathBuf) : Prop :=
  ∃ attempt < AtomicOutputFile.maxTempAttempts,
    files.symlinkMetadata (AtomicOutputFile.tempPathAt names path attempt) = none

section

variable {names : TempNames} {base files last : Files} {path : PathBuf} {paths : List PathBuf}
  {staged : List (AtomicOutputFile × List UInt8)}

theorem create_ok_iff :
    (∃ result, AtomicOutputFile.create names files path = .ok result) ↔
      HasFreeTemp names files path := by
  unfold AtomicOutputFile.create HasFreeTemp
  cases found : (List.range AtomicOutputFile.maxTempAttempts).find? fun attempt =>
      decide (files.symlinkMetadata (AtomicOutputFile.tempPathAt names path attempt) = none) with
  | none =>
    rw [List.find?_eq_none] at found
    constructor
    · rintro ⟨result, impossible⟩
      cases impossible
    · rintro ⟨attempt, inside, free⟩
      exact absurd (by simpa using free) (found attempt (List.mem_range.mpr inside))
  | some attempt =>
    have free := List.find?_some found
    have inside := List.mem_range.mp (List.mem_of_find?_eq_some found)
    exact ⟨fun _ => ⟨attempt, inside, by simpa using free⟩, fun _ => ⟨_, rfl⟩⟩

/-- A name that is free beside staged outputs was free before. -/
theorem Staged.hasFreeTemp (held : Staged base files staged)
    (free : HasFreeTemp names files path) : HasFreeTemp names base path := by
  obtain ⟨attempt, inside, absent⟩ := free
  refine ⟨attempt, inside, ?_⟩
  rw [← held.symlinkMetadata_eq]
  · exact absent
  · intro output member same
    have named := AtomicOutputFile.fileName_tempPathAt names path attempt
    rw [Files.symlinkMetadata, if_neg (by rw [named]; exact Option.some_ne_none _), same,
      held.held output member] at absent
    cases absent

/-- A name that was free before is free beside outputs of other names. -/
theorem Staged.hasFreeTemp_of_base (held : Staged base files staged) {name : Text}
    (named : PathBuf.fileName path = some name)
    (temps : ∀ output ∈ staged, ∃ attempt,
      output.1.tempPath = AtomicOutputFile.tempPathAt names output.1.finalPath attempt)
    (others : ∀ output ∈ staged, ∃ other, PathBuf.fileName output.1.finalPath = some other ∧
      other ≠ name)
    (free : HasFreeTemp names base path) : HasFreeTemp names files path := by
  obtain ⟨attempt, inside, absent⟩ := free
  refine ⟨attempt, inside, ?_⟩
  rw [held.symlinkMetadata_eq]
  · exact absent
  · intro output member same
    obtain ⟨attempt', temp⟩ := temps output member
    obtain ⟨other, nameOf, different⟩ := others output member
    rw [temp] at same
    have equal := fileName_eq_of_place_eq (AtomicOutputFile.fileName_tempPathAt _ _ _)
      (AtomicOutputFile.fileName_tempPathAt _ _ _) same
    exact different (AtomicOutputFile.fileName_eq_of_tempName_eq named nameOf equal).symm

namespace TzapArchiveFileSink

/-- Staging fails only by running out of names, and then drops what it staged. -/
theorem createOutputs_error {failure : TzapError} (held : Staged base files staged)
    (failed : createOutputs names paths (staged.map Prod.fst) files = (.error failure, last)) :
    last = base := by
  induction paths generalizing staged files with
  | nil => cases failed
  | cons path rest ih =>
    unfold createOutputs at failed
    cases created : AtomicOutputFile.create names files path with
    | error source =>
      rw [created] at failed
      cases failed
      exact held.dropAll
    | ok result =>
      obtain ⟨output, files'⟩ := result
      obtain ⟨-, -, held⟩ := held.create created
      have outputs : staged.map Prod.fst ++ [output] =
          (staged ++ [(output, ([] : List UInt8))]).map Prod.fst := by simp
      rw [created] at failed
      simp only [outputs] at failed
      exact ih held failed

/-- Staging adds an empty output for each path. -/
theorem createOutputs_ok {outputs : List AtomicOutputFile} (held : Staged base files staged)
    (done : createOutputs names paths (staged.map Prod.fst) files = (.ok outputs, last)) :
    ∃ added, outputs = (staged ++ added).map Prod.fst ∧ Staged base last (staged ++ added) ∧
      added.map (·.1.finalPath) = paths ∧ added.map (·.2) = List.replicate paths.length [] ∧
      (∀ output ∈ added, ∃ attempt,
        output.1.tempPath = AtomicOutputFile.tempPathAt names output.1.finalPath attempt) ∧
      ∀ path ∈ paths, HasFreeTemp names base path := by
  induction paths generalizing staged files with
  | nil =>
    cases done
    exact ⟨[], by simp, by simpa using held, rfl, rfl, by simp, by simp⟩
  | cons path rest ih =>
    unfold createOutputs at done
    cases created : AtomicOutputFile.create names files path with
    | error source =>
      rw [created] at done
      cases done
    | ok result =>
      have free := held.hasFreeTemp (create_ok_iff.mp ⟨result, created⟩)
      obtain ⟨output, files'⟩ := result
      obtain ⟨final, ⟨attempt, temp⟩, held⟩ := held.create created
      have outputs : staged.map Prod.fst ++ [output] =
          (staged ++ [(output, ([] : List UInt8))]).map Prod.fst := by simp
      rw [created] at done
      simp only [outputs] at done
      obtain ⟨added, same, held, finals, contents, temps, frees⟩ := ih held done
      refine ⟨(output, []) :: added, ?_, ?_, ?_, ?_, ?_, ?_⟩
      · simpa using same
      · simpa using held
      · rw [List.map_cons, finals, final]
      · rw [List.map_cons, contents, List.length_cons, List.replicate_succ]
      · intro candidate member
        rcases List.mem_cons.mp member with rfl | inside
        · exact ⟨attempt, by rw [temp, final]⟩
        · exact temps candidate inside
      · exact List.forall_mem_cons.mpr ⟨free, frees⟩

/-- Staging succeeds when the names differ and each has a free temporary name. -/
theorem createOutputs_succeeds (held : Staged base files staged)
    (temps : ∀ output ∈ staged, ∃ attempt,
      output.1.tempPath = AtomicOutputFile.tempPathAt names output.1.finalPath attempt)
    (named : ∀ path ∈ staged.map (·.1.finalPath) ++ paths, PathBuf.fileName path ≠ none)
    (distinct : ((staged.map (·.1.finalPath) ++ paths).map PathBuf.fileName).Nodup)
    (free : ∀ path ∈ paths, HasFreeTemp names base path) :
    ∃ outputs last, createOutputs names paths (staged.map Prod.fst) files = (.ok outputs, last) :=
        by
  induction paths generalizing staged files with
  | nil => exact ⟨_, _, rfl⟩
  | cons path rest ih =>
    obtain ⟨name, nameOf⟩ := Option.ne_none_iff_exists'.mp (named path (by simp))
    have others : ∀ output ∈ staged, ∃ other,
        PathBuf.fileName output.1.finalPath = some other ∧ other ≠ name := by
      intro output member
      have listed : output.1.finalPath ∈ staged.map (·.1.finalPath) :=
        List.mem_map.mpr ⟨output, member, rfl⟩
      obtain ⟨other, found⟩ := Option.ne_none_iff_exists'.mp
        (named output.1.finalPath (List.mem_append_left _ listed))
      refine ⟨other, found, ?_⟩
      rintro rfl
      rw [List.map_append, List.nodup_append] at distinct
      refine distinct.2.2 _ (List.mem_map_of_mem listed) _ (List.mem_map_of_mem
        (List.mem_cons_self ..)) ?_
      rw [found, nameOf]
    have here := held.hasFreeTemp_of_base nameOf temps others (free path (List.mem_cons_self ..))
    obtain ⟨⟨output, files'⟩, created⟩ := create_ok_iff.mpr here
    obtain ⟨final, ⟨attempt, temp⟩, held⟩ := held.create created
    have outputs : staged.map Prod.fst ++ [output] =
        (staged ++ [(output, ([] : List UInt8))]).map Prod.fst := by simp
    have finals : (staged ++ [(output, ([] : List UInt8))]).map (·.1.finalPath) ++ rest =
        staged.map (·.1.finalPath) ++ path :: rest := by simp [final]
    unfold createOutputs
    rw [created]
    simp only [outputs]
    apply ih held
    · intro candidate member
      rcases List.mem_append.mp member with inside | new
      · exact temps candidate inside
      · rw [List.mem_singleton.mp new]
        exact ⟨attempt, by rw [temp, final]⟩
    · rw [finals]
      exact named
    · rw [finals]
      exact distinct
    · exact fun other member => free other (List.mem_cons_of_mem _ member)

end TzapArchiveFileSink

end

end ZManager
