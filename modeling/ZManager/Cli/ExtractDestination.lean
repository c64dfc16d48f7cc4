import ZManager.Create.SplitZipNames
import ZManager.Detect.Formats

/-! # The default destination of the extract command

Without a destination the archive is unpacked into a sibling named like it without its extension.
The command takes off the extensions of six formats only: an archive of another format, or a
volume, gives its own path.
-/

namespace ZManager.Cli

open Detect

/-- The extensions that are taken off, in the order of the search. -/
def knownArchiveSuffixes : List Text :=
  tarZstExtensions ++ zipFamilyExtensions ++ sevenZExtensions ++ appleArchiveExtensions ++
    rarExtensions ++ debExtensions

def stripSuffixIgnoreAsciiCase (value suffix : Text) : Option Text :=
  if endsWithIgnoreAsciiCase value suffix then some (value.take (value.length - suffix.length))
  else none

/-- The name without the first known suffix it ends in. -/
def stripKnownArchiveSuffix (name : Text) : Option Text :=
  knownArchiveSuffixes.findSome? (stripSuffixIgnoreAsciiCase name)

/-- Where an archive is extracted to by default. -/
def defaultExtractDestination (archive : Text) : PathBuf :=
  let path := PathBuf.ofText archive
  let name := (PathBuf.fileName path).getD "archive".toList
  let stem := (stripKnownArchiveSuffix name).getD name
  PathBuf.join ((PathBuf.parent path).getD [.curDir]) stem

/-! ## The suffixes -/

/-- No suffix is the end of another one. -/
theorem knownArchiveSuffixes_apart : ∀ one ∈ knownArchiveSuffixes, ∀ two ∈ knownArchiveSuffixes,
    toAsciiLowercase one <:+ toAsciiLowercase two → one = two := by
  decide +kernel

/-- A name has one known suffix at most. -/
theorem knownSuffix_unique {name one two : Text} (known : one ∈ knownArchiveSuffixes)
    (known' : two ∈ knownArchiveSuffixes) (first : endsWithIgnoreAsciiCase name one)
    (second : endsWithIgnoreAsciiCase name two) : one = two := by
  rcases suffix_or_suffix first second with inside | inside
  · exact knownArchiveSuffixes_apart one known two known' inside
  · exact (knownArchiveSuffixes_apart two known' one known inside).symm

/-- What is taken off is the known suffix of the name. -/
theorem stripKnownArchiveSuffix_eq_some_iff {name stem : Text} :
    stripKnownArchiveSuffix name = some stem ↔
      ∃ suffix ∈ knownArchiveSuffixes, stripSuffixIgnoreAsciiCase name suffix = some stem := by
  have ends {suffix stem : Text} (found : stripSuffixIgnoreAsciiCase name suffix = some stem) :
      endsWithIgnoreAsciiCase name suffix := by
    unfold stripSuffixIgnoreAsciiCase at found
    split at found
    next ends => exact ends
    next => cases found
  constructor
  · exact fun found => List.exists_of_findSome?_eq_some found
  · rintro ⟨suffix, known, found⟩
    cases first : stripKnownArchiveSuffix name with
    | none =>
      rw [List.findSome?_eq_none_iff.mp first suffix known] at found
      cases found
    | some other =>
      obtain ⟨suffix', known', found'⟩ := List.exists_of_findSome?_eq_some first
      obtain rfl := knownSuffix_unique known' known (ends found') (ends found)
      exact found'.symm.trans found

/-- The known suffixes that belong to a format. -/
def strippedExtensions : ArchiveFormatKind → List Text
  | .tarZst => tarZstExtensions
  | .zip | .splitZip => zipFamilyExtensions
  | .sevenZ => sevenZExtensions
  | .appleArchive => appleArchiveExtensions
  | .rar => rarExtensions
  | .deb => debExtensions
  | _ => []

theorem strippedExtensions_subset (kind : ArchiveFormatKind) :
    strippedExtensions kind ⊆ knownArchiveSuffixes := by
  cases kind <;> decide +kernel

/-- Every known suffix has a dot, and what stands behind its last one names no volume. -/
theorem knownSuffix_facts : ∀ suffix ∈ knownArchiveSuffixes, 0 < suffix.length ∧
    (Text.rsplitOnce '.' (toAsciiLowercase suffix)).isSome ∧
    ∀ parts ∈ Text.rsplitOnce '.' (toAsciiLowercase suffix),
      (parts.2.all fun char => decide (char.toNat < 128)) ∧
      ¬ (parts.2.drop 1).all Char.isDigit ∧
      (parts.2 = "zip".toList → suffix ∈ zipFamilyExtensions) ∧ parts.2 ≠ "tzap".toList := by
  decide +kernel

theorem knownSuffix_last (suffix) (known : suffix ∈ knownArchiveSuffixes) :
    ∃ parts, Text.rsplitOnce '.' (toAsciiLowercase suffix) = some parts :=
  Option.isSome_iff_exists.mp (knownSuffix_facts suffix known).2.1

theorem knownSuffix_ascii (suffix) (known : suffix ∈ knownArchiveSuffixes) :
    ∀ parts ∈ Text.rsplitOnce '.' (toAsciiLowercase suffix),
      parts.2.all fun char => decide (char.toNat < 128) :=
  fun parts last => ((knownSuffix_facts suffix known).2.2 parts last).1

theorem knownSuffix_not_sidecar (suffix) (known : suffix ∈ knownArchiveSuffixes) :
    ∀ parts ∈ Text.rsplitOnce '.' (toAsciiLowercase suffix),
      ¬ (parts.2.drop 1).all Char.isDigit :=
  fun parts last => ((knownSuffix_facts suffix known).2.2 parts last).2.1

theorem knownSuffix_zip (suffix) (known : suffix ∈ knownArchiveSuffixes) :
    ∀ parts ∈ Text.rsplitOnce '.' (toAsciiLowercase suffix),
      parts.2 = "zip".toList → suffix ∈ zipFamilyExtensions :=
  fun parts last => ((knownSuffix_facts suffix known).2.2 parts last).2.2.1

theorem knownSuffix_not_tzap (suffix) (known : suffix ∈ knownArchiveSuffixes) :
    ∀ parts ∈ Text.rsplitOnce '.' (toAsciiLowercase suffix), parts.2 ≠ "tzap".toList :=
  fun parts last => ((knownSuffix_facts suffix known).2.2 parts last).2.2.2

/-- The table has a known suffix in the row of its own format only. -/
theorem formatCapabilities_apart : ∀ row ∈ formatCapabilities,
    row.kind ∉ [ArchiveFormatKind.rawStream, .splitZip, .sevenZ] →
      ∀ extension ∈ row.extensions, ∀ suffix ∈ knownArchiveSuffixes,
        toAsciiLowercase extension <:+ toAsciiLowercase suffix ∨
            toAsciiLowercase suffix <:+ toAsciiLowercase extension →
          suffix ∈ strippedExtensions row.kind := by
  decide +kernel

section

variable {fold : CaseFolding} {isFile : PathBuf → Bool} {parseVolume : Text → Bool}
  {path : PathBuf} {name suffix : Text}

/-- A name with a known suffix, with its parts around the last dot. -/
theorem parts_of_knownSuffix (known : suffix ∈ knownArchiveSuffixes)
    (ends : endsWithIgnoreAsciiCase name suffix) :
    ∃ before after front, Text.rsplitOnce '.' name = some (before, after) ∧
      (front, toAsciiLowercase after) ∈ Text.rsplitOnce '.' (toAsciiLowercase suffix) := by
  obtain ⟨⟨front, last⟩, split⟩ := knownSuffix_last suffix known
  obtain ⟨before, after, found, same⟩ := rsplitOnce_of_endsWith ends split
  exact ⟨before, after, front, found, same ▸ split⟩

section

variable (named : PathBuf.fileName path = some name)
include named

theorem extension_eq_of_any {expected : Text}
    (found : (PathBuf.extension path).any (toAsciiLowercase · = expected)) :
    ∃ before after, Text.rsplitOnce '.' name = some (before, after) ∧
      toAsciiLowercase after = expected := by
  unfold PathBuf.extension PathBuf.stemAndExtension at found
  rw [named, Option.bind_some] at found
  split at found
  next => cases found
  next =>
    split at found
    next => cases found
    next before after split =>
      split at found
      next => cases found
      next => exact ⟨before, after, split, of_decide_eq_true found⟩

theorem endsWithAny_iff {suffixes : List Text} :
    endsWithAny path suffixes ↔ ∃ suffix ∈ suffixes, endsWithIgnoreAsciiCase name suffix := by
  unfold endsWithAny
  rw [named]
  exact List.any_eq_true

section

variable (known : suffix ∈ knownArchiveSuffixes) (ends : endsWithIgnoreAsciiCase name suffix)
include known ends

/-- A split ZIP with a known suffix is a final `.zip`. -/
theorem suffix_of_splitZip (split : isSplitZipArchivePath fold isFile path) :
    suffix ∈ zipFamilyExtensions := by
  obtain ⟨before, after, front, parts, last⟩ := parts_of_knownSuffix known ends
  have ascii := fun char member => of_decide_eq_true
    (List.all_eq_true.mp (knownSuffix_ascii suffix known _ last) char member)
  have notDigits := knownSuffix_not_sidecar suffix known _ last
  unfold isSplitZipArchivePath at split
  rw [named] at split
  dsimp only at split
  rw [Bool.or_eq_true, Bool.or_eq_true, Bool.and_eq_true] at split
  obtain (sidecar | numbered) | ⟨final, -⟩ := split
  · unfold isSplitZipSidecarExtension at sidecar
    rw [rsplitOnce_lower fold parts ascii] at sidecar
    exact absurd (Bool.and_eq_true_iff.mp sidecar).2 notDigits
  · unfold isNumberedZipVolumeName at numbered
    rw [rsplitOnce_lower fold parts ascii] at numbered
    have digits := List.all_eq_true.mp (Bool.and_eq_true_iff.mp numbered).2
    refine absurd (List.all_eq_true.mpr fun char member => ?_) notDigits
    exact digits char (List.mem_of_mem_drop member)
  · obtain ⟨before', after', parts', zip⟩ := extension_eq_of_any named final
    obtain ⟨rfl, rfl⟩ := Prod.mk.inj (Option.some.inj (parts.symm.trans parts'))
    exact knownSuffix_zip suffix known _ last zip

/-- A 7z volume has no known suffix. -/
theorem not_is7zVolumePath :
    ¬ is7zVolumePath path := by
  obtain ⟨before, after, front, parts, last⟩ := parts_of_knownSuffix known ends
  have notDigits := knownSuffix_not_sidecar suffix known _ last
  intro volume
  unfold is7zVolumePath at volume
  rw [named, Option.any_some] at volume
  obtain ⟨found, parsed, -⟩ := (Option.any_eq_true _ _).mp volume
  unfold parse7zVolumeFileName at parsed
  rw [rsplitOnce_toAsciiLowercase, parts] at parsed
  dsimp only [Option.map_some, Option.bind_eq_bind, Option.bind_some] at parsed
  split at parsed
  next => cases parsed
  next plain =>
    rw [Bool.or_eq_true, not_or, Bool.not_eq_true', Bool.not_eq_false] at plain
    have digits := List.all_eq_true.mp plain.2
    refine absurd (List.all_eq_true.mpr fun char member => ?_) notDigits
    exact digits char (List.mem_of_mem_drop member)

/-- A TZAP path has no known suffix. -/
theorem not_isTzapArchivePath :
    ¬ isTzapArchivePath parseVolume path := by
  obtain ⟨before, after, front, parts, last⟩ := parts_of_knownSuffix known ends
  have notTzap := knownSuffix_not_tzap suffix known _ last
  intro tzap
  unfold isTzapArchivePath at tzap
  rw [named, Option.any_some, Bool.or_eq_true, Bool.and_eq_true] at tzap
  rcases tzap with extension | ⟨volume, -⟩
  · obtain ⟨before', after', parts', same⟩ := extension_eq_of_any named extension
    obtain ⟨rfl, rfl⟩ := Prod.mk.inj (Option.some.inj (parts.symm.trans parts'))
    exact notTzap same
  · have split : Text.rsplitOnce '.' (toAsciiLowercase ".tzap".toList) =
        some ([], "tzap".toList) := by decide
    obtain ⟨before', after', parts', same⟩ := rsplitOnce_of_endsWith volume split
    obtain ⟨rfl, rfl⟩ := Prod.mk.inj (Option.some.inj (parts.symm.trans parts'))
    exact notTzap same

/-- A row that takes a path with a known suffix is a row of that suffix. -/
theorem mem_strippedExtensions_of_takes {row : FormatCapability}
    (listed : row ∈ formatCapabilities) (takes : row.takes parseVolume path) :
    suffix ∈ strippedExtensions row.kind := by
  have tried : row.kind ∉ [ArchiveFormatKind.rawStream, .splitZip, .sevenZ] ∧
      endsWithAny path row.extensions := by
    obtain ⟨kind, extensions⟩ := row
    unfold FormatCapability.takes at takes
    split at takes
    case h_5 extensions same =>
      cases same
      rw [Bool.or_eq_true] at takes
      have apart : ArchiveFormatKind.tzap ∉
          [ArchiveFormatKind.rawStream, .splitZip, .sevenZ] := by decide
      exact ⟨apart, takes.resolve_left (not_isTzapArchivePath named known ends)⟩
    case h_6 kind' extensions' raw split seven unknown tzap same =>
      cases same
      refine ⟨?_, takes⟩
      simp only [List.mem_cons, List.not_mem_nil, or_false, not_or]
      exact ⟨raw, split, seven⟩
    all_goals cases takes
  obtain ⟨extension, member, ends'⟩ := (endsWithAny_iff named).mp tried.2
  exact formatCapabilities_apart row listed tried.1 extension member suffix known
    (suffix_or_suffix ends' ends)

/-- What is recognized by a name with a known suffix is a format of that suffix. -/
theorem mem_strippedExtensions_of_recognizeName {kind : ArchiveFormatKind}
    (recognized : recognizeName fold isFile parseVolume path = some kind)
    (notRaw : kind ≠ .rawStream) : suffix ∈ strippedExtensions kind := by
  unfold recognizeName at recognized
  split at recognized
  next split =>
    cases recognized
    exact suffix_of_splitZip named known ends split
  next =>
    split at recognized
    next => cases recognized; exact absurd rfl notRaw
    next =>
      split at recognized
      next zip =>
        cases recognized
        obtain ⟨extension, member, ends'⟩ := (endsWithAny_iff named).mp zip
        rwa [knownSuffix_unique known (strippedExtensions_subset .zip member) ends ends']
      next =>
        split at recognized
        next sevenZ =>
          cases recognized
          rw [Bool.or_eq_true] at sevenZ
          have byName := sevenZ.resolve_right (not_is7zVolumePath named known ends)
          obtain ⟨extension, member, ends'⟩ := (endsWithAny_iff named).mp byName
          rwa [knownSuffix_unique known (strippedExtensions_subset .sevenZ member) ends ends']
        next =>
          obtain ⟨row, found, rfl⟩ := Option.map_eq_some_iff.mp recognized
          exact mem_strippedExtensions_of_takes named known ends (List.mem_of_find?_eq_some found)
            (List.find?_some found)

end

end

end

/-! ## The destination -/

/-- The file name of a path is a name that a directory can hold. -/
theorem isEntryName_of_fileName {archive name : Text}
    (named : PathBuf.fileName (PathBuf.ofText archive) = some name) : IsEntryName name := by
  have last : Component.normal name ∈ PathBuf.ofText archive := by
    unfold PathBuf.fileName at named
    split at named
    next found =>
      cases named
      exact List.mem_of_getLast? found
    next => cases named
  have relative : Component.normal name ∈ PathBuf.relativeComponents archive := by
    unfold PathBuf.ofText at last
    split at last
    next => exact (List.mem_cons.mp last).resolve_left nofun
    next =>
      split at last
      next => exact (List.mem_cons.mp last).resolve_left nofun
      next => exact last
  obtain ⟨segment, member, same⟩ := List.mem_filterMap.mp relative
  unfold PathBuf.segmentComponent at same
  split at same
  next => cases same
  next plain =>
    split at same
    next => cases same
    next notParent =>
      cases same
      exact ⟨fun empty => plain (.inl empty), fun dot => plain (.inr dot), notParent,
        Text.separator_not_mem_of_mem_splitOn '/' _ name member⟩

/-- Joining a text without separators adds one component at most. -/
theorem join_eq_concat_iff {directory : PathBuf} {stem child : Text} (noSlash : '/' ∉ stem) :
    PathBuf.join directory stem = directory ++ [.normal child] ↔
      stem = child ∧ IsEntryName stem := by
  by_cases valid : IsEntryName stem
  · rw [join_entryName valid, List.append_cancel_left_eq]
    constructor
    · intro same
      cases same
      exact ⟨rfl, valid⟩
    · rintro ⟨rfl, -⟩
      rfl
  · refine iff_of_false ?_ fun entry => valid entry.2
    have alone : stem.splitOn '/' = [stem] := List.splitOn_eq_singleton noSlash
    have odd : stem = [] ∨ stem = ['.'] ∨ stem = ['.', '.'] := by
      by_contra plain
      obtain ⟨notEmpty, notDot, notDots⟩ := by simpa only [not_or] using plain
      exact valid ⟨notEmpty, notDot, notDots, noSlash⟩
    have relative : PathBuf.isAbsoluteText stem = false := by
      rcases odd with rfl | rfl | rfl <;> rfl
    unfold PathBuf.join PathBuf.ofText PathBuf.relativeComponents
    rw [relative, alone]
    rcases odd with rfl | rfl | rfl
    · cases directory <;> simp [PathBuf.segmentComponent]
    · cases directory <;> simp [PathBuf.segmentComponent]
    · cases directory <;> simp [PathBuf.segmentComponent]

/-- The destination is a new name in the directory of the archive. -/
def LiesBeside (archive destination : PathBuf) : Prop :=
  ∃ directory name child, archive = directory ++ [.normal name] ∧
    destination = directory ++ [.normal child] ∧ child ≠ [] ∧ child ≠ name

theorem knownSuffix_length (suffix) (known : suffix ∈ knownArchiveSuffixes) :
    0 < suffix.length := (knownSuffix_facts suffix known).1

/-- What is left of a name without its suffix is a shorter start of it. -/
theorem stripSuffix_eq_some {name suffix stem : Text}
    (found : stripSuffixIgnoreAsciiCase name suffix = some stem) :
    endsWithIgnoreAsciiCase name suffix ∧ stem <+: name ∧
      stem.length + suffix.length = name.length := by
  unfold stripSuffixIgnoreAsciiCase at found
  split at found
  next ends =>
    cases found
    have fits : suffix.length ≤ name.length := by
      unfold endsWithIgnoreAsciiCase at ends
      exact of_decide_eq_true (Bool.and_eq_true_iff.mp ends).1
    refine ⟨ends, List.take_prefix _ _, ?_⟩
    rw [List.length_take]
    omega
  next => cases found

theorem liesBeside_iff {archive name : Text}
    (named : PathBuf.fileName (PathBuf.ofText archive) = some name) :
    LiesBeside (PathBuf.ofText archive) (defaultExtractDestination archive) ↔
      ∃ suffix ∈ knownArchiveSuffixes, ∃ stem,
        stripSuffixIgnoreAsciiCase name suffix = some stem ∧ IsEntryName stem := by
  have valid := isEntryName_of_fileName named
  obtain ⟨directory, path⟩ : ∃ directory, PathBuf.ofText archive = directory ++ [.normal name] := by
    unfold PathBuf.fileName at named
    split at named
    next found =>
      cases named
      exact ⟨_, (List.dropLast_append_getLast? _ found).symm⟩
    next => cases named
  have destination : defaultExtractDestination archive =
      PathBuf.join directory ((stripKnownArchiveSuffix name).getD name) := by
    unfold defaultExtractDestination PathBuf.parent
    dsimp only
    rw [named, path, List.getLast?_concat, List.dropLast_concat]
    rfl
  have noSlash {stem : Text} (start : stem <+: name) : '/' ∉ stem :=
    fun member => valid.no_slash (start.subset member)
  unfold LiesBeside
  rw [destination]
  constructor
  · rintro ⟨directory', name', child, same, joined, -, new⟩
    rw [path] at same
    obtain ⟨rfl, last⟩ := List.append_inj' same rfl
    obtain rfl : name = name' := by
      cases last
      rfl
    cases stripped : stripKnownArchiveSuffix name with
    | none =>
      rw [stripped, Option.getD_none] at joined
      exact absurd ((join_eq_concat_iff valid.no_slash).mp joined).1.symm new
    | some stem =>
      rw [stripped, Option.getD_some] at joined
      obtain ⟨suffix, known, found⟩ := stripKnownArchiveSuffix_eq_some_iff.mp stripped
      have start := (stripSuffix_eq_some found).2.1
      exact ⟨suffix, known, stem, found, ((join_eq_concat_iff (noSlash start)).mp joined).2⟩
  · rintro ⟨suffix, known, stem, found, entry⟩
    obtain ⟨-, start, lengths⟩ := stripSuffix_eq_some found
    have positive := knownSuffix_length suffix known
    rw [stripKnownArchiveSuffix_eq_some_iff.mpr ⟨suffix, known, found⟩, Option.getD_some]
    refine ⟨directory, name, stem, path, ?_, entry.ne_nil, ?_⟩
    · exact (join_eq_concat_iff (noSlash start)).mpr ⟨rfl, entry⟩
    · intro same
      rw [same] at lengths
      omega

/-- **The default destination is beside the archive exactly when a known extension is taken off.**
For a path that is recognized by its name, as no raw stream, the destination is another name in the
archive's directory exactly when the name ends with an extension of the recognized format that the
command knows, and what is left is neither empty nor a dot directory. -/
theorem default_destination_iff {fold : CaseFolding} {isFile : PathBuf → Bool}
    {parseVolume : Text → Bool} {archive name : Text} {kind : ArchiveFormatKind}
    (named : PathBuf.fileName (PathBuf.ofText archive) = some name)
    (recognized : recognizeName fold isFile parseVolume (PathBuf.ofText archive) = some kind)
    (notRaw : kind ≠ .rawStream) :
    LiesBeside (PathBuf.ofText archive) (defaultExtractDestination archive) ↔
      ∃ suffix ∈ strippedExtensions kind, ∃ stem,
        stripSuffixIgnoreAsciiCase name suffix = some stem ∧
          stem ≠ [] ∧ stem ≠ ['.'] ∧ stem ≠ ['.', '.'] := by
  rw [liesBeside_iff named]
  constructor
  · rintro ⟨suffix, known, stem, found, entry⟩
    have ends := (stripSuffix_eq_some found).1
    exact ⟨suffix, mem_strippedExtensions_of_recognizeName named known ends recognized notRaw, stem,
      found, entry.ne_nil, entry.ne_dot, entry.ne_dotdot⟩
  · rintro ⟨suffix, member, stem, found, notEmpty, notDot, notDots⟩
    have start := (stripSuffix_eq_some found).2.1
    have noSlash : '/' ∉ stem := fun inside =>
      (isEntryName_of_fileName named).no_slash (start.subset inside)
    exact ⟨suffix, strippedExtensions_subset kind member, stem, found,
      ⟨notEmpty, notDot, notDots, noSlash⟩⟩

theorem default_destination_sample :
    LiesBeside (PathBuf.ofText "in/Data.TAR.zst".toList)
        (defaultExtractDestination "in/Data.TAR.zst".toList) ↔
      ∃ suffix ∈ strippedExtensions .tarZst, ∃ stem,
        stripSuffixIgnoreAsciiCase "Data.TAR.zst".toList suffix = some stem ∧
          stem ≠ [] ∧ stem ≠ ['.'] ∧ stem ≠ ['.', '.'] :=
  @default_destination_iff .ascii (fun _ => false) (fun _ => false) _ _ _ (by decide)
    (by decide +kernel) (by decide)

/-- A plain TAR is recognized, and its destination is the archive itself. -/
theorem tar_is_its_own_destination :
    recognizeName .ascii (fun _ => false) (fun _ => false)
        (PathBuf.ofText "in/backup.tar".toList) = some .tar ∧
      defaultExtractDestination "in/backup.tar".toList =
        PathBuf.ofText "in/backup.tar".toList ∧
      ¬ LiesBeside (PathBuf.ofText "in/backup.tar".toList)
        (defaultExtractDestination "in/backup.tar".toList) := by
  have same : defaultExtractDestination "in/backup.tar".toList =
      PathBuf.ofText "in/backup.tar".toList := by decide +kernel
  refine ⟨by decide +kernel, same, ?_⟩
  rintro ⟨directory, name, child, path, destination, -, new⟩
  rw [same, path] at destination
  cases List.append_cancel_left destination
  exact new rfl

end ZManager.Cli
