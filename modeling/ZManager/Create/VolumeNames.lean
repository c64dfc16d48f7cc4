import ZManager.Create.Staging
import ZManager.Foundation.PartMap
import ZManager.Zip.SplitVolumes

/-! # Names of the volumes of a split archive

A split 7z archive is written to numbered files `NAME.001`, `NAME.002` and so
on, a split ZIP archive to the sidecars `STEM.z01`, `STEM.z02` and so on with
the destination itself as last volume. Creation looks for volumes that exist,
and reading discovers the set a path belongs to, each by its own rules on the
names that `read_dir` lists.
-/

namespace ZManager

variable {matcher : Text → Option Nat}

/-- So many volumes are enough exactly when they can hold the archive. -/
theorem splitVolumeCount_le_iff {archiveSize volumeSize count : Nat} (positive : 0 < volumeSize) :
    splitVolumeCount archiveSize volumeSize ≤ count ↔ max archiveSize 1 ≤ count * volumeSize := by
  unfold splitVolumeCount
  rw [← Nat.lt_succ_iff, Nat.div_lt_iff_lt_mul positive, Nat.succ_mul]
  omega

/-- A path to a file: a directory, empty for a bare file name, and a name in it. -/
structure Destination where
  directory : PathBuf
  name : Text
  isEntryName : IsEntryName name

def Destination.path (destination : Destination) : PathBuf :=
  destination.directory ++ [Component.normal destination.name]

/-- The directory a path lies in, as `parent().unwrap_or(".")`. -/
def directoryOf (path : PathBuf) : PathBuf :=
  (PathBuf.parent path).getD [.curDir]

/-- The paths in `directory` whose names the matcher recognizes, in the order of
their part numbers. -/
def existingVolumePaths (order : ReadOrder) (files : Files) (directory : PathBuf)
    (matcher : Text → Option Nat) : List PathBuf :=
  match order.readDir files directory with
  | none => []
  | some names =>
    (PartMap.ofList (names.filterMap fun name =>
      (matcher name).map fun part => (part, directory ++ [Component.normal name]))).map Prod.snd

/-! ## 7z volumes -/

/-- Failures of the 7z volume handling. -/
inductive SevenZError where
  | io (path : PathBuf) (source : IoError)

def sevenzVolumeExtensionWidth : Nat := 3

/-- The path with a text appended to its last name. -/
def appendToName (path : PathBuf) (suffix : Text) : PathBuf :=
  path.dropLast ++ [Component.normal ((PathBuf.fileName path).getD [] ++ suffix)]

def sevenzVolumePath (destination : PathBuf) (oneBasedIndex : Nat) : PathBuf :=
  appendToName destination ('.' :: Text.padded sevenzVolumeExtensionWidth oneBasedIndex)

def sevenzVolumePaths (destination : PathBuf) (count : Nat) : List PathBuf :=
  (List.range' 1 count).map (sevenzVolumePath destination)

/-- The base name and the number of a volume. -/
def parse7zVolumeFileName (name : Text) : Option (Text × Nat) := do
  let (base, number) ← Text.rsplitOnce '.' name
  if number.length ≠ sevenzVolumeExtensionWidth || !number.all Char.isDigit then
    none
  else
    let part ← parseU32 number
    if 0 < part then some (base, part) else none

def has7zExtension (value : Text) : Bool :=
  (PathBuf.extension (PathBuf.ofText value)).any (toAsciiLowercase · = "7z".toList)

/-- The part number of a volume name with exactly this base. -/
def match7zVolume (base candidate : Text) : Option Nat :=
  match parse7zVolumeFileName candidate with
  | some (candidateBase, part) => if candidateBase = base then some part else none
  | none => none

/-- The volumes that stand under the name. -/
def existing7zVolumePaths (order : ReadOrder) (files : Files) (destination : PathBuf) :
    List PathBuf :=
  match PathBuf.fileName destination with
  | none => []
  | some destinationName =>
    existingVolumePaths order files (directoryOf destination) (match7zVolume destinationName)

/-- The base of the volume set that a file name, in lower case, belongs to. -/
def sevenzVolumeBase (lowerName : Text) : Option Text :=
  match parse7zVolumeFileName lowerName with
  | some (base, _) => if has7zExtension base then some base else none
  | none => if has7zExtension lowerName then some lowerName else none

/-- The volumes to read for a path: the numbered files of its set, or the path
itself when there are none. -/
def discover7zReadVolumePaths (order : ReadOrder) (files : Files) (path : PathBuf) :
    Except SevenZError (List PathBuf) :=
  match (PathBuf.fileName path).bind fun name => sevenzVolumeBase (toAsciiLowercase name) with
  | none => .ok [path]
  | some volumeBase =>
    match order.readDir files (directoryOf path) with
    | none => .ok [path]
    | some names =>
      let parts := PartMap.ofList (names.filterMap fun name =>
        (match7zVolume volumeBase (toAsciiLowercase name)).map fun part =>
          (part, directoryOf path ++ [Component.normal name]))
      if parts = [] then .ok [path]
      else
        match (List.range' 1 ((parts.getLast?.map Prod.fst).getD 0)).find? fun expected =>
            parts.lookup expected = none with
        | some expected =>
          .error (.io path ⟨.notFound,
            "missing 7z volume part " ++ String.ofList (Text.padded 3 expected)⟩)
        | none => .ok (parts.map Prod.snd)

/-! ## Split ZIP volumes -/

def zipSplitSideCarExtensionWidth : Nat := 2

/-- The destination without its `.zip` extension. -/
def splitZipBasePath (destination : PathBuf) : Except ZipBackendError PathBuf :=
  if (PathBuf.extension destination).any (toAsciiLowercase · = "zip".toList) then
    .ok (PathBuf.withExtension destination [])
  else
    .error (.unsupportedSplitZip "split ZIP output path must use a .zip extension")

/-- The path of one sidecar beside a base path. -/
def splitZipSidecarPath (base : PathBuf) (index : Nat) : PathBuf :=
  PathBuf.withExtension base ('z' :: Text.padded zipSplitSideCarExtensionWidth index)

def splitZipVolumePaths (destination : PathBuf) (count : Nat) :
    Except ZipBackendError (List PathBuf) :=
  if count ≤ 1 then .ok [destination]
  else do
    let base ← splitZipBasePath destination
    return (List.range' 1 (count - 1)).map (splitZipSidecarPath base) ++ [destination]

/-- The base name and the number of a volume. -/
def parseSplitZipSidecarName (name : Text) : Option (Text × Nat) := do
  let (base, extension) ← Text.rsplitOnce '.' name
  match toAsciiLowercase extension with
  | 'z' :: number =>
    if number.length < zipSplitSideCarExtensionWidth || !number.all Char.isDigit then
      none
    else
      let part ← parseU32 number
      if 0 < part then some (base, part) else none
  | _ => none

/-- The part number of a sidecar name whose base is this one up to the case of
its letters. -/
def matchSplitZipSidecar (baseName candidate : Text) : Option Nat :=
  match parseSplitZipSidecarName candidate with
  | some (candidateBase, part) =>
    if toAsciiLowercase candidateBase = toAsciiLowercase baseName then some part else none
  | none => none

/-- The volumes that stand under the name. -/
def existingSplitZipVolumePaths (order : ReadOrder) (files : Files) (destination : PathBuf) :
    Except ZipBackendError (List PathBuf) := do
  let base ← splitZipBasePath destination
  match PathBuf.fileName base with
  | none => return []
  | some baseName =>
    return existingVolumePaths order files (directoryOf destination)
      (matchSplitZipSidecar baseName)

/-- The directory of a path, where a bare file name lies in `.`. -/
def directoryOrCurrent (path : PathBuf) : PathBuf :=
  match PathBuf.parent path with
  | none | some [] => [.curDir]
  | some directory => directory

/-- Discovers the ordered split-ZIP volume set for a member path, by the names in
its directory. -/
def discoverSplitZipVolumePaths (order : ReadOrder) (files : Files) (path : PathBuf) :
    Option (List PathBuf) := do
  let fileName ← PathBuf.fileName path
  let names ← order.readDir files (directoryOrCurrent path)
  let volumes ← discoverSplitZipVolumes (names.map fun name => (name, [])) fileName
  return volumes.map fun name => directoryOrCurrent path ++ [Component.normal name]

/-! ## Names and places -/

theorem fileName_concat (directory : PathBuf) (name : Text) :
    PathBuf.fileName (directory ++ [Component.normal name]) = some name := by
  simp [PathBuf.fileName]

theorem directoryOf_concat (directory : PathBuf) (name : Text) :
    directoryOf (directory ++ [Component.normal name]) = directory := by
  simp [directoryOf, PathBuf.parent]

/-- An existing volume is an object of its directory with a matching name. -/
theorem mem_existingVolumePaths {order : ReadOrder} {files : Files} {directory path : PathBuf}
    (member : path ∈ existingVolumePaths order files directory matcher) :
    ∃ name part, matcher name = some part ∧ path = directory ++ [Component.normal name] ∧
      Files.place directory ++ [Component.normal name] ∈ files := by
  unfold existingVolumePaths ReadOrder.readDir at member
  by_cases bare : directory = []
  · rw [if_pos bare] at member
    cases member
  rw [if_neg bare] at member
  obtain ⟨pair, inside, rfl⟩ := List.mem_map.mp member
  obtain ⟨name, listed, matched⟩ := List.mem_filterMap.mp (PartMap.mem_of_mem_ofList inside)
  obtain ⟨part, found, rfl⟩ := Option.map_eq_some_iff.mp matched
  exact ⟨name, part, found, rfl, (order.mem_names files directory name).mp listed⟩

/-- A directory without matching names has no existing volumes. -/
theorem existingVolumePaths_eq_nil {order : ReadOrder} {files : Files} {directory : PathBuf}
    (none_matches : ∀ name, Files.place directory ++ [Component.normal name] ∈ files →
        matcher name = none) :
    existingVolumePaths order files directory matcher = [] := by
  rw [List.eq_nil_iff_forall_not_mem]
  intro path member
  obtain ⟨name, part, matched, -, present⟩ := mem_existingVolumePaths member
  rw [none_matches name present] at matched
  cases matched

theorem existing7zVolumePaths_path (order : ReadOrder) (files : Files)
    (destination : Destination) :
    existing7zVolumePaths order files destination.path =
      existingVolumePaths order files destination.directory (match7zVolume destination.name) := by
  unfold existing7zVolumePaths
  rw [Destination.path, fileName_concat, directoryOf_concat]

theorem fileName_appendToName (path : PathBuf) (suffix : Text) :
    PathBuf.fileName (appendToName path suffix) =
      some ((PathBuf.fileName path).getD [] ++ suffix) := by
  simp [appendToName, PathBuf.fileName]

theorem padded_injective (width : Nat) : Function.Injective (Text.padded width) := by
  intro number number' same
  rw [← Text.ofDigitChars_padded width number, same, Text.ofDigitChars_padded]

/-- The places of a set's 7z volumes are different ones. -/
theorem nodup_sevenzVolumePaths (destination : PathBuf) (count : Nat) :
    ((sevenzVolumePaths destination count).map Files.place).Nodup := by
  rw [sevenzVolumePaths, List.map_map]
  apply List.Nodup.map _ List.nodup_range'
  intro index index' same
  have names := fileName_eq_of_place_eq (fileName_appendToName _ _)
    (fileName_appendToName _ _) same
  exact padded_injective _ (List.tail_eq_of_cons_eq (List.append_cancel_left names))

end ZManager
