import ZManager.Foundation.Bytes
import ZManager.Foundation.Text
import ZManager.Safety.Policy

/-! # Opening a ZIP archive that may be split into volumes

A path may name one volume of a set, either `.zNN` sidecars with their final
`.zip` or numbered `.zip.NNN` segments. The set is discovered from the names in
the archive's folder and read as one byte stream: the segments joined, or, when
the first volume starts with the split signature, the joined volumes without
that signature and with the multi-disk fields of the central directory and of
its end record rewritten to those of a single file.
-/

namespace ZManager

/-- The files of the archive's folder, by name, in the order `read_dir` yields
them. A path is the name of a file in this folder. -/
abbrev ArchiveFolder := List (Text × List UInt8)

/-- Errors of the zip crate. `passwordRequired` is the unsupported-archive error
with the message `PASSWORD_REQUIRED`. -/
inductive ZipError where
  | passwordRequired
  | invalidPassword
  | fileNotFound
  | other (message : String)
  deriving DecidableEq

/-- Failures of reading a ZIP archive. -/
inductive ZipBackendError where
  | zip (source : ZipError)
  | passwordRequired
  | invalidPassword
  | io (path : Text) (source : IoError)
  | unsupportedSplitZip (reason : String)
  | cancelled
  deriving DecidableEq

def mapZipError : ZipError → ZipBackendError
  | .passwordRequired => .passwordRequired
  | .invalidPassword => .invalidPassword
  | source => .zip source

/-! ## Volume names -/

/-- What part of a split set a volume name stands for. -/
inductive SplitZipPart where
  | sidecar (index : Nat)
  | numbered (index : Nat)
  | final
  deriving DecidableEq

def toAsciiLowercase (text : Text) : Text :=
  text.map Char.toLower

/-- `str::parse::<u32>` of a text of ASCII digits. -/
def parseU32 (digits : Text) : Option Nat :=
  let value := digits.foldl (fun value digit => 10 * value + (digit.toNat - '0'.toNat)) 0
  if value < 2 ^ 32 then some value else none

/-- A `.z`-style sidecar volume name, e.g. `archive.z01` or `archive.z001`. -/
def isSplitZipSidecarExtension (filename : Text) : Bool :=
  match Text.rsplitOnce '.' filename with
  | none => false
  | some (base, extension) =>
    base ≠ [] && 3 ≤ extension.length &&
      (extension.head? = some 'z' || extension.head? = some 'Z') &&
      (extension.drop 1).all Char.isDigit

/-- Parses one candidate split-ZIP volume name into its set base and part. -/
def parseSplitZipPart (name : Text) : Option (Text × SplitZipPart) := do
  let (base, extension) ← Text.rsplitOnce '.' name
  if extension = "zip".toList then
    some (base, .final)
  else if isSplitZipSidecarExtension name then
    let index ← parseU32 (extension.drop 1)
    if 0 < index then some (base, .sidecar index) else none
  else if extension.length = 3 && extension.all Char.isDigit &&
      ".zip".toList.isSuffixOf (toAsciiLowercase base) then
    let index ← parseU32 extension
    if 0 < index then some (base, .numbered index) else none
  else none

/-- The parts of one base among the names of a folder, with their names. -/
def splitZipCandidates (folder : ArchiveFolder) (base : Text) : List (SplitZipPart × Text) :=
  folder.filterMap fun (name, _) =>
    match parseSplitZipPart (toAsciiLowercase name) with
    | some (candidateBase, part) => if candidateBase = base then some (part, name) else none
    | none => none

/-- The indexed parts of a set in index order; a later name takes the place of an
earlier one with the same index, and a gap makes the set incomplete. -/
def contiguousVolumes (parts : List (Nat × Text)) : Option (List Text) :=
  (List.range' 1 ((parts.map Prod.fst).foldl max 0)).mapM fun expected =>
    (parts.reverse.find? (·.1 = expected)).map Prod.snd

def numberedPart : SplitZipPart × Text → Option (Nat × Text)
  | (.numbered index, name) => some (index, name)
  | _ => none

def sidecarPart : SplitZipPart × Text → Option (Nat × Text)
  | (.sidecar index, name) => some (index, name)
  | _ => none

/-- Discovers the ordered split-ZIP volume set for a member path. -/
def discoverSplitZipVolumes (folder : ArchiveFolder) (path : Text) : Option (List Text) := do
  let (base, _) ← parseSplitZipPart (toAsciiLowercase path)
  let candidates := splitZipCandidates folder base
  let numbered := candidates.filterMap numberedPart
  let sidecars := candidates.filterMap sidecarPart
  if numbered ≠ [] then
    contiguousVolumes numbered
  else if sidecars ≠ [] then
    let volumes ← contiguousVolumes sidecars
    let finalZip ← (candidates.filter (·.1 = .final)).getLast?
    some (volumes ++ [finalZip.2])
  else none

/-! ## Joined segments -/

/-- `File::open` and what the file then reads as. -/
def openFile (folder : ArchiveFolder) (path : Text) : Except IoError (List UInt8) :=
  match folder.lookup path with
  | some bytes => .ok bytes
  | none => .error ⟨.notFound, ""⟩

/-- Opens the parts of an ordered volume set; `total` is the length so far. -/
def openSegments (folder : ArchiveFolder) : Nat → List Text →
    Except IoError (List (List UInt8))
  | _, [] => .ok []
  | total, path :: rest => do
      let bytes ← openFile folder path
      if bytes = [] then
        throw ⟨.invalidData, "segmented source part is empty: " ++ String.ofList path⟩
      if 2 ^ 64 ≤ total + bytes.length then
        throw ⟨.other, "segmented source length overflow"⟩
      let parts ← openSegments folder (total + bytes.length) rest
      return bytes :: parts

/-! ## Split volumes read as one file -/

def zipSplitSignature : List UInt8 := [0x50, 0x4b, 0x07, 0x08]

def zipCentralDirectorySignature : Nat := 0x02014b50

def zipEndOfCentralDirectorySignature : Nat := 0x06054b50

def zipEocdMinSize : Nat := 22

def zipEocdMaxCommentSize : Nat := 65535

/-- The position, in the joined volumes without the split signature, of an
offset into one volume. -/
def diskOffset (lengths : List Nat) (disk offset : Nat) : Except ZipBackendError Nat :=
  if lengths.length ≤ disk then
    .error (.unsupportedSplitZip "ZIP entry references a missing volume")
  else if disk = 0 then
    if offset < 4 ∨ lengths.getD 0 0 ≤ offset then
      .error (.unsupportedSplitZip "ZIP disk-relative offset is outside volume 0")
    else .ok (offset - 4)
  else if lengths.getD disk 0 ≤ offset then
    .error (.unsupportedSplitZip "ZIP disk-relative offset is outside its volume")
  else .ok ((lengths.take disk).sum - 4 + offset)

/-- Where the end record starts: the last place, with room for the record and
the longest comment behind it, whose comment reaches to the very end. -/
def findEndRecord (stream : List UInt8) : Option Nat :=
  let tailSize := min stream.length (zipEocdMinSize + zipEocdMaxCommentSize)
  let tailStart := stream.length - tailSize
  let tail := stream.drop tailStart
  if tailSize < zipEocdMinSize then none
  else
    ((List.range (tail.length - zipEocdMinSize + 1)).reverse.find? fun offset =>
      Bytes.readU32 tail offset = zipEndOfCentralDirectorySignature ∧
        offset + zipEocdMinSize + Bytes.readU16 tail (offset + 20) = tail.length).map
      (tailStart + ·)

/-- Rewrites the records of the central directory, `entries` of which have been
read: their disk becomes the first and their offset one of the joined volumes. -/
def normalizeCentralDirectory (lengths : List Nat) (entries : Nat) (central : List UInt8) :
    Except ZipBackendError (List UInt8 × Nat) :=
  if central = [] then .ok ([], entries)
  else if central.length < 46 ∨ Bytes.readU32 central 0 ≠ zipCentralDirectorySignature then
    .error (.unsupportedSplitZip "central directory is malformed")
  else
    let next := 46 + Bytes.readU16 central 28 + Bytes.readU16 central 30 +
      Bytes.readU16 central 32
    match diskOffset lengths (Bytes.readU16 central 34) (Bytes.readU32 central 42) with
    | .error failure => .error failure
    | .ok localAbsolute =>
      if 2 ^ 32 ≤ localAbsolute then
        .error (.unsupportedSplitZip "logical ZIP offset exceeds ZIP32")
      else if central.length < next then
        .error (.unsupportedSplitZip "central directory entry is truncated")
      else if 65535 ≤ entries then
        .error (.unsupportedSplitZip "too many ZIP entries")
      else
        match normalizeCentralDirectory lengths (entries + 1) (central.drop next) with
        | .error failure => .error failure
        | .ok (rest, total) =>
          .ok (Bytes.overwrite (Bytes.overwrite (central.take next) 34 (Bytes.leU16 0)) 42
            (Bytes.leU32 localAbsolute) ++ rest, total)
termination_by central.length
decreasing_by
  rw [List.length_drop]
  omega

/-- The two patches of a split set: the central directory and its end record,
each with the place it goes to. -/
def buildNormalizationPatches (lengths : List Nat) (stream : List UInt8) :
    Except ZipBackendError (List (Nat × List UInt8)) :=
  match findEndRecord stream with
  | none => .error (.unsupportedSplitZip "ZIP end record is missing")
  | some eocdOffset =>
    let eocd := stream.drop eocdOffset
    let totalEntries := Bytes.readU16 eocd 10
    let cdSize := Bytes.readU32 eocd 12
    if Bytes.readU16 eocd 4 = 65535 ∨ Bytes.readU16 eocd 6 = 65535 ∨
        Bytes.readU32 eocd 12 = 2 ^ 32 - 1 ∨ Bytes.readU32 eocd 16 = 2 ^ 32 - 1 then
      .error (.unsupportedSplitZip "ZIP64 split metadata is not implemented")
    else
      match diskOffset lengths (Bytes.readU16 eocd 6) (Bytes.readU32 eocd 16) with
      | .error failure => .error failure
      | .ok cdStart =>
        if stream.length < cdStart + cdSize ∨ eocdOffset < cdStart + cdSize then
          .error (.unsupportedSplitZip "central directory lies outside the ZIP stream")
        else
          match normalizeCentralDirectory lengths 0 ((stream.drop cdStart).take cdSize) with
          | .error failure => .error failure
          | .ok (central, entries) =>
            if entries ≠ totalEntries then
              .error (.unsupportedSplitZip "central directory entry count is inconsistent")
            else if 2 ^ 32 ≤ cdStart then
              .error (.unsupportedSplitZip "central directory offset exceeds ZIP32")
            else
              .ok [(cdStart, central),
                (eocdOffset, Bytes.overwrite eocd 4 (Bytes.leU16 0 ++ Bytes.leU16 0 ++
                  Bytes.leU16 totalEntries ++ Bytes.leU16 totalEntries ++
                  Bytes.leU32 cdSize ++ Bytes.leU32 cdStart))]

/-- What `SplitZipReader` reads as: the joined volumes behind the signature, with
the patches over them. -/
def openSplitZipReader (folder : ArchiveFolder) (first : Text) (paths : List Text) :
    Except ZipBackendError (List UInt8) :=
  match openSegments folder 0 paths with
  | .error source => .error (.io first source)
  | .ok parts =>
    if (parts.headD []).length < 4 then
      .error (.unsupportedSplitZip "first ZIP volume is missing the split signature")
    else if parts.flatten.take 4 ≠ zipSplitSignature then
      .error (.unsupportedSplitZip "first ZIP volume has an invalid split signature")
    else
      match buildNormalizationPatches (parts.map List.length) (parts.flatten.drop 4) with
      | .error failure => .error failure
      | .ok patches =>
        .ok (patches.foldl (fun stream patch => Bytes.overwrite stream patch.1 patch.2)
          (parts.flatten.drop 4))

/-- Opens a ZIP reader from the already resolved volume set: the bytes it reads
as. -/
def openZipReaderFromPaths (folder : ArchiveFolder) :
    List Text → Except ZipBackendError (List UInt8)
  | [] => (openFile folder "<ZIP source>".toList).mapError (.io "<ZIP source>".toList)
  | [path] => (openFile folder path).mapError (.io path)
  | first :: second :: others =>
    match openFile folder first with
    | .error source => .error (.io first source)
    | .ok header =>
      if header.take 4 = zipSplitSignature then
        openSplitZipReader folder first (first :: second :: others)
      else
        ((openSegments folder 0 (first :: second :: others)).map List.flatten).mapError
          (.io first)

/-- Opens the volumes of a path as one stream. -/
def openZipReader (folder : ArchiveFolder) (path : Text) : Except ZipBackendError (List UInt8) :=
  openZipReaderFromPaths folder ((discoverSplitZipVolumes folder path).getD [path])

end ZManager
