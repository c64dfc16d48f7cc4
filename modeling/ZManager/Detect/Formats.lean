import ZManager.Create.LowerNames
import ZManager.Detect.Content

/-! # Detection of formats by name

The name of a file is tried against split ZIP volumes, raw streams, the ZIP family, 7z and then
the table of formats in its order; only a name that none of them takes is left to the content.
-/

namespace ZManager

namespace Detect

/-! ## Extensions -/

def zipFamilyExtensions : List Text :=
  [".zip", ".zipx", ".jar", ".war", ".ipa", ".apk", ".appx", ".xpi", ".cbz", ".epub"].map
    String.toList

def sevenZExtensions : List Text := [".7z", ".cb7", ".sevenz"].map String.toList

def rarExtensions : List Text := [".rar", ".cbr"].map String.toList

def tarExtensions : List Text := [".tar", ".cbt", ".pax", ".ustar"].map String.toList

def tarBz2Extensions : List Text := [".tar.bz2", ".tbz2", ".tbz"].map String.toList

def tarXzExtensions : List Text := [".tar.xz", ".txz"].map String.toList

def tarLzmaExtensions : List Text := [".tar.lzma", ".tlzma"].map String.toList

def tarLzExtensions : List Text := [".tar.lz"].map String.toList

def tarLzoExtensions : List Text := [".tar.lzo"].map String.toList

def tarCompressExtensions : List Text := [".tar.z", ".taz"].map String.toList

def tarLz4Extensions : List Text := [".tar.lz4"].map String.toList

def tarUuExtensions : List Text := [".tar.uu", ".tar.b64"].map String.toList

def isoExtensions : List Text := [".iso"].map String.toList

def cabExtensions : List Text := [".cab"].map String.toList

def cpioExtensions : List Text :=
  [".cpio", ".cpio.gz", ".cpgz", ".cpio.bz2", ".cpio.xz", ".cpio.lzma", ".cpio.zst"].map
    String.toList

def rpmExtensions : List Text := [".rpm"].map String.toList

def xarExtensions : List Text := [".xar"].map String.toList

def pkgExtensions : List Text := [".pkg"].map String.toList

def dmgExtensions : List Text := [".dmg"].map String.toList

def lhaExtensions : List Text := [".lha", ".lzh"].map String.toList

def arExtensions : List Text := [".a", ".ar", ".lib"].map String.toList

def warcExtensions : List Text := [".warc"].map String.toList

def mtreeExtensions : List Text := [".mtree"].map String.toList

def tarZstExtensions : List Text := [".tar.zst", ".tzst"].map String.toList

def tgzExtensions : List Text := [".tgz", ".tar.gz"].map String.toList

def appleArchiveExtensions : List Text := [".aar", ".aea"].map String.toList

def debExtensions : List Text := [".deb"].map String.toList

def msiExtensions : List Text := [".msi"].map String.toList

def vhdExtensions : List Text := [".vhd"].map String.toList

def vmdkExtensions : List Text := [".vmdk"].map String.toList

def udfExtensions : List Text := [".udf"].map String.toList

def squashfsExtensions : List Text := [".squashfs", ".sqfs"].map String.toList

def appimageExtensions : List Text := [".appimage"].map String.toList

def wimExtensions : List Text := [".wim", ".swm"].map String.toList

def vdiExtensions : List Text := [".vdi"].map String.toList

def nrgExtensions : List Text := [".nrg"].map String.toList

def mdfExtensions : List Text := [".mdf", ".mds"].map String.toList

def cdiExtensions : List Text := [".cdi"].map String.toList

def iszExtensions : List Text := [".isz"].map String.toList

def ccdExtensions : List Text := [".ccd"].map String.toList

def cueExtensions : List Text := [".cue"].map String.toList

def vhdxExtensions : List Text := [".vhdx"].map String.toList

def qcow2Extensions : List Text := [".qcow2", ".qcow"].map String.toList

def ewfExtensions : List Text := [".e01", ".ex01"].map String.toList

def ad1Extensions : List Text := [".ad1"].map String.toList

def darExtensions : List Text := [".dar"].map String.toList

def aff4Extensions : List Text := [".aff4"].map String.toList

def rawDiskExtensions : List Text := [".raw", ".dd", ".dsk", ".img"].map String.toList

/-- A name with a suffix, in any case of its ASCII letters. -/
def endsWithIgnoreAsciiCase (value suffix : Text) : Bool :=
  suffix.length ≤ value.length &&
    toAsciiLowercase (value.drop (value.length - suffix.length)) = toAsciiLowercase suffix

def endsWithAny (path : PathBuf) (suffixes : List Text) : Bool :=
  (PathBuf.fileName path).any fun name => suffixes.any (endsWithIgnoreAsciiCase name)

/-! ## Raw streams -/

/-- A compressed stream that holds one file. -/
inductive RawStreamFormat where
  | zstd
  | gzip
  | bzip2
  | xz
  | lzma
  | lzip
  | brotli
  | lz4
  | lzo
  | unixCompress
  | uu

def RawStreamFormat.suffixes : RawStreamFormat → List Text
  | zstd => [".zst".toList]
  | gzip => [".gz".toList]
  | bzip2 => [".bz2".toList]
  | xz => [".xz".toList]
  | lzma => [".lzma".toList]
  | lzip => [".lz".toList]
  | brotli => [".br".toList]
  | lz4 => [".lz4".toList]
  | lzo => [".lzo".toList]
  | unixCompress => [".Z".toList]
  | uu => [".uu".toList, ".b64".toList]

def rawStreamFormats : List RawStreamFormat :=
  [.zstd, .gzip, .bzip2, .xz, .lzma, .lzip, .brotli, .lz4, .lzo, .unixCompress, .uu]

/-- The first suffix of each raw stream format. -/
def rawStreamSuffixes : List Text := rawStreamFormats.flatMap RawStreamFormat.suffixes

def compressedArchiveContainers : List Text :=
  [".tar.zst", ".tzst", ".tar.gz", ".tgz", ".taz", ".tar.bz2", ".tbz", ".tbz2", ".tar.xz",
    ".txz", ".tar.lzma", ".tlzma", ".tar.lz", ".tlz", ".tar.lzo", ".tlzo", ".tar.z", ".tz",
    ".tar.lz4", ".tlz4", ".tar.uu", ".tar.b64", ".tar.br", ".tbr", ".cpio.gz", ".cpgz",
    ".cpio.bz2", ".cpio.xz", ".cpio.lzma", ".cpio.zst", ".cpio.lz", ".cpio.lzo", ".cpio.z",
    ".cpio.lz4", ".cpio.br"].map String.toList

def isCompressedArchiveContainer (name : Text) : Bool :=
  compressedArchiveContainers.any (endsWithIgnoreAsciiCase name)

def detectRawStreamFormat (path : PathBuf) : Option RawStreamFormat :=
  (PathBuf.fileName path).bind fun name =>
    if isCompressedArchiveContainer name then none
    else rawStreamFormats.find? fun format => format.suffixes.any (endsWithIgnoreAsciiCase name)

/-! ## Volumes -/

def isNumberedZipVolumeName (filename : Text) : Bool :=
  match Text.rsplitOnce '.' filename with
  | none => false
  | some (base, suffix) =>
    ".zip".toList.isSuffixOf (toAsciiLowercase base) && suffix.length == 3 &&
      suffix.all Char.isDigit

/-- Sidecars, numbered segments, and a final `.zip` with a first sidecar beside it. -/
def isSplitZipArchivePath (fold : CaseFolding) (isFile : PathBuf → Bool) (path : PathBuf) : Bool :=
  match PathBuf.fileName path with
  | none => false
  | some name =>
    let filename := name.flatMap fold.lower
    isSplitZipSidecarExtension filename || isNumberedZipVolumeName filename ||
      ((PathBuf.extension path).any (toAsciiLowercase · = "zip".toList) &&
        isFile (PathBuf.join ((PathBuf.parent path).getD [])
          ((PathBuf.fileStem path).getD [] ++ ".z01".toList)))

def is7zVolumePath (path : PathBuf) : Bool :=
  (PathBuf.fileName path).any fun name =>
    (parse7zVolumeFileName (toAsciiLowercase name)).any fun volume => has7zExtension volume.1

/-- `parseVolume` is `parse_volume_file_name` of the tzap crate. -/
def isTzapArchivePath (parseVolume : Text → Bool) (path : PathBuf) : Bool :=
  (PathBuf.extension path).any (toAsciiLowercase · = "tzap".toList) ||
    (PathBuf.fileName path).any fun name =>
      endsWithIgnoreAsciiCase name ".tzap".toList && parseVolume name

/-! ## The table of formats -/

/-- A format with the extensions it is known by. -/
structure FormatCapability where
  kind : ArchiveFormatKind
  extensions : List Text

def formatCapabilities : List FormatCapability :=
  [⟨.rawStream, rawStreamSuffixes⟩, ⟨.zip, zipFamilyExtensions⟩, ⟨.splitZip, []⟩,
    ⟨.sevenZ, sevenZExtensions⟩, ⟨.rar, rarExtensions⟩, ⟨.tarZst, tarZstExtensions⟩,
    ⟨.tarGz, tgzExtensions⟩, ⟨.tar, tarExtensions⟩, ⟨.tarBz2, tarBz2Extensions⟩,
    ⟨.tarXz, tarXzExtensions⟩, ⟨.tarLzma, tarLzmaExtensions⟩, ⟨.tarLz, tarLzExtensions⟩,
    ⟨.tarLzo, tarLzoExtensions⟩, ⟨.tarCompress, tarCompressExtensions⟩,
    ⟨.tarLz4, tarLz4Extensions⟩, ⟨.tarUu, tarUuExtensions⟩, ⟨.iso, isoExtensions⟩,
    ⟨.cab, cabExtensions⟩, ⟨.cpio, cpioExtensions⟩, ⟨.rpm, rpmExtensions⟩,
    ⟨.xar, xarExtensions⟩, ⟨.pkg, pkgExtensions⟩, ⟨.dmg, dmgExtensions⟩, ⟨.lha, lhaExtensions⟩,
    ⟨.ar, arExtensions⟩, ⟨.warc, warcExtensions⟩, ⟨.mtree, mtreeExtensions⟩, ⟨.tzap, []⟩,
    ⟨.appleArchive, appleArchiveExtensions⟩, ⟨.deb, debExtensions⟩, ⟨.msi, msiExtensions⟩,
    ⟨.vhd, vhdExtensions⟩, ⟨.vmdk, vmdkExtensions⟩, ⟨.udf, udfExtensions⟩,
    ⟨.squashfs, squashfsExtensions⟩, ⟨.appImage, appimageExtensions⟩, ⟨.wim, wimExtensions⟩,
    ⟨.vdi, vdiExtensions⟩, ⟨.nrg, nrgExtensions⟩, ⟨.mdf, mdfExtensions⟩, ⟨.cdi, cdiExtensions⟩,
    ⟨.isz, iszExtensions⟩, ⟨.ccd, ccdExtensions⟩, ⟨.cue, cueExtensions⟩,
    ⟨.vhdx, vhdxExtensions⟩, ⟨.qcow2, qcow2Extensions⟩, ⟨.ewf, ewfExtensions⟩,
    ⟨.ad1, ad1Extensions⟩, ⟨.dar, darExtensions⟩, ⟨.aff4, aff4Extensions⟩,
    ⟨.rawDisk, rawDiskExtensions⟩]

/-- One turn of the loop over the table. -/
def FormatCapability.takes (parseVolume : Text → Bool) (path : PathBuf) :
    FormatCapability → Bool
  | ⟨.rawStream, _⟩ | ⟨.splitZip, _⟩ | ⟨.sevenZ, _⟩ | ⟨.unknown, _⟩ => false
  | ⟨.tzap, extensions⟩ => isTzapArchivePath parseVolume path || endsWithAny path extensions
  | ⟨_, extensions⟩ => endsWithAny path extensions

/-- The part of `detect_archive_format` in front of the content. -/
def recognizeName (fold : CaseFolding) (isFile : PathBuf → Bool) (parseVolume : Text → Bool)
    (path : PathBuf) : Option ArchiveFormatKind :=
  if isSplitZipArchivePath fold isFile path then some .splitZip
  else if (detectRawStreamFormat path).isSome then some .rawStream
  else if endsWithAny path zipFamilyExtensions then some .zip
  else if endsWithAny path sevenZExtensions || is7zVolumePath path then some .sevenZ
  else (formatCapabilities.find? (·.takes parseVolume path)).map FormatCapability.kind

/-! ## Names and their last extension -/

theorem endsWithIgnoreAsciiCase_iff {value suffix : Text} :
    endsWithIgnoreAsciiCase value suffix ↔ toAsciiLowercase suffix <:+ toAsciiLowercase value := by
  have length (text : Text) : (toAsciiLowercase text).length = text.length := List.length_map _
  have lowered : toAsciiLowercase (value.drop (value.length - suffix.length)) =
      (toAsciiLowercase value).drop
        ((toAsciiLowercase value).length - (toAsciiLowercase suffix).length) := by
    rw [length, length]
    exact List.map_drop
  unfold endsWithIgnoreAsciiCase
  rw [Bool.and_eq_true, decide_eq_true_eq, decide_eq_true_eq, lowered]
  constructor
  · intro ⟨_, same⟩
    rw [← same]
    exact List.drop_suffix _ _
  · intro ends
    have fits := ends.length_le
    rw [length, length] at fits
    exact ⟨fits, (List.suffix_iff_eq_drop.mp ends).symm⟩

/-- Of two suffixes of a name one is a suffix of the other. -/
theorem suffix_or_suffix {name one two : Text} (first : endsWithIgnoreAsciiCase name one)
    (second : endsWithIgnoreAsciiCase name two) :
    toAsciiLowercase one <:+ toAsciiLowercase two ∨
      toAsciiLowercase two <:+ toAsciiLowercase one :=
  List.suffix_or_suffix_of_suffix (endsWithIgnoreAsciiCase_iff.mp first)
    (endsWithIgnoreAsciiCase_iff.mp second)

/-- The name behind its last dot is the suffix behind its last dot. -/
theorem rsplitOnce_of_endsWith {name suffix front last : Text}
    (ends : endsWithIgnoreAsciiCase name suffix)
    (split : Text.rsplitOnce '.' (toAsciiLowercase suffix) = some (front, last)) :
    ∃ before after, Text.rsplitOnce '.' name = some (before, after) ∧
      toAsciiLowercase after = last := by
  obtain ⟨rest, whole⟩ := endsWithIgnoreAsciiCase_iff.mp ends
  obtain ⟨recomposed, dotless⟩ := Text.rsplitOnce_eq_some split
  have lowered : Text.rsplitOnce '.' (toAsciiLowercase name) = some (rest ++ front, last) := by
    rw [← whole, recomposed, ← List.append_assoc]
    exact Text.rsplitOnce_append dotless
  rw [rsplitOnce_toAsciiLowercase] at lowered
  obtain ⟨⟨before, after⟩, found, same⟩ := Option.map_eq_some_iff.mp lowered
  exact ⟨before, after, found, (Prod.mk.inj same).2⟩

theorem toNat_lt_of_toLower {char : Char} (ascii : char.toLower.toNat < 128) :
    char.toNat < 128 := by
  unfold Char.toLower at ascii
  split at ascii
  next upper =>
    have bound : char.val.toNat ≤ 90 := UInt32.le_iff_toNat_le.mp upper.2
    exact Nat.lt_of_le_of_lt bound (by decide)
  next => exact ascii

theorem flatMap_lower_of_ascii (fold : CaseFolding) {text : Text}
    (ascii : ∀ char ∈ toAsciiLowercase text, char.toNat < 128) :
    text.flatMap fold.lower = toAsciiLowercase text := by
  induction text with
  | nil => rfl
  | cons char rest ih =>
    rw [toAsciiLowercase_cons] at ascii
    have first := toNat_lt_of_toLower (ascii _ List.mem_cons_self)
    have others := ih fun other member => ascii other (List.mem_cons_of_mem _ member)
    rw [List.flatMap_cons, fold.lower_ascii char first, others]
    rfl

/-- Full lowering keeps the split at the last dot, and what stands behind it if that is ASCII. -/
theorem rsplitOnce_lower (fold : CaseFolding) {name before after : Text}
    (split : Text.rsplitOnce '.' name = some (before, after))
    (ascii : ∀ char ∈ toAsciiLowercase after, char.toNat < 128) :
    Text.rsplitOnce '.' (name.flatMap fold.lower) =
      some (before.flatMap fold.lower, toAsciiLowercase after) := by
  obtain ⟨recomposed, dotless⟩ := Text.rsplitOnce_eq_some split
  have dot : fold.lower '.' = ['.'] := fold.lower_ascii '.' (by decide)
  rw [recomposed, List.flatMap_append, List.flatMap_cons, dot, flatMap_lower_of_ascii fold ascii]
  exact Text.rsplitOnce_append fun member =>
    dotless ((mem_toAsciiLowercase (by decide)).mp member)

end Detect

end ZManager
