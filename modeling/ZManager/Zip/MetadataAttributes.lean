import ZManager.Foundation.Utf8
import ZManager.Manifest.Planner
import ZManager.Safety.Selection
import ZManager.Zip.SingleDisk

/-! # Restoring attributes in a finished ZIP archive

After the archive is written, special mode bits and the read-only flag are put
into the external attributes of its central directory. The directory is found
through the last end-record signature of the file. For archives without a
comment the patch does what it should (`patch_attributes_iff`) unless that
signature recurs inside the end record, or a full field of the end record sends
the search to a ZIP64 record that is not there.
-/

namespace ZManager

variable {front back : List UInt8} {manifest : ArchiveManifest}

/-- The attributes to put into a record. -/
structure ZipMetadataAttributes where
  specialMode : UInt32
  readonly : Bool

/-- The attributes that the zip crate does not write itself. -/
def ManifestEntry.zipMetadataAttributes (entry : ManifestEntry) :
    Option (Text × ZipMetadataAttributes) :=
  let specialMode := entry.permissions.unixMode.elim 0 fun mode => UInt32.ofNat mode &&& 0o7000
  let readonly := entry.fileType = .file && entry.permissions.unixMode.isNone &&
    entry.permissions.readonly
  if specialMode ≠ 0 ∨ readonly then
    some (trimEndSlashes entry.archivePath, ⟨specialMode, readonly⟩)
  else none

/-- The pairs that the map of attributes is collected from. -/
def zipMetadataAttributes (manifest : ArchiveManifest) : List (Text × ZipMetadataAttributes) :=
  manifest.entries.filterMap ManifestEntry.zipMetadataAttributes

/-- The attributes under a record's name: those of the last pair with it. -/
def attributesOf (attributes : List (Text × ZipMetadataAttributes)) (name : List UInt8) :
    Option ZipMetadataAttributes :=
  attributes.reverse.lookup (trimEndSlashes (fromUtf8Lossy name))

/-- The external attributes with the attributes put in. -/
def ZipMetadataAttributes.patch (attributes : ZipMetadataAttributes)
    (externalAttributes : UInt32) : UInt32 :=
  if attributes.readonly then (externalAttributes &&& 0xffff) ||| 0x01
  else externalAttributes ||| (attributes.specialMode <<< 16)

/-! ## The pass over the finished file -/

/-- Computations on the bytes of an open file. -/
abbrev FileM := StepM IoError (List UInt8)

def invalidZipMetadata (message : String) : IoError := ⟨.invalidData, message⟩

/-- `seek` from the start, then `read_exact`. -/
def readExactAt (position length : Nat) : FileM (List UInt8) := do
  if 2 ^ 63 ≤ position then
    throw ⟨.invalidInput, "Invalid argument"⟩
  let file ← get
  if file.length - position < length then
    throw ⟨.unexpectedEof, "failed to fill whole buffer"⟩
  return (file.drop position).take length

/-- The last place at which the end-record signature stands. -/
def lastEndSignature (tail : List UInt8) : Option Nat :=
  (List.range (tail.length - 3)).reverse.find? fun offset =>
    Bytes.readU32 tail offset = zipEndOfCentralDirectorySignature

/-- The position of the end record and what the file holds from there on. -/
def readZipFooter : FileM (Nat × List UInt8) := do
  let archiveLength := (← get).length
  let tailLength := min archiveLength (zipEocdMinSize + zipEocdMaxCommentSize)
  let tailStart := archiveLength - tailLength
  let tail ← readExactAt tailStart tailLength
  match lastEndSignature tail with
  | none => throw (invalidZipMetadata "ZIP end-of-central-directory record is missing")
  | some eocdOffset =>
    if (tail.drop eocdOffset).length < zipEocdMinSize then
      throw (invalidZipMetadata "ZIP end-of-central-directory record is truncated")
    else return (tailStart + eocdOffset, tail.drop eocdOffset)

/-- Entries, size and offset of the central directory from the ZIP64 record. -/
def readZip64Directory (eocdPosition : Nat) : FileM (Nat × Nat × Nat) := do
  if eocdPosition < 20 then
    throw (invalidZipMetadata "ZIP64 locator is missing")
  let locator ← readExactAt (eocdPosition - 20) 20
  if Bytes.readU32 locator 0 ≠ zip64EndOfCentralDirectoryLocatorSignature then
    throw (invalidZipMetadata "ZIP64 end-of-central-directory locator is missing")
  let zip64 ← readExactAt (Bytes.readU64 locator 8) 56
  if Bytes.readU32 zip64 0 ≠ zip64EndOfCentralDirectorySignature then
    throw (invalidZipMetadata "ZIP64 end-of-central-directory record is missing")
  return (Bytes.readU64 zip64 32, Bytes.readU64 zip64 40, Bytes.readU64 zip64 48)

/-- Entries, size and offset of the central directory. -/
def readZipDirectory (eocdPosition : Nat) (eocd : List UInt8) : FileM (Nat × Nat × Nat) :=
  let entries := Bytes.readU16 eocd 10
  let centralSize := Bytes.readU32 eocd 12
  let centralOffset := Bytes.readU32 eocd 16
  if entries = 65535 ∨ centralSize = 2 ^ 32 - 1 ∨ centralOffset = 2 ^ 32 - 1 then
    readZip64Directory eocdPosition
  else return (entries, centralSize, centralOffset)

/-- Patches the record at a position, and yields where it ends. -/
def patchCentralRecord (attributes : List (Text × ZipMetadataAttributes))
    (centralEnd position : Nat) : FileM Nat := do
  if centralEnd < position + 46 then
    throw (invalidZipMetadata "ZIP central directory entry is truncated")
  let header ← readExactAt position 46
  if Bytes.readU32 header 0 ≠ zipCentralDirectorySignature then
    throw (invalidZipMetadata "ZIP central directory signature is invalid")
  let nameLength := Bytes.readU16 header 28
  let recordEnd := position +
    (46 + nameLength + Bytes.readU16 header 30 + Bytes.readU16 header 32)
  if 2 ^ 64 ≤ recordEnd then
    throw (invalidZipMetadata "ZIP central directory entry range overflows")
  if centralEnd < recordEnd then
    throw (invalidZipMetadata "ZIP central directory entry extends past the directory")
  let name ← readExactAt (position + 46) nameLength
  match attributesOf attributes name with
  | none => return recordEnd
  | some found =>
    let externalAttributes := UInt32.ofNat (Bytes.readU32 header 38)
    if found.patch externalAttributes ≠ externalAttributes then
      modify (Bytes.overwrite · (position + 38)
        (Bytes.leU32 (found.patch externalAttributes).toNat))
    return recordEnd

/-- Patches so many records, one behind the other. -/
def patchCentralRecords (attributes : List (Text × ZipMetadataAttributes)) (centralEnd : Nat) :
    Nat → Nat → FileM Unit
  | 0, _ => pure ()
  | entries + 1, position => do
      let next ← patchCentralRecord attributes centralEnd position
      patchCentralRecords attributes centralEnd entries next

/-- Patches the records that the manifest names. -/
def patchZipMetadataAttributes (manifest : ArchiveManifest) : FileM Unit := do
  if zipMetadataAttributes manifest = [] then return ()
  let (eocdPosition, eocd) ← readZipFooter
  let (entries, centralSize, centralOffset) ← readZipDirectory eocdPosition eocd
  if 2 ^ 64 ≤ centralOffset + centralSize then
    throw (invalidZipMetadata "ZIP central directory range overflows")
  if (← get).length < centralOffset + centralSize then
    throw (invalidZipMetadata "ZIP central directory extends past the archive")
  patchCentralRecords (zipMetadataAttributes manifest) (centralOffset + centralSize) entries
    centralOffset

/-! ## The archive that the pass leaves behind -/

/-- The record with the attributes under its name put in. -/
def CentralRecord.patched (attributes : List (Text × ZipMetadataAttributes))
    (record : CentralRecord) : CentralRecord :=
  match attributesOf attributes record.name with
  | none => record
  | some found =>
    { record with externalAttributes := found.patch record.externalAttributes }

/-- The same archive with attributes put into its records. -/
def SingleDiskZip.withAttributes (archive : SingleDiskZip)
    (attributes : List (Text × ZipMetadataAttributes)) : SingleDiskZip :=
  { archive with records := archive.records.map (CentralRecord.patched attributes) }

/-! ## What the archive should become

The bits of a mode and of the external attributes are spelled out here, apart
from the masks and shifts that the pass computes with.
-/

/-- Set-user-ID, set-group-ID and sticky are the bits 11, 10 and 9 of a mode. -/
def ManifestEntry.SpecialBit (entry : ManifestEntry) (bit : Nat) : Prop :=
  9 ≤ bit ∧ bit < 12 ∧ ∃ mode, entry.permissions.unixMode = some mode ∧ mode.testBit bit = true

/-- A file of a system without modes that carries the read-only flag. -/
def ManifestEntry.ReadonlyFile (entry : ManifestEntry) : Prop :=
  entry.fileType = .file ∧ entry.permissions.unixMode = none ∧
    entry.permissions.readonly = true

/-- The entry has an attribute that the finished archive is to carry. -/
def ManifestEntry.Marked (entry : ManifestEntry) : Prop :=
  (∃ bit, entry.SpecialBit bit) ∨ entry.ReadonlyFile

/-- Two names are the same up to slashes at their ends. -/
def SameName (left right : Text) : Prop :=
  ∃ base leftSlashes rightSlashes, left = base ++ leftSlashes ∧ right = base ++ rightSlashes ∧
    ∀ char ∈ leftSlashes ++ rightSlashes, char = '/'

/-- The last marked entry under a name. -/
def LastMarked (manifest : ArchiveManifest) (name : Text) (entry : ManifestEntry) : Prop :=
  entry.Marked ∧ SameName entry.archivePath name ∧ ∃ earlier later,
    manifest.entries = earlier ++ entry :: later ∧
      ∀ other ∈ later, other.Marked → ¬SameName other.archivePath name

/-- How a record of the archive is to be left behind. The external attributes
hold the mode in their upper half and the read-only flag as bit 0. -/
structure CentralRecord.Restored (manifest : ArchiveManifest)
    (record restored : CentralRecord) : Prop where
  elsewhere : restored = { record with externalAttributes := restored.externalAttributes }
  unmarked : (∀ entry ∈ manifest.entries, entry.Marked →
    ¬SameName entry.archivePath (fromUtf8Lossy record.name)) →
      restored.externalAttributes = record.externalAttributes
  special : ∀ entry, LastMarked manifest (fromUtf8Lossy record.name) entry →
    ¬entry.ReadonlyFile → ∀ bit,
      (restored.externalAttributes.toNat.testBit bit = true ↔
        record.externalAttributes.toNat.testBit bit = true ∨
          16 ≤ bit ∧ entry.SpecialBit (bit - 16))
  readonly : ∀ entry, LastMarked manifest (fromUtf8Lossy record.name) entry →
    entry.ReadonlyFile → ∀ bit,
      (restored.externalAttributes.toNat.testBit bit = true ↔
        bit = 0 ∨ bit < 16 ∧ record.externalAttributes.toNat.testBit bit = true)

/-- Exactly the attributes of the records that marked entries name are set. -/
def SingleDiskZip.AttributesRestored (archive : SingleDiskZip) (manifest : ArchiveManifest) :
    Prop :=
  ∃ restored, List.Forall₂ (CentralRecord.Restored manifest) archive.records restored ∧
    (patchZipMetadataAttributes manifest).exec archive.bytes =
      (.ok (), { archive with records := restored }.bytes)

/-! ## Reads of the file -/

theorem readExactAt_ok {file : List UInt8} {position length : Nat} (small : position < 2 ^ 63)
    (fits : position + length ≤ file.length) :
    (readExactAt position length).exec file = (.ok ((file.drop position).take length), file) := by
  unfold readExactAt
  rw [if_neg (by omega)]
  simp only [StepM.exec_bind, StepM.exec_get]
  rw [if_neg (by omega)]
  rfl

/-- What stands between two parts of the file is read at its place. -/
theorem readExactAt_middle {middle : List UInt8}
    (small : (front ++ middle ++ back).length < 2 ^ 63) :
    (readExactAt front.length middle.length).exec (front ++ middle ++ back) =
      (.ok middle, front ++ middle ++ back) := by
  rw [List.length_append, List.length_append] at small
  rw [readExactAt_ok (by omega) (by rw [List.length_append, List.length_append]; omega),
    List.append_assoc, List.drop_left, List.take_left]

/-- The last of the places below a bound with a property. -/
theorem find?_reverse_range {holds : Nat → Bool} {bound place : Nat} (inside : place < bound)
    (here : holds place = true) (last : ∀ later, place < later → later < bound →
      holds later = false) : (List.range bound).reverse.find? holds = some place := by
  induction bound with
  | zero => omega
  | succ bound ih =>
    rw [List.range_succ, List.reverse_append, List.reverse_singleton, List.singleton_append]
    by_cases top : place = bound
    · rw [List.find?_cons_of_pos (by rw [← top]; exact here), top]
    · have clear := last bound (by omega) (by omega)
      rw [List.find?_cons_of_neg (by rw [clear]; exact Bool.false_ne_true)]
      exact ih (by omega) fun later after below => last later after (by omega)

theorem exists_find?_reverse_range {holds : Nat → Bool} {bound place : Nat}
    (inside : place < bound) (here : holds place = true) :
    ∃ last, place ≤ last ∧ (List.range bound).reverse.find? holds = some last := by
  induction bound with
  | zero => omega
  | succ bound ih =>
    rw [List.range_succ, List.reverse_append, List.reverse_singleton, List.singleton_append]
    cases top : holds bound with
    | true => exact ⟨bound, by omega, List.find?_cons_of_pos top⟩
    | false =>
      have below : place ≠ bound := by
        intro same
        rw [same, top] at here
        cases here
      obtain ⟨last, after, found⟩ := ih (by omega)
      refine ⟨last, after, ?_⟩
      rw [List.find?_cons_of_neg (by rw [top]; exact Bool.false_ne_true), found]

/-! ## The end record -/

/-- In a tail that ends with the end record, the record's own signature is the
last one exactly when it does not recur. -/
theorem lastEndSignature_append (front : List UInt8) {ending : List UInt8}
    (width : ending.length = zipEocdMinSize)
    (signed : Bytes.readU32 ending 0 = zipEndOfCentralDirectorySignature) :
    ∃ place, lastEndSignature (front ++ ending) = some (front.length + place) ∧
      (place = 0 ↔ ¬∃ offset < 19, 0 < offset ∧
        Bytes.readU32 ending offset = zipEndOfCentralDirectorySignature) := by
  have length : (front ++ ending).length - 3 = front.length + 19 := by
    rw [List.length_append, width]
    rfl
  unfold lastEndSignature
  rw [length]
  have inside : ∀ offset, Bytes.readU32 (front ++ ending) (front.length + offset) =
      Bytes.readU32 ending offset := fun offset => Bytes.readU32_append_right front ending offset
  by_cases recurs : ∃ offset < 19, 0 < offset ∧
      Bytes.readU32 ending offset = zipEndOfCentralDirectorySignature
  · obtain ⟨offset, below, positive, found⟩ := recurs
    obtain ⟨last, after, same⟩ := @exists_find?_reverse_range
      (fun offset => decide (Bytes.readU32 (front ++ ending) offset =
        zipEndOfCentralDirectorySignature)) (front.length + 19) (front.length + offset)
      (by omega) (by rw [inside, found]; rfl)
    refine ⟨last - front.length, ?_, ?_⟩
    · rw [same]
      congr 1
      omega
    · constructor
      · intro zero
        omega
      · intro alone
        exact absurd ⟨offset, below, positive, found⟩ alone
  · refine ⟨0, find?_reverse_range (by omega) ?_ ?_, iff_of_true rfl recurs⟩
    · rw [inside, signed]
      rfl
    · intro later after below
      apply decide_eq_false
      intro found
      apply recurs
      refine ⟨later - front.length, by omega, by omega, ?_⟩
      rw [← inside, ← found]
      congr 1
      omega

namespace SingleDiskZip

variable {archive : SingleDiskZip}

/-- The tail that is searched ends with the end record. -/
theorem readTail (small : archive.bytes.length < 2 ^ 63) : ∃ front,
    (readExactAt (archive.bytes.length - min archive.bytes.length
      (zipEocdMinSize + zipEocdMaxCommentSize)) (min archive.bytes.length
        (zipEocdMinSize + zipEocdMaxCommentSize))).exec archive.bytes =
      (.ok (front ++ archive.ending), archive.bytes) ∧
    archive.bytes.length - min archive.bytes.length (zipEocdMinSize + zipEocdMaxCommentSize) +
      front.length = archive.beforeEnd.length := by
  have length := @length_bytes archive
  have wide : 22 ≤ zipEocdMinSize + zipEocdMaxCommentSize := by
    decide
  generalize zipEocdMinSize + zipEocdMaxCommentSize = most at wide ⊢
  refine ⟨archive.beforeEnd.drop (archive.bytes.length - min archive.bytes.length most), ?_, ?_⟩
  · rw [readExactAt_ok (by omega) (by omega), List.take_of_length_le]
    · rw [← List.drop_append_of_le_length (by omega)]
      rfl
    · rw [List.length_drop]
      omega
  · rw [List.length_drop]
    omega

/-- Where the signature does not recur, the end record is found. -/
theorem readZipFooter_ok (small : archive.bytes.length < 2 ^ 63)
    (alone : ¬archive.SignatureRecurs) :
    readZipFooter.exec archive.bytes =
      (.ok (archive.beforeEnd.length, archive.ending), archive.bytes) := by
  obtain ⟨front, tail, start⟩ := readTail small
  obtain ⟨place, found, first⟩ := lastEndSignature_append front (@length_ending archive)
    (readU32_endRecord_signature _ _ _)
  obtain rfl := first.mpr alone
  unfold readZipFooter
  simp only [StepM.exec_bind, StepM.exec_get]
  rw [tail]
  dsimp only
  rw [found]
  dsimp only
  rw [Nat.add_zero, List.drop_left, start, length_ending, if_neg (Nat.lt_irrefl _)]
  rfl

/-- Where the signature recurs, the end record is taken to start too late. -/
theorem readZipFooter_error (small : archive.bytes.length < 2 ^ 63)
    (recurs : archive.SignatureRecurs) :
    readZipFooter.exec archive.bytes = (.error (invalidZipMetadata
      "ZIP end-of-central-directory record is truncated"), archive.bytes) := by
  obtain ⟨front, tail, -⟩ := readTail small
  obtain ⟨place, found, first⟩ := lastEndSignature_append front (@length_ending archive)
    (readU32_endRecord_signature _ _ _)
  have late : 0 < place := Nat.pos_of_ne_zero fun zero => first.mp zero recurs
  have short : ((front ++ archive.ending).drop (front.length + place)).length <
      zipEocdMinSize := by
    rw [List.length_drop, List.length_append, length_ending, Nat.add_sub_add_left]
    exact Nat.sub_lt (by decide) late
  unfold readZipFooter
  simp only [StepM.exec_bind, StepM.exec_get]
  rw [tail]
  dsimp only
  rw [found]
  dsimp only
  rw [if_pos short]
  rfl

/-- The ZIP64 record is found through its locator. -/
theorem readZip64Directory_ok {footer : Zip64Footer} (large : archive.zip64 = some footer)
    (small : archive.bytes.length < 2 ^ 63) :
    (readZip64Directory archive.beforeEnd.length).exec archive.bytes =
      (.ok (archive.records.length, archive.directory.length, archive.front.length),
        archive.bytes) := by
  have bounded := @records_le_directory archive
  have inside := @directory_le_bytes archive
  have length := @length_bytes archive
  generalize fixedPart : footer.fixed archive.records.length archive.directory.length
    archive.front.length = fixed
  generalize located : zip64Locator (archive.front.length + archive.directory.length) = locator
  have width : locator.length = 20 := by
    rw [← located]
    rfl
  have fixedWidth : fixed.length = 56 := by
    rw [← fixedPart]
    exact footer.length_fixed
  have before : archive.beforeEnd =
      archive.front ++ archive.directory ++ fixed ++ footer.extensible ++ locator := by
    unfold beforeEnd zip64Part
    rw [large, ← fixedPart, ← located]
    simp only [List.append_assoc]
  have locatorAt : (readExactAt (archive.beforeEnd.length - 20) 20).exec archive.bytes =
      (.ok locator, archive.bytes) := by
    have whole : archive.bytes = (archive.front ++ archive.directory ++ fixed ++
        footer.extensible) ++ locator ++ archive.ending := by
      unfold bytes
      rw [before]
    have start : archive.beforeEnd.length - 20 = (archive.front ++ archive.directory ++ fixed ++
        footer.extensible).length := by
      rw [before, List.length_append, width, Nat.add_sub_cancel]
    rw [whole] at small ⊢
    rw [start, ← width]
    exact readExactAt_middle small
  have fixedAt : (readExactAt (archive.front.length + archive.directory.length) 56).exec
      archive.bytes = (.ok fixed, archive.bytes) := by
    have whole : archive.bytes = (archive.front ++ archive.directory) ++ fixed ++
        (footer.extensible ++ locator ++ archive.ending) := by
      unfold bytes
      rw [before]
      simp only [List.append_assoc]
    rw [whole] at small ⊢
    rw [← List.length_append, ← fixedWidth]
    exact readExactAt_middle small
  have late : ¬archive.beforeEnd.length < 20 := by
    rw [before, List.length_append, width]
    omega
  have signed : Bytes.readU32 locator 0 = zip64EndOfCentralDirectoryLocatorSignature := by
    rw [← located]
    unfold zip64Locator
    simp only [List.append_assoc]
    apply Bytes.readU32_leU32
    decide
  have position : Bytes.readU64 locator 8 = archive.front.length + archive.directory.length := by
    rw [← located]
    exact readU64_zip64Locator (by omega)
  unfold readZip64Directory
  rw [if_neg late]
  simp only [StepM.exec_bind]
  rw [locatorAt]
  dsimp only
  rw [if_neg (not_not_intro signed), position]
  simp only [StepM.exec_bind]
  rw [fixedAt]
  dsimp only
  rw [← fixedPart, footer.readU32_fixed, if_neg (not_not_intro rfl),
    footer.readU64_fixed_entries (by omega), footer.readU64_fixed_size (by omega),
    footer.readU64_fixed_offset (by omega)]
  rfl

/-- A full field of the end record sends the search to the ZIP64 record. -/
theorem readZipDirectory_eq (formed : archive.WellFormed) :
    (archive.Saturated → readZipDirectory archive.beforeEnd.length archive.ending =
      readZip64Directory archive.beforeEnd.length) ∧
    (¬archive.Saturated → readZipDirectory archive.beforeEnd.length archive.ending =
      pure (archive.entriesField, archive.sizeField, archive.offsetField)) := by
  have entries := @readU16_endRecord_entries _ archive.sizeField archive.offsetField
    formed.entries.1
  have size := @readU32_endRecord_size archive.entriesField _ archive.offsetField formed.size.1
  have offset := @readU32_endRecord_offset archive.entriesField archive.sizeField _ formed.offset.1
  unfold readZipDirectory ending
  rw [entries, size, offset]
  exact ⟨fun saturated => if_pos saturated, fun saturated => if_neg saturated⟩

/-- The extent of the central directory is read, where a full field is one that
the ZIP64 record has the value of. -/
theorem readZipDirectory_ok (formed : archive.WellFormed)
    (known : archive.zip64.isSome ∨ ¬archive.Saturated) :
    (readZipDirectory archive.beforeEnd.length archive.ending).exec archive.bytes =
      (.ok (archive.records.length, archive.directory.length, archive.front.length),
        archive.bytes) := by
  by_cases saturated : archive.Saturated
  · obtain ⟨footer, large⟩ := Option.isSome_iff_exists.mp (known.resolve_right (· saturated))
    rw [(readZipDirectory_eq formed).1 saturated]
    exact readZip64Directory_ok large formed.fileSize
  · rw [(readZipDirectory_eq formed).2 saturated]
    unfold Saturated at saturated
    rw [not_or, not_or] at saturated
    obtain ⟨few, short, early⟩ := saturated
    rw [formed.entries.eq_of_ne_full few, formed.size.eq_of_ne_full short,
      formed.offset.eq_of_ne_full early]
    rfl

/-- A full field sends the search to a ZIP64 record that is not there. -/
theorem readZipDirectory_error (formed : archive.WellFormed) (classic : archive.zip64 = none)
    (saturated : archive.Saturated) : ∃ failure,
    (readZipDirectory archive.beforeEnd.length archive.ending).exec archive.bytes =
      (.error failure, archive.bytes) := by
  have length := @length_bytes archive
  have small := formed.fileSize
  have noLocator := formed.noLocator classic saturated
  rw [(readZipDirectory_eq formed).1 saturated]
  unfold readZip64Directory
  by_cases early : archive.beforeEnd.length < 20
  · rw [if_pos early]
    exact ⟨_, rfl⟩
  have start : archive.beforeEnd.length - 20 + 20 = archive.beforeEnd.length := by omega
  have locator : Bytes.readU32 ((archive.bytes.drop (archive.beforeEnd.length - 20)).take 20) 0 =
      Bytes.readU32 archive.beforeEnd (archive.beforeEnd.length - 20) := by
    have whole : (archive.bytes.drop (archive.beforeEnd.length - 20)).take 20 =
        archive.beforeEnd.drop (archive.beforeEnd.length - 20) := by
      unfold bytes
      rw [List.drop_append_of_le_length (by omega), List.take_append_of_le_length,
        List.take_of_length_le]
      · rw [List.length_drop]
        omega
      · rw [List.length_drop]
        omega
    rw [whole, Bytes.readU32_drop, Nat.add_zero]
  rw [if_neg early]
  simp only [StepM.exec_bind]
  rw [readExactAt_ok (by omega) (by omega)]
  dsimp only
  rw [locator, if_pos (noLocator (by omega))]
  exact ⟨_, rfl⟩

end SingleDiskZip

/-! ## The records of the central directory -/

namespace CentralRecord

variable {record : CentralRecord} {attributes : List (Text × ZipMetadataAttributes)}

theorem patched_of_none (none : attributesOf attributes record.name = none) :
    record.patched attributes = record := by
  unfold patched
  rw [none]

theorem bytes_patched {found : ZipMetadataAttributes}
    (some : attributesOf attributes record.name = some found) :
    (record.patched attributes).bytes = record.fixedFront ++
      Bytes.leU32 (found.patch record.externalAttributes).toNat ++ record.back := by
  unfold patched
  rw [some]
  rfl

theorem length_bytes_patched (attributes : List (Text × ZipMetadataAttributes)) :
    (record.patched attributes).bytes.length = record.bytes.length := by
  cases same : attributesOf attributes record.name with
  | none => rw [patched_of_none same]
  | some found =>
    rw [bytes_patched same]
    unfold bytes
    simp only [List.length_append, Bytes.length_leU32]

end CentralRecord

/-! ## The masks and shifts are the bits meant -/

theorem testBit_specialMask (bit : Nat) : (0o7000).testBit bit = true ↔ 9 ≤ bit ∧ bit < 12 := by
  by_cases small : bit < 12
  · exact (by decide : ∀ bit < 12, ((0o7000).testBit bit = true ↔ 9 ≤ bit ∧ bit < 12)) bit small
  · rw [Nat.testBit_lt_two_pow (Nat.lt_of_lt_of_le (by decide) (Nat.pow_le_pow_right Nat.two_pos
      (Nat.le_of_not_lt small)))]
    exact iff_of_false Bool.false_ne_true fun inside => small inside.2

/-- The mask keeps the special bits of a mode. -/
theorem testBit_specialMode (mode bit : Nat) :
    (UInt32.ofNat mode &&& 0o7000).toNat.testBit bit = true ↔
      9 ≤ bit ∧ bit < 12 ∧ mode.testBit bit = true := by
  have value : (UInt32.ofNat mode &&& 0o7000).toNat = mode % 2 ^ 32 &&& 0o7000 := by
    rw [UInt32.toNat_and, UInt32.toNat_ofNat']
    rfl
  rw [value, Nat.testBit_and, Nat.testBit_mod_two_pow, Bool.and_eq_true, testBit_specialMask,
    Bool.and_eq_true, decide_eq_true_eq]
  constructor
  · rintro ⟨⟨-, set⟩, low, high⟩
    exact ⟨low, high, set⟩
  · rintro ⟨low, high, set⟩
    exact ⟨⟨by omega, set⟩, low, high⟩

/-- Shifted by 16, the special bits are ORed into the upper half. -/
theorem testBit_patch_special {specialMode : UInt32} (mask : specialMode.toNat < 2 ^ 12)
    (externalAttributes : UInt32) (bit : Nat) :
    ((ZipMetadataAttributes.mk specialMode false).patch externalAttributes).toNat.testBit bit =
        true ↔
      externalAttributes.toNat.testBit bit = true ∨
        16 ≤ bit ∧ specialMode.toNat.testBit (bit - 16) = true := by
  have shifted : (specialMode <<< 16).toNat = specialMode.toNat <<< 16 := by
    rw [UInt32.toNat_shiftLeft]
    apply Nat.mod_eq_of_lt
    change specialMode.toNat <<< 16 < 2 ^ 32
    rw [Nat.shiftLeft_eq]
    omega
  change (externalAttributes ||| specialMode <<< 16).toNat.testBit bit = true ↔ _
  rw [UInt32.toNat_or, shifted, Nat.testBit_or, Nat.testBit_shiftLeft, Bool.or_eq_true,
    Bool.and_eq_true, decide_eq_true_eq]

/-- The read-only flag replaces the upper half and is bit 0 of the lower one. -/
theorem testBit_patch_readonly (specialMode externalAttributes : UInt32) (bit : Nat) :
    ((ZipMetadataAttributes.mk specialMode true).patch externalAttributes).toNat.testBit bit =
        true ↔
      bit = 0 ∨ bit < 16 ∧ externalAttributes.toNat.testBit bit = true := by
  have low : (externalAttributes &&& 0xffff).toNat = externalAttributes.toNat % 2 ^ 16 := by
    rw [UInt32.toNat_and]
    exact Nat.and_two_pow_sub_one_eq_mod _ 16
  have one : (0x01 : UInt32).toNat.testBit bit = true ↔ bit = 0 := by
    cases bit with
    | zero => decide
    | succ bit =>
      change Nat.testBit 1 (bit + 1) = true ↔ _
      rw [Nat.testBit_lt_two_pow (Nat.one_lt_two_pow (Nat.succ_ne_zero bit))]
      exact iff_of_false Bool.false_ne_true (Nat.succ_ne_zero bit)
  change ((externalAttributes &&& 0xffff) ||| 0x01).toNat.testBit bit = true ↔ _
  rw [UInt32.toNat_or, Nat.testBit_or, Bool.or_eq_true, one, low, Nat.testBit_mod_two_pow,
    Bool.and_eq_true, decide_eq_true_eq, or_comm]

namespace ManifestEntry

variable {entry : ManifestEntry}

theorem zipMetadataAttributes_of_readonly (flagged : entry.ReadonlyFile) :
    entry.zipMetadataAttributes = some (trimEndSlashes entry.archivePath, ⟨0, true⟩) := by
  obtain ⟨file, modeless, readonly⟩ := flagged
  unfold zipMetadataAttributes
  simp [file, modeless, readonly]

/-- An entry with a mode yields its special bits where it has any. -/
theorem zipMetadataAttributes_of_mode {mode : Nat}
    (known : entry.permissions.unixMode = some mode) :
    entry.zipMetadataAttributes =
      if UInt32.ofNat mode &&& 0o7000 ≠ 0 then
        some (trimEndSlashes entry.archivePath, ⟨UInt32.ofNat mode &&& 0o7000, false⟩)
      else none := by
  unfold zipMetadataAttributes
  simp [known]

theorem specialMode_ne_zero {mode : Nat} (known : entry.permissions.unixMode = some mode) :
    UInt32.ofNat mode &&& 0o7000 ≠ 0 ↔ ∃ bit, entry.SpecialBit bit := by
  constructor
  · intro some
    by_contra clear
    apply some
    apply UInt32.toNat_inj.mp
    apply Nat.eq_of_testBit_eq
    intro bit
    rw [show (0 : UInt32).toNat = 0 from rfl, Nat.zero_testBit, Bool.eq_false_iff]
    intro set
    obtain ⟨low, high, set⟩ := (testBit_specialMode mode bit).mp set
    exact clear ⟨bit, low, high, mode, known, set⟩
  · rintro ⟨bit, low, high, same, given, set⟩ none
    cases known.symm.trans given
    have kept := (testBit_specialMode mode bit).mpr ⟨low, high, set⟩
    rw [none] at kept
    exact Bool.false_ne_true ((Nat.zero_testBit bit).symm.trans kept)

/-- Only marked entries are collected. -/
theorem zipMetadataAttributes_of_not_marked (plain : ¬entry.Marked) :
    entry.zipMetadataAttributes = none := by
  cases known : entry.permissions.unixMode with
  | some mode =>
    rw [zipMetadataAttributes_of_mode known, if_neg]
    intro special
    exact plain (.inl ((specialMode_ne_zero known).mp special))
  | none =>
    have unflagged : ¬(entry.fileType = .file ∧ entry.permissions.readonly = true) :=
      fun flagged => plain (.inr ⟨flagged.1, known, flagged.2⟩)
    unfold zipMetadataAttributes
    simpa [known] using unflagged

/-- What a marked entry is collected as. -/
theorem zipMetadataAttributes_of_marked (marked : entry.Marked) : ∃ found,
    entry.zipMetadataAttributes = some (trimEndSlashes entry.archivePath, found) ∧
      ∀ externalAttributes bit,
        ((found.patch externalAttributes).toNat.testBit bit = true ↔
          if entry.permissions.unixMode.isNone then
            bit = 0 ∨ bit < 16 ∧ externalAttributes.toNat.testBit bit = true
          else externalAttributes.toNat.testBit bit = true ∨
            16 ≤ bit ∧ entry.SpecialBit (bit - 16)) := by
  rcases marked with ⟨bit, special⟩ | flagged
  · obtain ⟨-, -, mode, known, -⟩ := id special
    refine ⟨⟨UInt32.ofNat mode &&& 0o7000, false⟩, ?_, ?_⟩
    · rw [zipMetadataAttributes_of_mode known,
        if_pos ((specialMode_ne_zero known).mpr ⟨bit, special⟩)]
    · intro externalAttributes place
      have mask : (UInt32.ofNat mode &&& 0o7000).toNat < 2 ^ 12 := by
        rw [UInt32.toNat_and]
        exact Nat.lt_of_le_of_lt Nat.and_le_right (by decide)
      rw [testBit_patch_special mask, known, testBit_specialMode]
      simp only [Option.isNone_some, Bool.false_eq_true, if_false, SpecialBit, known,
        Option.some.injEq, exists_eq_left']
  · refine ⟨⟨0, true⟩, zipMetadataAttributes_of_readonly flagged, ?_⟩
    intro externalAttributes place
    rw [testBit_patch_readonly, flagged.2.1]
    rfl

end ManifestEntry

theorem trimEndSlashes_append {text slashes : Text} (only : ∀ char ∈ slashes, char = '/') :
    trimEndSlashes (text ++ slashes) = trimEndSlashes text := by
  unfold trimEndSlashes
  rw [List.reverse_append, List.dropWhile_append_of_pos]
  intro char member
  rw [only char (List.mem_reverse.mp member)]
  rfl

/-- Names are the same when what is left without their last slashes is. -/
theorem sameName_iff {left right : Text} :
    SameName left right ↔ trimEndSlashes left = trimEndSlashes right := by
  constructor
  · rintro ⟨base, leftSlashes, rightSlashes, rfl, rfl, only⟩
    rw [List.forall_mem_append] at only
    rw [trimEndSlashes_append only.1, trimEndSlashes_append only.2]
  · intro same
    obtain ⟨leftSlashes, left, onlyLeft⟩ := exists_trimEndSlashes left
    obtain ⟨rightSlashes, right, onlyRight⟩ := exists_trimEndSlashes right
    exact ⟨_, leftSlashes, rightSlashes, left, same ▸ right,
      List.forall_mem_append.mpr ⟨onlyLeft, onlyRight⟩⟩

/-- The map holds nothing under a name that no marked entry has. -/
theorem lookup_filterMap_eq_none {entries : List ManifestEntry} {name : Text}
    (unmarked : ∀ entry ∈ entries, entry.Marked → ¬SameName entry.archivePath name) :
    (entries.filterMap ManifestEntry.zipMetadataAttributes).reverse.lookup (trimEndSlashes name) =
      none := by
  rw [List.lookup_eq_none_iff]
  intro pair collected
  obtain ⟨entry, member, pair_eq⟩ := List.mem_filterMap.mp (List.mem_reverse.mp collected)
  have marked : entry.Marked := by
    by_contra plain
    rw [ManifestEntry.zipMetadataAttributes_of_not_marked plain] at pair_eq
    cases pair_eq
  obtain ⟨found, same, -⟩ := ManifestEntry.zipMetadataAttributes_of_marked marked
  cases same.symm.trans pair_eq
  rw [bne_iff_ne]
  intro same
  exact unmarked entry member marked (sameName_iff.mpr same.symm)

/-- The map holds under a name what its last marked entry is collected as. -/
theorem attributesOf_of_lastMarked {name : List UInt8} {entry : ManifestEntry}
    {found : ZipMetadataAttributes} (last : LastMarked manifest (fromUtf8Lossy name) entry)
    (collected : entry.zipMetadataAttributes = some (trimEndSlashes entry.archivePath, found)) :
    attributesOf (zipMetadataAttributes manifest) name = some found := by
  obtain ⟨-, same, earlier, later, whole, alone⟩ := last
  unfold attributesOf zipMetadataAttributes
  rw [whole, List.filterMap_append, List.filterMap_cons_some collected, List.reverse_append,
    List.reverse_cons, List.append_assoc, List.lookup_append, lookup_filterMap_eq_none alone,
    Option.none_or, List.singleton_append, sameName_iff.mp same, List.lookup_cons_self]

/-- What the pass makes of a record is what the record is to become. -/
theorem CentralRecord.restored_patched (manifest : ArchiveManifest) (record : CentralRecord) :
    record.Restored manifest (record.patched (zipMetadataAttributes manifest)) := by
  have value : ∀ {entry : ManifestEntry},
      LastMarked manifest (fromUtf8Lossy record.name) entry → ∀ bit,
        ((record.patched (zipMetadataAttributes manifest)).externalAttributes.toNat.testBit bit =
            true ↔
          if entry.permissions.unixMode.isNone then
            bit = 0 ∨ bit < 16 ∧ record.externalAttributes.toNat.testBit bit = true
          else record.externalAttributes.toNat.testBit bit = true ∨
            16 ≤ bit ∧ entry.SpecialBit (bit - 16)) := by
    intro entry last bit
    obtain ⟨found, collected, bits⟩ := ManifestEntry.zipMetadataAttributes_of_marked last.1
    unfold CentralRecord.patched
    rw [attributesOf_of_lastMarked last collected]
    exact bits record.externalAttributes bit
  refine ⟨?_, ?_, ?_, ?_⟩
  · unfold CentralRecord.patched
    cases attributesOf (zipMetadataAttributes manifest) record.name <;> rfl
  · intro unmarked
    have none : attributesOf (zipMetadataAttributes manifest) record.name = none :=
      lookup_filterMap_eq_none unmarked
    rw [CentralRecord.patched_of_none none]
  · intro entry last plain bit
    rw [value last bit]
    cases known : entry.permissions.unixMode with
    | some mode => rw [Option.isNone_some, if_neg Bool.false_ne_true]
    | none =>
      obtain ⟨bit, special⟩ := last.1.resolve_right plain
      obtain ⟨-, -, mode, given, -⟩ := special
      cases known.symm.trans given
  · intro entry last flagged bit
    rw [value last bit, flagged.2.1, Option.isNone_none, if_pos rfl]

theorem zipMetadataAttributes_eq_nil :
    zipMetadataAttributes manifest = [] ↔ ∀ entry ∈ manifest.entries, ¬entry.Marked := by
  unfold zipMetadataAttributes
  rw [List.filterMap_eq_nil_iff]
  refine forall₂_congr fun entry _ => ⟨fun none marked => ?_,
    ManifestEntry.zipMetadataAttributes_of_not_marked⟩
  obtain ⟨found, some, -⟩ := ManifestEntry.zipMetadataAttributes_of_marked marked
  rw [none] at some
  cases some

/-- A record in its place is patched, and nothing else. -/
theorem patchCentralRecord_ok (attributes : List (Text × ZipMetadataAttributes))
    {record : CentralRecord} {centralEnd : Nat}
    (inside : front.length + record.bytes.length ≤ centralEnd)
    (small : (front ++ record.bytes ++ back).length < 2 ^ 63) :
    (patchCentralRecord attributes centralEnd front.length).exec (front ++ record.bytes ++ back) =
      (.ok (front.length + record.bytes.length),
        front ++ (record.patched attributes).bytes ++ back) := by
  have length := record.length_bytes
  have recordEnd : front.length + (46 + record.name.length + record.extra.length +
      record.comment.length) = front.length + record.bytes.length := by
    rw [length]
  have bounded := small
  rw [List.length_append, List.length_append] at bounded
  have headerAt : (readExactAt front.length 46).exec (front ++ record.bytes ++ back) =
      (.ok record.header, front ++ record.bytes ++ back) := by
    have whole : front ++ record.bytes ++ back =
        front ++ record.header ++ (record.name ++ (record.extra ++ record.comment) ++ back) := by
      rw [record.bytes_eq]
      simp only [List.append_assoc]
    rw [whole] at small ⊢
    rw [← record.length_header]
    exact readExactAt_middle small
  have nameAt : (readExactAt (front.length + 46) record.name.length).exec
      (front ++ record.bytes ++ back) = (.ok record.name, front ++ record.bytes ++ back) := by
    have whole : front ++ record.bytes ++ back =
        (front ++ record.header) ++ record.name ++ (record.extra ++ record.comment ++ back) := by
      rw [record.bytes_eq]
      simp only [List.append_assoc]
    rw [whole] at small ⊢
    rw [← record.length_header, ← List.length_append]
    exact readExactAt_middle small
  unfold patchCentralRecord
  rw [if_neg (by omega)]
  simp only [StepM.exec_bind]
  rw [headerAt]
  dsimp only
  rw [record.readU32_header_signature, if_neg (not_not_intro rfl), record.readU16_header_name,
    record.readU16_header_extra, record.readU16_header_comment, recordEnd, if_neg (by omega),
    if_neg (by omega)]
  simp only [StepM.exec_bind]
  rw [nameAt]
  dsimp only
  cases same : attributesOf attributes record.name with
  | none =>
    rw [CentralRecord.patched_of_none same]
    rfl
  | some found =>
    rw [record.readU32_header_attributes, UInt32.ofNat_toNat]
    dsimp only
    rw [CentralRecord.bytes_patched same]
    by_cases kept : found.patch record.externalAttributes = record.externalAttributes
    · rw [if_neg (not_not_intro kept), kept]
      rfl
    · rw [if_pos kept]
      simp only [StepM.exec_bind, StepM.exec_modify, StepM.exec_pure, Prod.mk.injEq, true_and]
      have start : front.length + 38 = (front ++ record.fixedFront).length := by
        rw [List.length_append, record.length_fixedFront]
      have patched := Bytes.overwrite_middle (front ++ record.fixedFront)
        (record.back ++ back) (show
          (Bytes.leU32 record.externalAttributes.toNat).length =
            (Bytes.leU32 (found.patch record.externalAttributes).toNat).length from rfl)
      rw [start]
      unfold CentralRecord.bytes
      simp only [List.append_assoc] at patched ⊢
      exact patched

/-- Records in their places are patched one after the other. -/
theorem patchCentralRecords_ok (attributes : List (Text × ZipMetadataAttributes))
    {centralEnd : Nat} (records : List CentralRecord)
    (inside : front.length + (records.flatMap CentralRecord.bytes).length ≤ centralEnd)
    (small : (front ++ records.flatMap CentralRecord.bytes ++ back).length < 2 ^ 63) :
    (patchCentralRecords attributes centralEnd records.length front.length).exec
        (front ++ records.flatMap CentralRecord.bytes ++ back) =
      (.ok (), front ++
        (records.map (CentralRecord.patched attributes)).flatMap CentralRecord.bytes ++ back) := by
  induction records generalizing front with
  | nil => rfl
  | cons record rest ih =>
    rw [List.flatMap_cons, List.length_append] at inside
    have whole : front ++ (record :: rest).flatMap CentralRecord.bytes ++ back =
        front ++ record.bytes ++ (rest.flatMap CentralRecord.bytes ++ back) := by
      rw [List.flatMap_cons]
      simp only [List.append_assoc]
    have patched : front ++ (record.patched attributes).bytes ++
          (rest.flatMap CentralRecord.bytes ++ back) =
        (front ++ (record.patched attributes).bytes) ++ rest.flatMap CentralRecord.bytes ++
          back := by
      simp only [List.append_assoc]
    have next : front.length + record.bytes.length =
        (front ++ (record.patched attributes).bytes).length := by
      rw [List.length_append, CentralRecord.length_bytes_patched]
    rw [whole] at small ⊢
    have same := small
    rw [List.length_append, List.length_append, next] at same
    rw [List.length_cons, patchCentralRecords, StepM.exec_bind,
      patchCentralRecord_ok attributes (by omega) small]
    dsimp only
    rw [patched, next, ih (by omega) (by simpa only [List.length_append, Nat.add_assoc] using same),
      List.map_cons, List.flatMap_cons]
    simp only [List.append_assoc]

namespace SingleDiskZip

variable {archive : SingleDiskZip}

theorem length_directory_withAttributes (attributes : List (Text × ZipMetadataAttributes)) :
    (archive.withAttributes attributes).directory.length = archive.directory.length := by
  unfold directory withAttributes
  induction archive.records with
  | nil => rfl
  | cons record rest ih =>
    simp only at ih
    simp only [List.map_cons, List.flatMap_cons, List.length_append, ih,
      CentralRecord.length_bytes_patched]

/-- Only the central directory changes. -/
theorem bytes_withAttributes (attributes : List (Text × ZipMetadataAttributes)) :
    (archive.withAttributes attributes).bytes = archive.front ++
      (archive.records.map (CentralRecord.patched attributes)).flatMap CentralRecord.bytes ++
        (archive.zip64Part ++ archive.ending) := by
  have zip64 : (archive.withAttributes attributes).zip64Part = archive.zip64Part := by
    unfold zip64Part
    rw [length_directory_withAttributes]
    unfold withAttributes
    rw [List.length_map]
  unfold bytes beforeEnd
  rw [zip64, List.append_assoc _ archive.zip64Part]
  rfl

theorem withAttributes_nil : archive.withAttributes [] = archive := by
  have same : archive.records.map (CentralRecord.patched []) = archive.records :=
    List.map_id'' (fun record => CentralRecord.patched_of_none rfl) archive.records
  unfold withAttributes
  rw [same]

/-- Where the central directory is found, its records are patched. -/
theorem patch_ok (formed : archive.WellFormed) (alone : ¬archive.SignatureRecurs)
    (known : archive.zip64.isSome ∨ ¬archive.Saturated) :
    (patchZipMetadataAttributes manifest).exec archive.bytes =
      (.ok (), (archive.withAttributes (zipMetadataAttributes manifest)).bytes) := by
  have small := formed.fileSize
  have inside := @directory_le_bytes archive
  have length := @length_bytes archive
  by_cases empty : zipMetadataAttributes manifest = []
  · unfold patchZipMetadataAttributes
    rw [if_pos empty, empty, withAttributes_nil]
    rfl
  have whole : archive.bytes = archive.front ++ archive.records.flatMap CentralRecord.bytes ++
      (archive.zip64Part ++ archive.ending) := by
    unfold bytes beforeEnd directory
    simp only [List.append_assoc]
  unfold patchZipMetadataAttributes
  rw [if_neg empty]
  simp only [StepM.exec_bind]
  rw [readZipFooter_ok small alone]
  dsimp only
  rw [readZipDirectory_ok formed known]
  dsimp only
  rw [if_neg (by omega)]
  simp only [StepM.exec_bind, StepM.exec_get]
  rw [if_neg (by omega), bytes_withAttributes]
  rw [whole] at small ⊢
  exact patchCentralRecords_ok _ archive.records (Nat.le_refl _) small

/-- Where the pass goes through, the archive is as it is to become. -/
theorem attributesRestored_of_ok
    (patched : (patchZipMetadataAttributes manifest).exec archive.bytes =
      (.ok (), (archive.withAttributes (zipMetadataAttributes manifest)).bytes)) :
    archive.AttributesRestored manifest := by
  refine ⟨archive.records.map (CentralRecord.patched (zipMetadataAttributes manifest)), ?_, patched⟩
  rw [List.forall₂_map_right_iff]
  exact List.forall₂_same.mpr fun record _ => record.restored_patched manifest

/-- **Patching touches only attributes.** In an archive without a comment exactly
the external attributes of the records named like entries with special mode bits
or a read-only flag are set, if and only if there is nothing to set, or the
end-record signature does not recur in the end record and every full field of it
is one that a ZIP64 record has the value of. -/
theorem patch_attributes_iff (formed : archive.WellFormed) (manifest : ArchiveManifest) :
    archive.AttributesRestored manifest ↔
      (∀ entry ∈ manifest.entries, ¬entry.Marked) ∨
        (¬archive.SignatureRecurs ∧ (archive.zip64.isSome ∨ ¬archive.Saturated)) := by
  rw [← zipMetadataAttributes_eq_nil]
  constructor
  · rintro ⟨restored, -, patched⟩
    by_cases empty : zipMetadataAttributes manifest = []
    · exact .inl empty
    right
    unfold patchZipMetadataAttributes at patched
    rw [if_neg empty] at patched
    obtain ⟨⟨eocdPosition, eocd⟩, middle, footer, patched⟩ := StepM.exec_bind_eq_ok.mp patched
    have alone : ¬archive.SignatureRecurs := by
      intro recurs
      rw [readZipFooter_error formed.fileSize recurs] at footer
      cases footer
    refine ⟨alone, ?_⟩
    rw [readZipFooter_ok formed.fileSize alone] at footer
    cases footer
    obtain ⟨extent, _, read, -⟩ := StepM.exec_bind_eq_ok.mp patched
    by_cases saturated : archive.Saturated
    · left
      cases classic : archive.zip64 with
      | some footer => rfl
      | none =>
        obtain ⟨failure, failed⟩ := readZipDirectory_error formed classic saturated
        rw [failed] at read
        cases read
    · exact .inr saturated
  · intro condition
    apply attributesRestored_of_ok
    rcases condition with empty | ⟨alone, known⟩
    · unfold patchZipMetadataAttributes
      rw [if_pos empty, empty, withAttributes_nil]
      rfl
    · exact patch_ok formed alone known

/-- An archive of one stored file `a` of so many zero bytes. -/
def storedZeros (count crc : Nat) : SingleDiskZip where
  front := [0x50, 0x4b, 3, 4, 20, 0, 0, 0, 0, 0, 0, 0, 0x21, 0] ++ Bytes.leU32 crc ++
    Bytes.leU32 count ++ Bytes.leU32 count ++ [1, 0, 0, 0, 97] ++ List.replicate count 0
  records := [{
    front := [20, 3, 20, 0, 0, 0, 0, 0, 0, 0, 0x21, 0] ++ Bytes.leU32 crc ++ Bytes.leU32 count ++
      Bytes.leU32 count
    inner := [0, 0, 0, 0]
    externalAttributes := (0o100755 : UInt32) <<< 16
    localOffset := [0, 0, 0, 0]
    name := [97]
    extra := []
    comment := []
    front_length := rfl
    inner_length := rfl
    localOffset_length := rfl
    name_length := by decide
    extra_length := by decide
    comment_length := by decide }]
  zip64 := none
  entriesField := 1
  sizeField := 47
  offsetField := count + 31

/-- A manifest of one executable file `a` that runs as its owner. -/
def setuidManifest : ArchiveManifest where
  root := []
  entries := [{
    archivePath := ['a']
    sourcePath := []
    fileType := .file
    size := 1
    modified := none
    permissions := { readonly := false, unixMode := some 0o104755 }
    symlinkTarget := none }]
  totalBytes := 1
  excludedEntries := []
  excludedBytes := 0
  warnings := []

theorem length_storedZeros_front (count crc : Nat) :
    (storedZeros count crc).front.length = count + 31 := by
  unfold storedZeros
  simp only [List.length_append, List.length_replicate, Bytes.length_leU32, List.length_cons,
    List.length_nil]
  omega

theorem storedZeros_wellFormed {count crc : Nat} (small : count + 31 < 2 ^ 32 - 1) :
    (storedZeros count crc).WellFormed where
  entries := ⟨show 1 ≤ 65535 by decide, .inl rfl⟩
  size := ⟨show 47 ≤ 2 ^ 32 - 1 by decide, .inl rfl⟩
  offset := ⟨small.le, .inl (length_storedZeros_front count crc).symm⟩
  fileSize := by
    have directory : (storedZeros count crc).directory.length = 47 := rfl
    have front := length_storedZeros_front count crc
    rw [length_bytes, beforeEnd, List.length_append, List.length_append, front, directory]
    change count + 31 + 47 + 0 + 22 < 2 ^ 63
    omega
  noLocator := by
    intro classic saturated
    rcases saturated with many | wide | late
    · cases many
    · cases wide
    · exact absurd late small.ne

/-- The set-user-ID bit of a file of one byte is restored. -/
theorem setuid_restored : (storedZeros 1 0xd202ef8d).AttributesRestored setuidManifest :=
  (patch_attributes_iff (storedZeros_wellFormed (by decide)) setuidManifest).mpr
    (.inr ⟨by decide, .inr (by decide)⟩)

/-- The central directory may start at the number that is the signature. -/
theorem storedZeros_recurs {count : Nat} (crc : Nat)
    (same : count + 31 = zipEndOfCentralDirectorySignature) :
    (storedZeros count crc).SignatureRecurs := by
  refine ⟨16, by decide, by decide, ?_⟩
  change Bytes.readU32 (endRecord 1 47 (count + 31)) 16 = _
  rw [readU32_endRecord_offset (by rw [same]; decide), same]

theorem storedZeros_refused {count : Nat} (crc : Nat)
    (same : count + 31 = zipEndOfCentralDirectorySignature) :
    (storedZeros count crc).WellFormed ∧
      (patchZipMetadataAttributes setuidManifest).exec (storedZeros count crc).bytes =
        (.error (invalidZipMetadata "ZIP end-of-central-directory record is truncated"),
          (storedZeros count crc).bytes) := by
  have formed : (storedZeros count crc).WellFormed :=
    storedZeros_wellFormed (by rw [same]; decide)
  refine ⟨formed, ?_⟩
  unfold patchZipMetadataAttributes
  rw [if_neg (by decide), StepM.exec_bind,
    readZipFooter_error formed.fileSize (storedZeros_recurs crc same)]

/-- A file of 101010225 zero bytes puts its central directory at such an offset,
and the finished archive is refused. -/
theorem signature_as_offset_refused : (storedZeros 101010225 0x13015e20).WellFormed ∧
    ¬(storedZeros 101010225 0x13015e20).AttributesRestored setuidManifest := by
  obtain ⟨formed, refused⟩ := @storedZeros_refused 101010225 0x13015e20 (by decide)
  refine ⟨formed, ?_⟩
  rintro ⟨restored, -, patched⟩
  rw [refused, Prod.mk.injEq] at patched
  obtain ⟨succeeded, -⟩ := patched
  cases succeeded

end SingleDiskZip

end ZManager
