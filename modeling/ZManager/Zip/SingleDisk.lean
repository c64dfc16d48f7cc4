import ZManager.Create.SplitZip

/-! # Single-disk ZIP archives without a comment

The central directory with its records, the ZIP64 record with its locator and
the end record, as their fields and as the bytes that these make up. An archive
is well formed when the fields say how long its parts are.
-/

namespace ZManager

def zip64EndOfCentralDirectorySignature : Nat := 0x06064b50

/-- A record of the central directory. -/
structure CentralRecord where
  /-- From the version that made the entry up to its sizes. -/
  front : List UInt8
  /-- The first disk and the internal attributes. -/
  inner : List UInt8
  externalAttributes : UInt32
  localOffset : List UInt8
  name : List UInt8
  extra : List UInt8
  comment : List UInt8
  front_length : front.length = 24
  inner_length : inner.length = 4
  localOffset_length : localOffset.length = 4
  name_length : name.length < 65536
  extra_length : extra.length < 65536
  comment_length : comment.length < 65536

namespace CentralRecord

/-- The fixed part of a record before its external attributes. -/
def fixedFront (record : CentralRecord) : List UInt8 :=
  Bytes.leU32 zipCentralDirectorySignature ++ record.front ++ Bytes.leU16 record.name.length ++
    Bytes.leU16 record.extra.length ++ Bytes.leU16 record.comment.length ++ record.inner

/-- What follows the external attributes of a record. -/
def back (record : CentralRecord) : List UInt8 :=
  record.localOffset ++ record.name ++ record.extra ++ record.comment

def bytes (record : CentralRecord) : List UInt8 :=
  record.fixedFront ++ Bytes.leU32 record.externalAttributes.toNat ++ record.back

end CentralRecord

/-- The end record of an archive on one disk without a comment. -/
def endRecord (entries size offset : Nat) : List UInt8 :=
  Bytes.leU32 zipEndOfCentralDirectorySignature ++ [0, 0, 0, 0] ++ Bytes.leU16 entries ++
    Bytes.leU16 entries ++ Bytes.leU32 size ++ Bytes.leU32 offset ++ [0, 0]

/-- What a ZIP64 end record says besides the extent of the central directory. -/
structure Zip64Footer where
  versions : List UInt8
  extensible : List UInt8
  versions_length : versions.length = 4

/-- The fixed part of the ZIP64 end record for so many records of a size at an offset. -/
def Zip64Footer.fixed (footer : Zip64Footer) (entries size offset : Nat) : List UInt8 :=
  Bytes.leU32 zip64EndOfCentralDirectorySignature ++
    Bytes.leU64 (44 + footer.extensible.length) ++ footer.versions ++
    [0, 0, 0, 0, 0, 0, 0, 0] ++ Bytes.leU64 entries ++ Bytes.leU64 entries ++ Bytes.leU64 size ++
    Bytes.leU64 offset

/-- The locator of a ZIP64 end record. -/
def zip64Locator (position : Nat) : List UInt8 :=
  Bytes.leU32 zip64EndOfCentralDirectoryLocatorSignature ++ [0, 0, 0, 0] ++
    Bytes.leU64 position ++ Bytes.leU32 1

/-- A single-disk archive without a comment, as the parts it is made of. The
fields of the end record are those that are written there. -/
structure SingleDiskZip where
  /-- Everything before the central directory. -/
  front : List UInt8
  records : List CentralRecord
  zip64 : Option Zip64Footer
  entriesField : Nat
  sizeField : Nat
  offsetField : Nat

namespace SingleDiskZip

variable (archive : SingleDiskZip)

def directory : List UInt8 := archive.records.flatMap CentralRecord.bytes

/-- The ZIP64 record and its locator, where the archive has them. -/
def zip64Part : List UInt8 :=
  match archive.zip64 with
  | none => []
  | some footer =>
    footer.fixed archive.records.length archive.directory.length archive.front.length ++
      footer.extensible ++ zip64Locator (archive.front.length + archive.directory.length)

/-- What stands before the end record. -/
def beforeEnd : List UInt8 := archive.front ++ archive.directory ++ archive.zip64Part

/-- The end record as it is written. -/
def ending : List UInt8 := endRecord archive.entriesField archive.sizeField archive.offsetField

def bytes : List UInt8 := archive.beforeEnd ++ archive.ending

/-- A field of the end record is full. -/
def Saturated : Prop :=
  archive.entriesField = 65535 ∨ archive.sizeField = 2 ^ 32 - 1 ∨ archive.offsetField = 2 ^ 32 - 1

instance : Decidable archive.Saturated := inferInstanceAs (Decidable (_ ∨ _ ∨ _))

/-- The end-record signature stands inside the end record once more. -/
def SignatureRecurs : Prop :=
  ∃ offset < 19, 0 < offset ∧
    Bytes.readU32 archive.ending offset = zipEndOfCentralDirectorySignature

instance : Decidable archive.SignatureRecurs :=
  inferInstanceAs (Decidable (∃ offset < 19, 0 < offset ∧
    Bytes.readU32 archive.ending offset = zipEndOfCentralDirectorySignature))

/-- A field holds its value, or is full where the ZIP64 record has the value. -/
def Holds (field value full : Nat) : Prop :=
  field ≤ full ∧ (field = value ∨ archive.zip64.isSome ∧ field = full)

/-- The parts make up an archive: the fields hold what they stand for, and no
ZIP64 record is announced where there is none. -/
structure WellFormed : Prop where
  entries : archive.Holds archive.entriesField archive.records.length 65535
  size : archive.Holds archive.sizeField archive.directory.length (2 ^ 32 - 1)
  offset : archive.Holds archive.offsetField archive.front.length (2 ^ 32 - 1)
  fileSize : archive.bytes.length < 2 ^ 63
  noLocator : archive.zip64 = none → archive.Saturated → 20 ≤ archive.beforeEnd.length →
    Bytes.readU32 archive.beforeEnd (archive.beforeEnd.length - 20) ≠
      zip64EndOfCentralDirectoryLocatorSignature

end SingleDiskZip

/-! ## The end record -/

@[simp] theorem length_endRecord (entries size offset : Nat) :
    (endRecord entries size offset).length = zipEocdMinSize := rfl

theorem readU32_endRecord_signature (entries size offset : Nat) :
    Bytes.readU32 (endRecord entries size offset) 0 = zipEndOfCentralDirectorySignature := by
  unfold endRecord
  simp only [List.append_assoc]
  apply Bytes.readU32_leU32
  decide

section

variable {entries size offset : Nat}

theorem readU16_endRecord_entries (small : entries ≤ 65535) :
    Bytes.readU16 (endRecord entries size offset) 10 = entries := by
  have placed := Bytes.readU16_append_right (Bytes.leU32 zipEndOfCentralDirectorySignature ++
    [0, 0, 0, 0] ++ Bytes.leU16 entries)
    (Bytes.leU16 entries ++ (Bytes.leU32 size ++ Bytes.leU32 offset ++ [0, 0])) 0
  rw [Bytes.readU16_leU16 (by omega)] at placed
  simp only [List.append_assoc] at placed
  unfold endRecord
  simp only [List.append_assoc]
  exact placed

theorem readU32_endRecord_size (small : size ≤ 2 ^ 32 - 1) :
    Bytes.readU32 (endRecord entries size offset) 12 = size := by
  have placed := Bytes.readU32_append_right (Bytes.leU32 zipEndOfCentralDirectorySignature ++
    [0, 0, 0, 0] ++ Bytes.leU16 entries ++ Bytes.leU16 entries)
    (Bytes.leU32 size ++ (Bytes.leU32 offset ++ [0, 0])) 0
  rw [Bytes.readU32_leU32 (by omega)] at placed
  simp only [List.append_assoc] at placed
  unfold endRecord
  simp only [List.append_assoc]
  exact placed

theorem readU32_endRecord_offset (small : offset ≤ 2 ^ 32 - 1) :
    Bytes.readU32 (endRecord entries size offset) 16 = offset := by
  have placed := Bytes.readU32_append_right (Bytes.leU32 zipEndOfCentralDirectorySignature ++
    [0, 0, 0, 0] ++ Bytes.leU16 entries ++ Bytes.leU16 entries ++ Bytes.leU32 size)
    (Bytes.leU32 offset ++ [0, 0]) 0
  rw [Bytes.readU32_leU32 (by omega)] at placed
  simp only [List.append_assoc] at placed
  unfold endRecord
  simp only [List.append_assoc]
  exact placed

end

/-! ## The ZIP64 record -/

theorem readU64_zip64Locator {position : Nat} (small : position < 2 ^ 64) :
    Bytes.readU64 (zip64Locator position) 8 = position := by
  have placed := Bytes.readU64_append_right
    (Bytes.leU32 zip64EndOfCentralDirectoryLocatorSignature ++ [0, 0, 0, 0])
    (Bytes.leU64 position ++ Bytes.leU32 1) 0
  rw [Bytes.readU64_leU64 small] at placed
  simp only [List.append_assoc] at placed
  unfold zip64Locator
  simp only [List.append_assoc]
  exact placed

namespace Zip64Footer

variable (footer : Zip64Footer) {entries size offset : Nat}

/-- The part of the ZIP64 record before the number of entries. -/
def head (entries : Nat) : List UInt8 :=
  Bytes.leU32 zip64EndOfCentralDirectorySignature ++
    Bytes.leU64 (44 + footer.extensible.length) ++ footer.versions ++
    [0, 0, 0, 0, 0, 0, 0, 0] ++ Bytes.leU64 entries

theorem length_head : (footer.head entries).length = 32 := by
  unfold head
  simp only [List.length_append, Bytes.length_leU32, Bytes.length_leU64, footer.versions_length,
    List.length_cons, List.length_nil]

theorem length_fixed : (footer.fixed entries size offset).length = 56 := by
  change ((footer.head entries ++ Bytes.leU64 entries ++ Bytes.leU64 size) ++
    Bytes.leU64 offset).length = 56
  simp only [List.length_append, length_head, Bytes.length_leU64]

theorem readU32_fixed : Bytes.readU32 (footer.fixed entries size offset) 0 =
    zip64EndOfCentralDirectorySignature := by
  unfold fixed
  simp only [List.append_assoc]
  apply Bytes.readU32_leU32
  decide

theorem readU64_fixed_entries (small : entries < 2 ^ 64) :
    Bytes.readU64 (footer.fixed entries size offset) 32 = entries := by
  have placed := Bytes.readU64_append_right (footer.head entries)
    (Bytes.leU64 entries ++ (Bytes.leU64 size ++ Bytes.leU64 offset)) 0
  rw [Bytes.readU64_leU64 small, length_head, ← List.append_assoc, ← List.append_assoc] at placed
  exact placed

theorem readU64_fixed_size (small : size < 2 ^ 64) :
    Bytes.readU64 (footer.fixed entries size offset) 40 = size := by
  have placed := Bytes.readU64_append_right (footer.head entries ++ Bytes.leU64 entries)
    (Bytes.leU64 size ++ Bytes.leU64 offset) 0
  rw [Bytes.readU64_leU64 small, List.length_append, length_head, ← List.append_assoc] at placed
  exact placed

theorem readU64_fixed_offset (small : offset < 2 ^ 64) :
    Bytes.readU64 (footer.fixed entries size offset) 48 = offset := by
  have placed := Bytes.readU64_append_right (footer.head entries ++ Bytes.leU64 entries ++
    Bytes.leU64 size) (Bytes.leU64 offset ++ []) 0
  rw [Bytes.readU64_leU64 small, List.length_append, List.length_append, length_head,
    List.append_nil] at placed
  exact placed

end Zip64Footer

namespace CentralRecord

variable (record : CentralRecord)

theorem length_fixedFront : record.fixedFront.length = 38 := by
  unfold fixedFront
  simp only [List.length_append, Bytes.length_leU32, Bytes.length_leU16, record.front_length,
    record.inner_length]

theorem length_back : record.back.length =
    4 + record.name.length + record.extra.length + record.comment.length := by
  unfold back
  simp only [List.length_append, record.localOffset_length]

theorem length_bytes : record.bytes.length =
    46 + record.name.length + record.extra.length + record.comment.length := by
  unfold bytes
  rw [List.length_append, List.length_append, length_fixedFront, length_back, Bytes.length_leU32]
  omega

end CentralRecord

namespace CentralRecord

variable (record : CentralRecord)

/-- The fixed part of a record. -/
def header : List UInt8 :=
  record.fixedFront ++ Bytes.leU32 record.externalAttributes.toNat ++ record.localOffset

theorem length_header : record.header.length = 46 := by
  unfold header
  simp only [List.length_append, length_fixedFront, Bytes.length_leU32, record.localOffset_length]

theorem bytes_eq : record.bytes =
    record.header ++ record.name ++ (record.extra ++ record.comment) := by
  unfold bytes header back
  simp only [List.append_assoc]

theorem readU32_header_signature :
    Bytes.readU32 record.header 0 = zipCentralDirectorySignature := by
  unfold header fixedFront
  simp only [List.append_assoc]
  apply Bytes.readU32_leU32
  decide

theorem readU16_header_name : Bytes.readU16 record.header 28 = record.name.length := by
  have placed := Bytes.readU16_append_right
    (Bytes.leU32 zipCentralDirectorySignature ++ record.front)
    (Bytes.leU16 record.name.length ++ (Bytes.leU16 record.extra.length ++
      Bytes.leU16 record.comment.length ++ record.inner ++
      Bytes.leU32 record.externalAttributes.toNat ++ record.localOffset)) 0
  rw [Bytes.readU16_leU16 record.name_length, List.length_append, record.front_length] at placed
  simp only [List.append_assoc] at placed
  unfold header fixedFront
  simp only [List.append_assoc]
  exact placed

theorem readU16_header_extra : Bytes.readU16 record.header 30 = record.extra.length := by
  have placed := Bytes.readU16_append_right
    (Bytes.leU32 zipCentralDirectorySignature ++ record.front ++ Bytes.leU16 record.name.length)
    (Bytes.leU16 record.extra.length ++ (Bytes.leU16 record.comment.length ++ record.inner ++
      Bytes.leU32 record.externalAttributes.toNat ++ record.localOffset)) 0
  rw [Bytes.readU16_leU16 record.extra_length, List.length_append, List.length_append,
    record.front_length] at placed
  simp only [List.append_assoc] at placed
  unfold header fixedFront
  simp only [List.append_assoc]
  exact placed

theorem readU16_header_comment : Bytes.readU16 record.header 32 = record.comment.length := by
  have placed := Bytes.readU16_append_right
    (Bytes.leU32 zipCentralDirectorySignature ++ record.front ++ Bytes.leU16 record.name.length ++
      Bytes.leU16 record.extra.length)
    (Bytes.leU16 record.comment.length ++ (record.inner ++
      Bytes.leU32 record.externalAttributes.toNat ++ record.localOffset)) 0
  rw [Bytes.readU16_leU16 record.comment_length, List.length_append, List.length_append,
    List.length_append, record.front_length] at placed
  simp only [List.append_assoc] at placed
  unfold header fixedFront
  simp only [List.append_assoc]
  exact placed

theorem readU32_header_attributes :
    Bytes.readU32 record.header 38 = record.externalAttributes.toNat := by
  have placed := Bytes.readU32_append_right record.fixedFront
    (Bytes.leU32 record.externalAttributes.toNat ++ record.localOffset) 0
  rw [Bytes.readU32_leU32 record.externalAttributes.toNat_lt, length_fixedFront,
    ← List.append_assoc] at placed
  exact placed

end CentralRecord

/-! ## The parts of an archive -/

namespace SingleDiskZip

variable {archive : SingleDiskZip}

theorem length_ending : archive.ending.length = zipEocdMinSize := rfl

theorem length_bytes : archive.bytes.length = archive.beforeEnd.length + 22 := by
  unfold bytes
  rw [List.length_append, length_ending]
  rfl

theorem records_le_directory : archive.records.length ≤ archive.directory.length := by
  unfold directory
  induction archive.records with
  | nil => exact Nat.le_refl 0
  | cons record rest ih =>
    rw [List.flatMap_cons, List.length_append, List.length_cons, record.length_bytes]
    omega

theorem directory_le_bytes :
    archive.front.length + archive.directory.length ≤ archive.beforeEnd.length := by
  unfold beforeEnd
  rw [List.length_append, List.length_append]
  omega

/-- A field that is not full has its value. -/
theorem Holds.eq_of_ne_full {field value full : Nat} (holds : archive.Holds field value full)
    (free : field ≠ full) : field = value :=
  holds.2.resolve_right fun saturated => free saturated.2

end SingleDiskZip

end ZManager
