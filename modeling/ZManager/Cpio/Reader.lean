import ZManager.Foundation.Bytes
import ZManager.Foundation.Step
import ZManager.Foundation.Utf8
import ZManager.Safety.Policy

/-! # Reading CPIO archives

An archive is a sequence of records in one of four encodings: a header with
numeric fields, a name, and a payload, with padding behind the last two. The
reader moves through the file by absolute positions; a seek beyond the end is
not an error until something is read there.
-/

namespace ZManager

/-- The encodings that are supported, as they stand in the file. -/
inductive WireFormat where
  | newc
  | crc
  | odc
  | binary (littleEndian : Bool)
  deriving DecidableEq

/-- The kind of an entry in a listing. -/
inductive BrowserEntryKind where
  | file
  | directory
  | symlink
  | hardlink
  | special
  | fileCopy
  deriving DecidableEq

/-- Failures of the CPIO reader. -/
inductive CpioError where
  | io (path : PathBuf) (source : IoError)
  | invalid (path : PathBuf) (message : String)

/-- One entry as it is listed. -/
structure CpioEntry where
  index : Nat
  path : Text
  kind : BrowserEntryKind
  size : Nat
  mode : Nat
  modified : Option Text
  linkTarget : Option Text

/-- An entry with what later steps need of its record. -/
structure ParsedEntry extends CpioEntry where
  dataOffset : Nat
  checksum : Option Nat
  inode : Nat
  device : Nat × Nat
  nlink : Nat

/-- The fields of a record. -/
structure CpioRecord where
  name : Text
  mode : Nat
  mtime : Nat
  size : Nat
  dataOffset : Nat
  checksum : Option Nat
  inode : Nat
  device : Nat × Nat
  nlink : Nat

namespace Cpio

/-- `"070701"`, `"070702"` and `"070707"`. -/
def newcMagic : List UInt8 := [0x30, 0x37, 0x30, 0x37, 0x30, 0x31]

def crcMagic : List UInt8 := [0x30, 0x37, 0x30, 0x37, 0x30, 0x32]

def odcMagic : List UInt8 := [0x30, 0x37, 0x30, 0x37, 0x30, 0x37]

def binaryMagicBe : List UInt8 := [0x71, 0xc7]

def binaryMagicLe : List UInt8 := [0xc7, 0x71]

def trailerName : Text := "TRAILER!!!".toList

def maxNameBytes : Nat := 16 * 1024 * 1024

/-! ## Fields -/

def parseHex (path : PathBuf) (bytes : List UInt8) : Except CpioError Nat :=
  match u64FromStrRadix 16 ((fromUtf8 bytes).getD []) with
  | some number => .ok number
  | none => .error (.invalid path "CPIO hexadecimal field is invalid")

def parseOctal (path : PathBuf) (bytes : List UInt8) : Except CpioError Nat :=
  let text := Text.trim ((fromUtf8 bytes).getD [])
  match u64FromStrRadix 8 (if text = [] then ['0'] else text) with
  | some number => .ok number
  | none => .error (.invalid path "CPIO octal field is invalid")

/-- A field of two bytes. -/
def endian (littleEndian : Bool) (bytes : List UInt8) (offset : Nat) : Nat :=
  let first := (bytes.getD offset 0).toNat
  let second := (bytes.getD (offset + 1) 0).toNat
  if littleEndian then first + 256 * second else 256 * first + second

/-- The bytes of a range. -/
def slice (bytes : List UInt8) (start stop : Nat) : List UInt8 :=
  (bytes.drop start).take (stop - start)

/-! ## Positions -/

def unexpectedEof (path : PathBuf) : CpioError :=
  .io path ⟨.unexpectedEof, "failed to fill whole buffer"⟩

/-- `read_exact` at a position. -/
def readExact (path : PathBuf) (archive : List UInt8) (position count : Nat) :
    Except CpioError (List UInt8) :=
  if count = 0 ∨ position + count ≤ archive.length then
    .ok (slice archive position (position + count))
  else .error (unexpectedEof path)

/-- The header of a record. At the end of an empty file there is none. -/
def readHeader (path : PathBuf) (archive : List UInt8) (position count : Nat) :
    Except CpioError (Option (List UInt8)) :=
  match readExact path archive position count with
  | .ok header => .ok (some header)
  | .error failure => if max position archive.length = 0 then .ok none else .error failure

/-- The padding behind so many bytes. -/
def padding (size alignment : Nat) : Nat :=
  (alignment - size % alignment) % alignment

/-- The name of a record, and the position behind its padding. -/
def readName (path : PathBuf) (archive : List UInt8) (position size alignment headerSize : Nat) :
    Except CpioError (Text × Nat) := do
  if size = 0 ∨ maxNameBytes < size then
    throw (.invalid path "CPIO pathname length is outside the supported bound")
  let bytes ← readExact path archive position size
  if bytes.getLast? ≠ some 0 then
    throw (.invalid path "CPIO pathname is not NUL terminated")
  return (fromUtf8Lossy bytes.dropLast, position + size + padding (headerSize + size) alignment)

def magicMismatch (path : PathBuf) : CpioError :=
  .invalid path "record magic does not match the archive encoding"

/-- The thirteen fields of an ASCII header. -/
def newcFields (path : PathBuf) (header : List UInt8) : Except CpioError (List Nat) :=
  (List.range 13).mapM fun index => parseHex path (slice header (6 + index * 8) (14 + index * 8))

/-- A mode must fit in 32 bits. -/
def nativeMode (path : PathBuf) (mode : Nat) : Except CpioError Nat :=
  if mode < 2 ^ 32 then .ok mode else .error (.invalid path "mode exceeds native width")

def readNewcRecord (path : PathBuf) (archive : List UInt8) (position : Nat) (isCrc : Bool) :
    Except CpioError (Option CpioRecord) := do
  let some header ← readHeader path archive position 110 | return none
  if slice header 0 6 ≠ (if isCrc then crcMagic else newcMagic) then
    throw (magicMismatch path)
  let fields ← newcFields path header
  let (name, dataOffset) ← readName path archive (position + 110) (fields.getD 11 0) 4 110
  let mode ← nativeMode path (fields.getD 1 0)
  return some {
    name := name
    mode := mode
    mtime := fields.getD 5 0
    size := fields.getD 6 0
    dataOffset := dataOffset
    checksum := if isCrc then some (min (fields.getD 12 0) (2 ^ 32 - 1)) else none
    inode := fields.getD 0 0
    device := (fields.getD 2 0, fields.getD 3 0)
    nlink := fields.getD 4 0 }

def readOdcRecord (path : PathBuf) (archive : List UInt8) (position : Nat) :
    Except CpioError (Option CpioRecord) := do
  let some header ← readHeader path archive position 76 | return none
  if slice header 0 6 ≠ odcMagic then
    throw (magicMismatch path)
  let dev ← parseOctal path (slice header 6 12)
  let inode ← parseOctal path (slice header 12 18)
  let mode ← parseOctal path (slice header 18 24)
  let nlink ← parseOctal path (slice header 36 42)
  let mtime ← parseOctal path (slice header 48 59)
  let namesize ← parseOctal path (slice header 59 65)
  let size ← parseOctal path (slice header 65 76)
  let (name, dataOffset) ← readName path archive (position + 76) namesize 1 76
  let mode ← nativeMode path mode
  return some {
    name := name
    mode := mode
    mtime := mtime
    size := size
    dataOffset := dataOffset
    checksum := none
    inode := inode
    device := (dev, 0)
    nlink := nlink }

def readBinaryRecord (path : PathBuf) (archive : List UInt8) (position : Nat)
    (littleEndian : Bool) : Except CpioError (Option CpioRecord) := do
  let some header ← readHeader path archive position 26 | return none
  if endian littleEndian header 0 ≠ 0x71c7 then
    throw (magicMismatch path)
  let field := fun index => endian littleEndian header (index * 2)
  let (name, dataOffset) ← readName path archive (position + 26) (field 10) 2 26
  return some {
    name := name
    mode := field 3
    mtime := field 8 * 2 ^ 16 + field 9
    size := field 11 * 2 ^ 16 + field 12
    dataOffset := dataOffset
    checksum := none
    inode := field 2
    device := (field 1, 0)
    nlink := field 6 }

/-- The record at a position, by the format. -/
def readRecord (path : PathBuf) (archive : List UInt8) (position : Nat) :
    WireFormat → Except CpioError (Option CpioRecord)
  | .newc => readNewcRecord path archive position false
  | .crc => readNewcRecord path archive position true
  | .odc => readOdcRecord path archive position
  | .binary littleEndian => readBinaryRecord path archive position littleEndian

def WireFormat.alignment : WireFormat → Nat
  | .newc | .crc => 4
  | .odc => 1
  | .binary _ => 2

/-- The position behind a payload and its padding. -/
def skipPayload (path : PathBuf) (offset size : Nat) (format : WireFormat) :
    Except CpioError Nat :=
  if 2 ^ 64 ≤ offset + size then .error (.invalid path "CPIO payload offset overflows")
  else .ok (offset + size + padding size (WireFormat.alignment format))

def readLinkTarget (path : PathBuf) (archive : List UInt8) (offset size : Nat) :
    Except CpioError Text := do
  let bytes ← readExact path archive offset size
  return fromUtf8Lossy bytes

def entryKind (mode : Nat) : BrowserEntryKind :=
  let kind := mode / 2 ^ 12 % 2 ^ 4
  if kind = 0o04 then .directory
  else if kind = 0o12 then .symlink
  else if kind = 0o10 then .file
  else .special

/-! ## Records move on -/

section

variable {path : PathBuf} {archive : List UInt8} {position : Nat} {record : CpioRecord}

theorem readHeader_some {count : Nat} {header : List UInt8} (positive : 0 < count)
    (read : readHeader path archive position count = .ok (some header)) :
    position + count ≤ archive.length ∧ header = slice archive position (position + count) := by
  unfold readHeader readExact at read
  by_cases fits : count = 0 ∨ position + count ≤ archive.length
  · rw [if_pos fits] at read
    cases read
    exact ⟨by omega, rfl⟩
  · rw [if_neg fits] at read
    simp only at read
    split_ifs at read
    cases read

theorem readName_ok {size alignment headerSize next : Nat} {name : Text}
    (read : readName path archive position size alignment headerSize = .ok (name, next)) :
    position < next := by
  unfold readName at read
  by_cases bounded : size = 0 ∨ maxNameBytes < size
  · rw [if_pos bounded] at read
    cases read
  rw [if_neg bounded] at read
  obtain ⟨bytes, -, read⟩ := Except.bind_eq_ok_iff.mp read
  by_cases terminated : bytes.getLast? ≠ some 0
  · rw [if_pos terminated] at read
    cases read
  rw [if_neg terminated] at read
  cases read
  omega

theorem readNewcRecord_advances {isCrc : Bool}
    (read : readNewcRecord path archive position isCrc = .ok (some record)) :
    position < archive.length ∧ position < record.dataOffset := by
  unfold readNewcRecord at read
  generalize (if isCrc then crcMagic else newcMagic) = magic at read
  obtain ⟨header, found, read⟩ := Except.bind_eq_ok_iff.mp read
  cases header with
  | none => cases read
  | some header =>
    obtain ⟨inside, -⟩ := readHeader_some (by omega) found
    by_cases other : slice header 0 6 ≠ magic
    · simp only [other, ne_eq, not_false_eq_true, ↓reduceIte] at read
      cases read
    simp only [other, ↓reduceIte] at read
    obtain ⟨fields, -, read⟩ := Except.bind_eq_ok_iff.mp read
    obtain ⟨⟨name, next⟩, named, read⟩ := Except.bind_eq_ok_iff.mp read
    obtain ⟨mode, -, read⟩ := Except.bind_eq_ok_iff.mp read
    cases read
    have behind := readName_ok named
    exact ⟨by omega, by simp only; omega⟩

theorem readOdcRecord_advances
    (read : readOdcRecord path archive position = .ok (some record)) :
    position < archive.length ∧ position < record.dataOffset := by
  unfold readOdcRecord at read
  obtain ⟨header, found, read⟩ := Except.bind_eq_ok_iff.mp read
  cases header with
  | none => cases read
  | some header =>
    obtain ⟨inside, -⟩ := readHeader_some (by omega) found
    by_cases other : slice header 0 6 ≠ odcMagic
    · simp only [other, ne_eq, not_false_eq_true, ↓reduceIte] at read
      cases read
    simp only [other, ↓reduceIte] at read
    obtain ⟨dev, -, read⟩ := Except.bind_eq_ok_iff.mp read
    obtain ⟨inode, -, read⟩ := Except.bind_eq_ok_iff.mp read
    obtain ⟨mode, -, read⟩ := Except.bind_eq_ok_iff.mp read
    obtain ⟨nlink, -, read⟩ := Except.bind_eq_ok_iff.mp read
    obtain ⟨mtime, -, read⟩ := Except.bind_eq_ok_iff.mp read
    obtain ⟨namesize, -, read⟩ := Except.bind_eq_ok_iff.mp read
    obtain ⟨size, -, read⟩ := Except.bind_eq_ok_iff.mp read
    obtain ⟨⟨name, next⟩, named, read⟩ := Except.bind_eq_ok_iff.mp read
    obtain ⟨mode, -, read⟩ := Except.bind_eq_ok_iff.mp read
    cases read
    have behind := readName_ok named
    exact ⟨by omega, by simp only; omega⟩

theorem readBinaryRecord_advances {littleEndian : Bool}
    (read : readBinaryRecord path archive position littleEndian = .ok (some record)) :
    position < archive.length ∧ position < record.dataOffset := by
  unfold readBinaryRecord at read
  obtain ⟨header, found, read⟩ := Except.bind_eq_ok_iff.mp read
  cases header with
  | none => cases read
  | some header =>
    obtain ⟨inside, -⟩ := readHeader_some (by omega) found
    by_cases other : endian littleEndian header 0 ≠ 0x71c7
    · simp only [other, ne_eq, not_false_eq_true, ↓reduceIte] at read
      cases read
    simp only [other, ↓reduceIte] at read
    obtain ⟨⟨name, next⟩, named, read⟩ := Except.bind_eq_ok_iff.mp read
    cases read
    have behind := readName_ok named
    exact ⟨by omega, by simp only; omega⟩

/-- A record that is read lies inside the file, and its data behind its start. -/
theorem readRecord_advances {format : WireFormat}
    (read : readRecord path archive position format = .ok (some record)) :
    position < archive.length ∧ position < record.dataOffset := by
  cases format with
  | newc => exact readNewcRecord_advances read
  | crc => exact readNewcRecord_advances read
  | odc => exact readOdcRecord_advances read
  | binary littleEndian => exact readBinaryRecord_advances read

theorem skipPayload_ok {format : WireFormat} {offset size next : Nat}
    (skipped : skipPayload path offset size format = .ok next) : offset ≤ next := by
  unfold skipPayload at skipped
  split_ifs at skipped
  cases skipped
  omega

end

/-! ## The archive -/

/-- The target of a symbolic link. -/
def linkTargetOf (path : PathBuf) (archive : List UInt8) (record : CpioRecord) :
    Except CpioError (Option Text) :=
  if entryKind record.mode = .symlink then
    (readLinkTarget path archive record.dataOffset record.size).map some
  else .ok none

/-- The entry of a record, and the position behind it. -/
def readEntry (path : PathBuf) (archive : List UInt8) (format : WireFormat) (index : Nat)
    (record : CpioRecord) : Except CpioError (ParsedEntry × Nat) := do
  let linkTarget ← linkTargetOf path archive record
  let next ← skipPayload path record.dataOffset record.size format
  return ({
    index := index
    path := record.name
    kind := entryKind record.mode
    size := record.size
    mode := record.mode
    modified := some (Nat.toDigits 10 record.mtime)
    linkTarget := linkTarget
    dataOffset := record.dataOffset
    checksum := record.checksum
    inode := record.inode
    device := record.device
    nlink := record.nlink }, next)

theorem readEntry_ok {path : PathBuf} {archive : List UInt8} {format : WireFormat} {index : Nat}
    {record : CpioRecord} {entry : ParsedEntry} {next : Nat}
    (read : readEntry path archive format index record = .ok (entry, next)) :
    record.dataOffset ≤ next := by
  obtain ⟨linkTarget, -, read⟩ := Except.bind_eq_ok_iff.mp read
  obtain ⟨position, skipped, read⟩ := Except.bind_eq_ok_iff.mp read
  cases read
  exact skipPayload_ok skipped

/-- The records from a position on, behind the entries read before. -/
def parseRecords (path : PathBuf) (archive : List UInt8) (format : WireFormat) (position : Nat)
    (entries : List ParsedEntry) : Except CpioError (List ParsedEntry) :=
  match _read : readRecord path archive position format with
  | .error failure => .error failure
  | .ok none => .error (.invalid path "archive ended before TRAILER!!!")
  | .ok (some record) =>
    if record.name = trailerName then .ok entries
    else
      match _entered : readEntry path archive format entries.length record with
      | .error failure => .error failure
      | .ok (entry, next) => parseRecords path archive format next (entries ++ [entry])
termination_by archive.length - position
decreasing_by
  have advances := readRecord_advances _read
  have behind := readEntry_ok _entered
  omega

section

variable {path : PathBuf} {archive : List UInt8} {format : WireFormat} {position : Nat}
variable {entries : List ParsedEntry} {record : CpioRecord}

theorem parseRecords_refused {failure : CpioError}
    (read : readRecord path archive position format = .error failure) :
    parseRecords path archive format position entries = .error failure := by
  rw [parseRecords]
  split
  all_goals simp_all

theorem parseRecords_trailer (read : readRecord path archive position format = .ok (some record))
    (last : record.name = trailerName) :
    parseRecords path archive format position entries = .ok entries := by
  rw [parseRecords]
  split
  all_goals simp_all

theorem parseRecords_next {entry : ParsedEntry} {next : Nat}
    (read : readRecord path archive position format = .ok (some record))
    (named : record.name ≠ trailerName)
    (entered : readEntry path archive format entries.length record = .ok (entry, next)) :
    parseRecords path archive format position entries =
      parseRecords path archive format next (entries ++ [entry]) := by
  rw [parseRecords]
  split
  · simp_all
  · simp_all
  · rename_i other again
    cases again.symm.trans read
    rw [if_neg named]
    split
    · simp_all
    · rename_i otherEntry otherNext enteredAgain
      cases enteredAgain.symm.trans entered
      rfl

/-- What a successful reading is made of. -/
theorem parseRecords_ok {result : List ParsedEntry}
    (parsed : parseRecords path archive format position entries = .ok result) :
    ∃ record, readRecord path archive position format = .ok (some record) ∧
      (record.name = trailerName ∧ result = entries ∨
        record.name ≠ trailerName ∧ ∃ entry next,
          readEntry path archive format entries.length record = .ok (entry, next) ∧
            parseRecords path archive format next (entries ++ [entry]) = .ok result) := by
  rw [parseRecords] at parsed
  split at parsed
  · cases parsed
  · cases parsed
  · rename_i record read
    by_cases last : record.name = trailerName
    · rw [if_pos last] at parsed
      cases parsed
      exact ⟨record, read, .inl ⟨last, rfl⟩⟩
    · rw [if_neg last] at parsed
      split at parsed
      · cases parsed
      · rename_i entry next entered
        exact ⟨record, read, .inr ⟨last, entry, next, entered, parsed⟩⟩

end

/-- The entries that may be further names of others: regular files with several
links. -/
def linkCandidates (entries : List ParsedEntry) : List (Nat × (Nat × Nat) × Nat) :=
  (entries.filter fun entry => entry.kind = .file && 1 < entry.nlink).map fun entry =>
    (entry.inode, entry.device, entry.index)

/-- The entry that holds the content of a file: the first with its identity that is
not empty. -/
def linkSource (entries : List ParsedEntry) (inode : Nat) (device : Nat × Nat) :
    Option ParsedEntry :=
  entries.find? fun entry =>
    entry.kind = .file && entry.size ≠ 0 && entry.inode = inode && entry.device = device

/-- Makes one candidate a link. -/
def assignHardlink (entries : List ParsedEntry) (candidate : Nat × (Nat × Nat) × Nat) :
    List ParsedEntry :=
  let (inode, device, index) := candidate
  match entries[index]? with
  | none => entries
  | some entry =>
    if entry.size ≠ 0 then entries
    else
      match linkSource entries inode device with
      | none => entries
      | some target =>
        entries.set index { entry with kind := .hardlink, linkTarget := some target.path }

/-- The entries, with the links among them made. -/
def assignHardlinks (entries : List ParsedEntry)
    (candidates : List (Nat × (Nat × Nat) × Nat)) : List ParsedEntry :=
  candidates.foldl assignHardlink entries

/-- The format that the magic number tells. -/
def detectFormat (path : PathBuf) (archive : List UInt8) : Except CpioError WireFormat := do
  let magic ← readExact path archive 0 6
  if magic = newcMagic then return .newc
  else if magic = crcMagic then return .crc
  else if magic = odcMagic then return .odc
  else if magic.take 2 = binaryMagicBe then return .binary false
  else if magic.take 2 = binaryMagicLe then return .binary true
  else throw (.invalid path
    "unsupported CPIO magic; supported encodings are newc, crc, odc, and binary")

/-- The entries of an archive. -/
def parse (path : PathBuf) (archive : List UInt8) : Except CpioError (List ParsedEntry) := do
  let format ← detectFormat path archive
  let entries ← parseRecords path archive format 0 []
  return assignHardlinks entries (linkCandidates entries)

/-! ## Payloads -/

def copyBufferSize : Nat := 128 * 1024

/-- The copy loop over what is left of a payload: what is written, how many bytes that
is, and their sum. -/
def copyLoop (unread : List UInt8) (written : List UInt8) (bytes checksum : Nat) :
    List UInt8 × Nat × Nat :=
  if unread = [] then (written, bytes, checksum)
  else
    let chunk := unread.take copyBufferSize
    copyLoop (unread.drop copyBufferSize) (written ++ chunk)
      (min (bytes + chunk.length) (2 ^ 64 - 1))
      ((checksum + (chunk.map UInt8.toNat).sum) % 2 ^ 64)
termination_by unread.length
decreasing_by
  have nonempty := List.length_pos_iff.mpr ‹unread ≠ []›
  rw [List.length_drop, copyBufferSize]
  omega

/-- Copies the payload of an entry: what is written, and what is reported. -/
def copyPayload (path : PathBuf) (archive : List UInt8) (entry : ParsedEntry) :
    List UInt8 × Except CpioError Nat :=
  let (written, bytes, checksum) :=
    copyLoop (slice archive entry.dataOffset (entry.dataOffset + entry.size)) [] 0 0
  if bytes ≠ entry.size then
    (written, .error (.invalid path
      ("CPIO payload is truncated for " ++ String.ofList entry.path)))
  else (written, .ok (if entry.checksum.isSome then checksum else bytes))

end Cpio

end ZManager
