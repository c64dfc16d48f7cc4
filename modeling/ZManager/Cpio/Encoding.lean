import ZManager.Cpio.Reader

/-! # CPIO records as they are written

The reader is compared with an encoder for its four encodings. A record is a
header of fixed size, the name with a terminator, the payload, and zeros up to the
alignment behind the last two.
-/

namespace ZManager

namespace Cpio

/-! ## Lists of fields -/

theorem slice_append {front middle back : List UInt8} {start stop : Nat}
    (before : front.length = start) (width : start + middle.length = stop) :
    slice (front ++ (middle ++ back)) start stop = middle := by
  unfold slice
  rw [List.drop_left' before, List.take_left' (by omega)]

/-- One of several fields of the same width. -/
theorem slice_flatMap {α : Type} {encode : α → List UInt8} {width index : Nat} {fields : List α}
    {front : List UInt8} (same : ∀ field ∈ fields, (encode field).length = width)
    (listed : index < fields.length) (default : α) :
    slice (front ++ fields.flatMap encode) (front.length + index * width)
      (front.length + index * width + width) = encode (fields.getD index default) := by
  induction fields generalizing front index with
  | nil => cases listed
  | cons field rest ih =>
    have first := same field List.mem_cons_self
    rw [List.flatMap_cons]
    cases index with
    | zero =>
      rw [Nat.zero_mul, Nat.add_zero, slice_append rfl (by rw [first])]
      rfl
    | succ index =>
      have later := @ih index (front ++ encode field)
        (fun other member => same other (List.mem_cons_of_mem _ member))
        (Nat.lt_of_succ_lt_succ listed)
      rw [List.length_append, first, List.append_assoc] at later
      rw [List.getD_cons_succ, ← later]
      congr 1
      · rw [Nat.succ_mul]
        omega
      · rw [Nat.succ_mul]
        omega

/-- One of several fields of given widths. -/
theorem slice_flatMap_widths {encode : Nat × Nat → List UInt8} {index : Nat}
    {fields : List (Nat × Nat)} {front : List UInt8}
    (same : ∀ field, (encode field).length = field.1) (listed : index < fields.length) :
    slice (front ++ fields.flatMap encode)
        (front.length + ((fields.take index).map Prod.fst).sum)
        (front.length + ((fields.take index).map Prod.fst).sum + (fields.getD index (0, 0)).1) =
      encode (fields.getD index (0, 0)) := by
  induction fields generalizing front index with
  | nil => cases listed
  | cons field rest ih =>
    rw [List.flatMap_cons]
    cases index with
    | zero => exact slice_append rfl (by rw [same]; rfl)
    | succ index =>
      have later := @ih index (front ++ encode field) (Nat.lt_of_succ_lt_succ listed)
      rw [List.length_append, same, List.append_assoc] at later
      rw [List.getD_cons_succ, ← later, List.take_succ_cons, List.map_cons, List.sum_cons,
        Nat.add_assoc front.length field.1]

/-! ## The encoder -/

/-- One file as it goes into an archive. -/
structure CpioSource where
  name : Text
  mode : Nat
  mtime : Nat
  inode : Nat
  device : Nat × Nat
  uid : Nat
  gid : Nat
  nlink : Nat
  specialDevice : Nat × Nat
  payload : List UInt8

/-- The size of the name field: the name and its terminator. -/
def CpioSource.nameSize (source : CpioSource) : Nat :=
  (utf8Bytes source.name).length + 1

def hexField (number : Nat) : List UInt8 := utf8Bytes (fixedDigits 16 8 number)

def octalField (width number : Nat) : List UInt8 := utf8Bytes (fixedDigits 8 width number)

def shortField (littleEndian : Bool) (number : Nat) : List UInt8 :=
  if littleEndian then [UInt8.ofNat number, UInt8.ofNat (number / 256)]
  else [UInt8.ofNat (number / 256), UInt8.ofNat number]

/-- The sum of the bytes, which an encoding with checksums stores. -/
def byteSum (bytes : List UInt8) : Nat := (bytes.map UInt8.toNat).sum

/-- The fields of an ASCII header in their order. -/
def asciiFields (source : CpioSource) (check : Nat) : List Nat :=
  [source.inode, source.mode, source.uid, source.gid, source.nlink, source.mtime,
    source.payload.length, source.device.1, source.device.2, source.specialDevice.1,
    source.specialDevice.2, source.nameSize, check]

/-- The fields of a binary header in their order. -/
def binaryFields (source : CpioSource) : List Nat :=
  [0x71c7, source.device.1, source.inode, source.mode, source.uid, source.gid, source.nlink,
    source.specialDevice.1, source.mtime / 2 ^ 16, source.mtime % 2 ^ 16, source.nameSize,
    source.payload.length / 2 ^ 16, source.payload.length % 2 ^ 16]

/-- The fields of a character header in their order, with their widths. -/
def octalFields (source : CpioSource) : List (Nat × Nat) :=
  [(6, source.device.1), (6, source.inode), (6, source.mode), (6, source.uid), (6, source.gid),
    (6, source.nlink), (6, source.specialDevice.1), (11, source.mtime), (6, source.nameSize),
    (11, source.payload.length)]

def encodeHeader (source : CpioSource) : WireFormat → List UInt8
  | .newc => newcMagic ++ (asciiFields source 0).flatMap hexField
  | .crc => crcMagic ++ (asciiFields source (byteSum source.payload % 2 ^ 32)).flatMap hexField
  | .odc => odcMagic ++ (octalFields source).flatMap fun field => octalField field.1 field.2
  | .binary littleEndian => (binaryFields source).flatMap (shortField littleEndian)

def WireFormat.headerSize : WireFormat → Nat
  | .newc | .crc => 110
  | .odc => 76
  | .binary _ => 26

def zeros (count : Nat) : List UInt8 := List.replicate count 0

/-- A record as a writer of the format puts it. -/
def encodeRecord (format : WireFormat) (source : CpioSource) : List UInt8 :=
  encodeHeader source format ++ ((utf8Bytes source.name ++ [0]) ++
    (zeros (padding (WireFormat.headerSize format + source.nameSize)
      (WireFormat.alignment format)) ++
    (source.payload ++
      zeros (padding source.payload.length (WireFormat.alignment format)))))

/-- The record at the end of an archive. -/
def trailer : CpioSource :=
  ⟨trailerName, 0, 0, 0, (0, 0), 0, 0, 1, (0, 0), []⟩

/-- The records of an archive, with the trailer. -/
def encodeArchive (format : WireFormat) (sources : List CpioSource) : List UInt8 :=
  (sources ++ [trailer]).flatMap (encodeRecord format)

/-- The values fit in the fields of the encoding. -/
def FitsFields (format : WireFormat) (source : CpioSource) : Prop :=
  match format with
  | .newc | .crc => ∀ field ∈ asciiFields source 0, field < 16 ^ 8
  | .odc => ∀ field ∈ octalFields source, field.2 < 8 ^ field.1
  | .binary _ => source.mtime < 2 ^ 32 ∧ source.payload.length < 2 ^ 32 ∧
      ∀ field ∈ [source.device.1, source.inode, source.mode, source.uid, source.gid, source.nlink,
        source.specialDevice.1, source.nameSize], field < 2 ^ 16

instance (format : WireFormat) (source : CpioSource) : Decidable (FitsFields format source) :=
  match format with
  | .newc | .crc => inferInstanceAs (Decidable (∀ field ∈ asciiFields source 0, field < 16 ^ 8))
  | .odc => inferInstanceAs (Decidable (∀ field ∈ octalFields source, field.2 < 8 ^ field.1))
  | .binary _ => inferInstanceAs (Decidable (_ ∧ _ ∧ _))

/-! ## Headers -/

theorem length_hexField (number : Nat) : (hexField number).length = 8 :=
  length_utf8Bytes_fixedDigits (by omega) (by omega)

theorem length_octalField (width number : Nat) : (octalField width number).length = width :=
  length_utf8Bytes_fixedDigits (by omega) (by omega)

theorem length_shortField (littleEndian : Bool) (number : Nat) :
    (shortField littleEndian number).length = 2 := by
  unfold shortField
  split_ifs
  · rfl
  · rfl

theorem length_encodeHeader (format : WireFormat) (source : CpioSource) :
    (encodeHeader source format).length = WireFormat.headerSize format := by
  cases format with
  | newc =>
    simp [encodeHeader, asciiFields, length_hexField, newcMagic, WireFormat.headerSize]
  | crc =>
    simp [encodeHeader, asciiFields, length_hexField, crcMagic, WireFormat.headerSize]
  | odc =>
    simp [encodeHeader, octalFields, length_octalField, odcMagic, WireFormat.headerSize]
  | binary littleEndian =>
    simp [encodeHeader, binaryFields, length_shortField, WireFormat.headerSize]

theorem parseHex_hexField {path : PathBuf} {number : Nat} (fits : number < 16 ^ 8) :
    parseHex path (hexField number) = .ok number := by
  unfold parseHex hexField
  rw [fromUtf8_utf8Bytes, Option.getD_some,
    u64FromStrRadix_fixedDigits (by omega) (by omega) (by omega) fits (by omega)]

theorem trim_fixedDigits (width number : Nat) :
    Text.trim (fixedDigits 8 width number) = fixedDigits 8 width number := by
  have plain : ∀ text : Text, (∀ char ∈ text, Text.isWhitespace char = false) →
      text.dropWhile Text.isWhitespace = text := by
    intro text visible
    cases text with
    | nil => rfl
    | cons char rest =>
      rw [List.dropWhile_cons_of_neg]
      rw [visible char List.mem_cons_self]
      exact Bool.false_ne_true
  have visible : ∀ char ∈ fixedDigits 8 width number, Text.isWhitespace char = false := by
    intro char member
    obtain ⟨digit, below, rfl⟩ := mem_fixedDigits (by omega) member
    have all : ∀ digit < 8, Text.isWhitespace (Nat.digitChar digit) = false := by decide
    exact all digit below
  unfold Text.trim Text.trimStart
  rw [plain _ visible, plain, List.reverse_reverse]
  intro char member
  exact visible char (List.mem_reverse.mp member)

theorem parseOctal_octalField {path : PathBuf} {width number : Nat} (some_digit : 0 < width)
    (fits : number < 8 ^ width) (narrow : width ≤ 11) :
    parseOctal path (octalField width number) = .ok number := by
  have length := @length_fixedDigits 8 width number
  have small : number < 2 ^ 64 := by
    have le : 8 ^ width ≤ 8 ^ 11 := Nat.pow_le_pow_right (by omega) narrow
    omega
  have nonempty : fixedDigits 8 width number ≠ [] := by
    intro empty
    rw [empty, List.length_nil] at length
    omega
  unfold parseOctal octalField
  rw [fromUtf8_utf8Bytes, Option.getD_some, trim_fixedDigits]
  simp only [nonempty, ↓reduceIte]
  rw [u64FromStrRadix_fixedDigits (by omega) (by omega) some_digit fits small]

/-- The fields of an ASCII header are read back. -/
theorem newcFields_encoded {path : PathBuf} {magic : List UInt8} {fields : List Nat}
    (width : magic.length = 6) (count : fields.length = 13)
    (fits : ∀ field ∈ fields, field < 16 ^ 8) :
    newcFields path (magic ++ fields.flatMap hexField) =
      .ok ((List.range 13).map (fields.getD · 0)) := by
  unfold newcFields
  apply Except.mapM_eq_ok
  intro index member
  rw [List.mem_range] at member
  have listed : index < fields.length := by omega
  have read := @slice_flatMap _ hexField 8 index fields magic
    (fun field _ => length_hexField field) listed 0
  rw [width] at read
  rw [show 14 + index * 8 = 6 + index * 8 + 8 by omega, read, parseHex_hexField]
  rw [List.getD_eq_getElem _ _ listed]
  exact fits _ (List.getElem_mem listed)

theorem endian_shortField {littleEndian : Bool} {number : Nat} (fits : number < 2 ^ 16)
    (rest : List UInt8) :
    endian littleEndian (shortField littleEndian number ++ rest) 0 = number := by
  cases littleEndian with
  | true =>
    simp [endian, shortField]
    omega
  | false =>
    simp [endian, shortField]
    omega

theorem endian_eq_slice (littleEndian : Bool) (bytes : List UInt8) (offset : Nat) :
    endian littleEndian bytes offset =
      endian littleEndian (slice bytes offset (offset + 2)) 0 := by
  have first : (slice bytes offset (offset + 2)).getD 0 0 = bytes.getD offset 0 := by
    simp [slice, List.getD]
  have second : (slice bytes offset (offset + 2)).getD 1 0 = bytes.getD (offset + 1) 0 := by
    simp [slice, List.getD]
  unfold endian
  rw [Nat.zero_add, first, second]

/-! ## Records -/

section

variable {path : PathBuf} {front back : List UInt8} {source : CpioSource}

theorem readExact_append {middle : List UInt8} {count : Nat} (width : middle.length = count) :
    readExact path (front ++ (middle ++ back)) front.length count = .ok middle := by
  unfold readExact
  rw [if_pos, slice_append rfl (by rw [width])]
  right
  rw [List.length_append, List.length_append]
  omega

theorem readHeader_append {middle : List UInt8} {count : Nat} (width : middle.length = count) :
    readHeader path (front ++ (middle ++ back)) front.length count = .ok (some middle) := by
  unfold readHeader
  rw [readExact_append width]

/-- A name that is short enough is read, and its padding is passed. -/
theorem readName_append {bytes : List UInt8} {size alignment headerSize : Nat}
    (width : bytes.length + 1 = size) (short : size ≤ maxNameBytes) :
    readName path (front ++ ((bytes ++ [0]) ++ back)) front.length size alignment headerSize =
      .ok (fromUtf8Lossy bytes,
        front.length + size + padding (headerSize + size) alignment) := by
  have read := @readExact_append path front back (bytes ++ [0]) size
    (by rw [List.length_append, List.length_singleton, width])
  unfold readName
  rw [if_neg (by omega), read]
  simp only [bind, Except.bind, List.getLast?_append, List.getLast?_singleton, Option.some_or,
    ne_eq, not_true_eq_false, ↓reduceIte, List.dropLast_concat]
  rfl

theorem readName_long {archive : List UInt8} {position size alignment headerSize : Nat}
    (long : maxNameBytes < size) :
    readName path archive position size alignment headerSize =
      .error (.invalid path "CPIO pathname length is outside the supported bound") := by
  unfold readName
  rw [if_pos (.inr long)]
  rfl

/-- Where the payload of a record at a position starts. -/
def payloadStart (format : WireFormat) (position : Nat) (source : CpioSource) : Nat :=
  position + WireFormat.headerSize format + source.nameSize +
    padding (WireFormat.headerSize format + source.nameSize) (WireFormat.alignment format)

/-- The checksum that a record carries. -/
def checksumOf (source : CpioSource) : WireFormat → Option Nat
  | .crc => some (byteSum source.payload % 2 ^ 32)
  | .newc | .odc | .binary _ => none

/-- What the reader takes for the device of a record. In the ASCII encodings these
are the fields of its owner. -/
def readDevice (source : CpioSource) : WireFormat → Nat × Nat
  | .newc | .crc => (source.uid, source.gid)
  | .odc | .binary _ => (source.device.1, 0)

/-- What the reader makes of a source at a position. -/
def recordOf (format : WireFormat) (position : Nat) (source : CpioSource) : CpioRecord where
  name := source.name
  mode := source.mode
  mtime := source.mtime
  size := source.payload.length
  dataOffset := payloadStart format position source
  checksum := checksumOf source format
  inode := source.inode
  device := readDevice source format
  nlink := source.nlink

/-- A record of the ASCII encodings whose header is read. -/
theorem readNewcRecord_header {isCrc : Bool} {header name : List UInt8} {fields : List Nat}
    (width : header.length = 110)
    (magic : slice header 0 6 = if isCrc then crcMagic else newcMagic)
    (numbers : newcFields path header = .ok fields) (sized : fields.getD 11 0 = name.length + 1)
    (mode : fields.getD 1 0 < 2 ^ 32) (check : fields.getD 12 0 < 2 ^ 32) :
    readNewcRecord path (front ++ (header ++ ((name ++ [0]) ++ back))) front.length isCrc =
      if maxNameBytes < name.length + 1 then
        .error (.invalid path "CPIO pathname length is outside the supported bound")
      else .ok (some {
        name := fromUtf8Lossy name
        mode := fields.getD 1 0
        mtime := fields.getD 5 0
        size := fields.getD 6 0
        dataOffset := front.length + 110 + (name.length + 1) + padding (110 + (name.length + 1)) 4
        checksum := if isCrc then some (fields.getD 12 0) else none
        inode := fields.getD 0 0
        device := (fields.getD 2 0, fields.getD 3 0)
        nlink := fields.getD 4 0 }) := by
  have place : (front ++ header).length = front.length + 110 := by
    rw [List.length_append, width]
  unfold readNewcRecord
  rw [readHeader_append width]
  generalize (if isCrc then crcMagic else newcMagic) = bytes at magic ⊢
  simp only [bind, Except.bind, magic, ne_eq, not_true_eq_false, ↓reduceIte, numbers, sized]
  by_cases long : maxNameBytes < name.length + 1
  · rw [if_pos long, readName_long long]
  · rw [if_neg long]
    have named := @readName_append path (front ++ header) back name (name.length + 1) 4 110 rfl
      (by omega)
    rw [place, List.append_assoc] at named
    have native : nativeMode path (fields.getD 1 0) = .ok (fields.getD 1 0) := by
      unfold nativeMode
      exact if_pos mode
    rw [named]
    simp only [native]
    rw [Nat.min_eq_left (by omega)]
    rfl

/-- A record of the ASCII encodings. -/
theorem readNewcRecord_encoded {isCrc : Bool} {check : Nat} (checked : check < 2 ^ 32)
    (fits : ∀ field ∈ asciiFields source 0, field < 16 ^ 8) :
    readNewcRecord path
      (front ++ (((if isCrc then crcMagic else newcMagic) ++
        (asciiFields source check).flatMap hexField) ++
          ((utf8Bytes source.name ++ [0]) ++ back))) front.length isCrc =
      if maxNameBytes < source.nameSize then
        .error (.invalid path "CPIO pathname length is outside the supported bound")
      else .ok (some {
        name := source.name
        mode := source.mode
        mtime := source.mtime
        size := source.payload.length
        dataOffset := front.length + 110 + source.nameSize + padding (110 + source.nameSize) 4
        checksum := if isCrc then some check else none
        inode := source.inode
        device := (source.uid, source.gid)
        nlink := source.nlink }) := by
  have six : (if isCrc then crcMagic else newcMagic).length = 6 := by
    cases isCrc with
    | true => rfl
    | false => rfl
  have small : ∀ field ∈ asciiFields source check, field < 16 ^ 8 := by
    intro field member
    have split : asciiFields source check = (asciiFields source 0).dropLast ++ [check] := rfl
    rw [split] at member
    rcases List.mem_append.mp member with inside | last
    · exact fits field (List.mem_of_mem_dropLast inside)
    · rw [List.mem_singleton.mp last]
      omega
  have width : ((if isCrc then crcMagic else newcMagic) ++
      (asciiFields source check).flatMap hexField).length = 110 := by
    simp [asciiFields, length_hexField, six]
  have start : slice ((if isCrc then crcMagic else newcMagic) ++
      (asciiFields source check).flatMap hexField) 0 6 =
        if isCrc then crcMagic else newcMagic := by
    have read := @slice_append [] (if isCrc then crcMagic else newcMagic)
      ((asciiFields source check).flatMap hexField) 0 6 rfl (by rw [six])
    rwa [List.nil_append] at read
  have numbers := @newcFields_encoded path _ (asciiFields source check) six rfl small
  have mode : source.mode < 2 ^ 32 := by
    have small := fits source.mode (by simp [asciiFields])
    omega
  have read := @readNewcRecord_header path front back isCrc _ (utf8Bytes source.name) _ width start
    numbers rfl mode checked
  rw [fromUtf8Lossy_utf8Bytes] at read
  exact read

/-- A record of the character encoding. -/
theorem readOdcRecord_encoded (fits : ∀ field ∈ octalFields source, field.2 < 8 ^ field.1) :
    readOdcRecord path
      (front ++ ((odcMagic ++ (octalFields source).flatMap fun field =>
        octalField field.1 field.2) ++ ((utf8Bytes source.name ++ [0]) ++ back))) front.length =
      if maxNameBytes < source.nameSize then
        .error (.invalid path "CPIO pathname length is outside the supported bound")
      else .ok (some {
        name := source.name
        mode := source.mode
        mtime := source.mtime
        size := source.payload.length
        dataOffset := front.length + 76 + source.nameSize + padding (76 + source.nameSize) 1
        checksum := none
        inode := source.inode
        device := (source.device.1, 0)
        nlink := source.nlink }) := by
  have width : (odcMagic ++ (octalFields source).flatMap fun field =>
      octalField field.1 field.2).length = 76 := length_encodeHeader .odc source
  have place : (front ++ (odcMagic ++ (octalFields source).flatMap fun field =>
      octalField field.1 field.2)).length = front.length + 76 := by
    rw [List.length_append, width]
  generalize made : (odcMagic ++ (octalFields source).flatMap fun field =>
    octalField field.1 field.2) = header at width place ⊢
  have field : ∀ index, index < 10 → parseOctal path (slice header
      (6 + (((octalFields source).take index).map Prod.fst).sum)
      (6 + (((octalFields source).take index).map Prod.fst).sum +
        ((octalFields source).getD index (0, 0)).1)) =
      .ok ((octalFields source).getD index (0, 0)).2 := by
    intro index listed
    have read := @slice_flatMap_widths (fun field => octalField field.1 field.2) index
      (octalFields source) odcMagic (fun field => length_octalField field.1 field.2) listed
    rw [made] at read
    have member : (octalFields source).getD index (0, 0) ∈ octalFields source := by
      rw [List.getD_eq_getElem _ _ listed]
      exact List.getElem_mem listed
    have widths : ∀ field ∈ octalFields source, 0 < field.1 ∧ field.1 ≤ 11 := by
      simp [octalFields]
    obtain ⟨some_digit, narrow⟩ := widths _ member
    exact (congrArg (parseOctal path) read).trans
      (parseOctal_octalField some_digit (fits _ member) narrow)
  have dev : parseOctal path (slice header 6 12) = .ok source.device.1 := by
    simpa [octalFields] using field 0 (by omega)
  have inode : parseOctal path (slice header 12 18) = .ok source.inode := by
    simpa [octalFields] using field 1 (by omega)
  have mode : parseOctal path (slice header 18 24) = .ok source.mode := by
    simpa [octalFields] using field 2 (by omega)
  have nlink : parseOctal path (slice header 36 42) = .ok source.nlink := by
    simpa [octalFields] using field 5 (by omega)
  have mtime : parseOctal path (slice header 48 59) = .ok source.mtime := by
    simpa [octalFields] using field 7 (by omega)
  have size : parseOctal path (slice header 59 65) = .ok source.nameSize := by
    simpa [octalFields] using field 8 (by omega)
  have payload : parseOctal path (slice header 65 76) = .ok source.payload.length := by
    simpa [octalFields] using field 9 (by omega)
  have start : slice header 0 6 = odcMagic := by
    have read := @slice_append [] odcMagic ((octalFields source).flatMap fun field =>
      octalField field.1 field.2) 0 6 rfl rfl
    rwa [List.nil_append, made] at read
  have native : nativeMode path source.mode = .ok source.mode := by
    have small : source.mode < 8 ^ 6 := fits (6, source.mode) (by simp [octalFields])
    unfold nativeMode
    exact if_pos (by omega)
  unfold readOdcRecord
  rw [readHeader_append width]
  simp only [bind, Except.bind, start, ne_eq, not_true_eq_false, ↓reduceIte, dev, inode, mode,
    nlink, mtime, size, payload]
  by_cases long : maxNameBytes < source.nameSize
  · rw [if_pos long, readName_long long]
  · rw [if_neg long]
    have named := @readName_append path (front ++ header) back (utf8Bytes source.name)
      source.nameSize 1 76 rfl (by omega)
    rw [place, List.append_assoc, fromUtf8Lossy_utf8Bytes] at named
    rw [named]
    simp only [native]
    rfl

/-- A record of the binary encodings. -/
theorem readBinaryRecord_encoded {littleEndian : Bool} (mtimeFits : source.mtime < 2 ^ 32)
    (sizeFits : source.payload.length < 2 ^ 32)
    (fits : ∀ field ∈ [source.device.1, source.inode, source.mode, source.uid, source.gid,
      source.nlink, source.specialDevice.1, source.nameSize], field < 2 ^ 16) :
    readBinaryRecord path
      (front ++ ((binaryFields source).flatMap (shortField littleEndian) ++
        ((utf8Bytes source.name ++ [0]) ++ back))) front.length littleEndian =
      .ok (some {
        name := source.name
        mode := source.mode
        mtime := source.mtime
        size := source.payload.length
        dataOffset := front.length + 26 + source.nameSize + padding (26 + source.nameSize) 2
        checksum := none
        inode := source.inode
        device := (source.device.1, 0)
        nlink := source.nlink }) := by
  have width : ((binaryFields source).flatMap (shortField littleEndian)).length = 26 :=
    length_encodeHeader (.binary littleEndian) source
  have place : (front ++ (binaryFields source).flatMap (shortField littleEndian)).length =
      front.length + 26 := by
    rw [List.length_append, width]
  have small : ∀ field ∈ binaryFields source, field < 2 ^ 16 := by
    simp only [binaryFields, List.forall_mem_cons, List.not_mem_nil, false_imp_iff,
      implies_true, and_true] at fits ⊢
    omega
  have field : ∀ index, index < 13 →
      endian littleEndian ((binaryFields source).flatMap (shortField littleEndian)) (index * 2) =
        (binaryFields source).getD index 0 := by
    intro index listed
    have read := @slice_flatMap _ (shortField littleEndian) 2 index (binaryFields source) []
      (fun field _ => length_shortField littleEndian field) listed 0
    rw [List.nil_append, List.length_nil, Nat.zero_add] at read
    have member : (binaryFields source).getD index 0 ∈ binaryFields source := by
      rw [List.getD_eq_getElem _ _ listed]
      exact List.getElem_mem listed
    have value := @endian_shortField littleEndian _ (small _ member) []
    rw [List.append_nil, ← read] at value
    rw [endian_eq_slice]
    exact value
  have start : endian littleEndian ((binaryFields source).flatMap (shortField littleEndian)) 0 =
      0x71c7 := field 0 (by omega)
  have nameField : endian littleEndian ((binaryFields source).flatMap (shortField littleEndian))
      (10 * 2) = source.nameSize := field 10 (by omega)
  have short : source.nameSize < 2 ^ 16 := small _ (by simp [binaryFields])
  have named := @readName_append path (front ++ (binaryFields source).flatMap
    (shortField littleEndian)) back (utf8Bytes source.name) source.nameSize 2 26 rfl
    (by rw [maxNameBytes]; omega)
  rw [place, List.append_assoc, fromUtf8Lossy_utf8Bytes] at named
  unfold readBinaryRecord
  rw [readHeader_append width]
  simp only [bind, Except.bind]
  rw [if_neg (not_not.mpr start), nameField]
  simp only [named]
  rw [field 1 (by omega), field 2 (by omega), field 3 (by omega), field 6 (by omega),
    field 8 (by omega), field 9 (by omega), field 11 (by omega), field 12 (by omega)]
  have mtime := Nat.div_add_mod' source.mtime (2 ^ 16)
  have size := Nat.div_add_mod' source.payload.length (2 ^ 16)
  simp only [binaryFields, List.getD_cons_succ, List.getD_cons_zero, mtime, size]
  rfl

/-- **A record is read back.** Only a name beyond the supported bound is refused. -/
theorem readRecord_encoded {format : WireFormat} (fits : FitsFields format source) :
    readRecord path (front ++ (encodeRecord format source ++ back)) front.length format =
      if maxNameBytes < source.nameSize then
        .error (.invalid path "CPIO pathname length is outside the supported bound")
      else .ok (some (recordOf format front.length source)) := by
  unfold encodeRecord
  rw [List.append_assoc, List.append_assoc (utf8Bytes source.name ++ [0])]
  cases format with
  | newc => exact @readNewcRecord_encoded path front _ source false 0 (by omega) fits
  | crc =>
    exact @readNewcRecord_encoded path front _ source true (byteSum source.payload % 2 ^ 32)
      (Nat.mod_lt _ (by omega)) fits
  | odc => exact readOdcRecord_encoded fits
  | binary littleEndian =>
    obtain ⟨mtimeFits, sizeFits, narrow⟩ := fits
    have short : source.nameSize < 2 ^ 16 := narrow _ (by simp)
    rw [if_neg (by rw [maxNameBytes]; omega)]
    exact readBinaryRecord_encoded mtimeFits sizeFits narrow

/-! ## Entries -/

/-- The entry that the reader makes of a source at a position. -/
def entryOf (format : WireFormat) (index position : Nat) (source : CpioSource) : ParsedEntry where
  index := index
  path := source.name
  kind := entryKind source.mode
  size := source.payload.length
  mode := source.mode
  modified := some (Nat.toDigits 10 source.mtime)
  linkTarget :=
    if entryKind source.mode = .symlink then some (fromUtf8Lossy source.payload) else none
  dataOffset := payloadStart format position source
  checksum := checksumOf source format
  inode := source.inode
  device := readDevice source format
  nlink := source.nlink

theorem length_encodeRecord (format : WireFormat) (source : CpioSource) :
    (encodeRecord format source).length =
      WireFormat.headerSize format + source.nameSize +
        padding (WireFormat.headerSize format + source.nameSize) (WireFormat.alignment format) +
          source.payload.length +
            padding source.payload.length (WireFormat.alignment format) := by
  simp only [encodeRecord, zeros, List.length_append, List.length_replicate, List.length_singleton,
    length_encodeHeader, CpioSource.nameSize]
  omega

/-- The payload of a record is where its entry says. -/
theorem slice_payload (format : WireFormat) :
    slice (front ++ (encodeRecord format source ++ back))
        (payloadStart format front.length source)
        (payloadStart format front.length source + source.payload.length) =
      source.payload := by
  have shape : front ++ (encodeRecord format source ++ back) =
      (front ++ (encodeHeader source format ++ ((utf8Bytes source.name ++ [0]) ++
        zeros (padding (WireFormat.headerSize format + source.nameSize)
          (WireFormat.alignment format))))) ++ (source.payload ++
            (zeros (padding source.payload.length (WireFormat.alignment format)) ++ back)) := by
    simp only [encodeRecord, List.append_assoc]
  rw [shape]
  apply slice_append
  · simp only [payloadStart, zeros, List.length_append, List.length_replicate, List.length_singleton,
      length_encodeHeader, CpioSource.nameSize]
    omega
  · rfl

theorem readEntry_encoded {format : WireFormat} {index : Nat}
    (isFile : (front ++ (encodeRecord format source ++ back)).length < 2 ^ 64) :
    readEntry path (front ++ (encodeRecord format source ++ back)) format index
        (recordOf format front.length source) =
      .ok (entryOf format index front.length source,
        (front ++ encodeRecord format source).length) := by
  have size := length_encodeRecord format source
  have inside : payloadStart format front.length source + source.payload.length ≤
      (front ++ encodeRecord format source).length := by
    rw [List.length_append, size, payloadStart]
    omega
  rw [← List.append_assoc, List.length_append] at isFile
  have content : readExact path (front ++ (encodeRecord format source ++ back))
      (payloadStart format front.length source) source.payload.length = .ok source.payload := by
    unfold readExact
    rw [slice_payload, if_pos]
    right
    rw [← List.append_assoc, List.length_append]
    omega
  have target : linkTargetOf path (front ++ (encodeRecord format source ++ back))
      (recordOf format front.length source) =
        .ok (entryOf format index front.length source).linkTarget := by
    simp only [linkTargetOf, recordOf, readLinkTarget, content, entryOf]
    split_ifs
    · rfl
    · rfl
  have next : skipPayload path (payloadStart format front.length source) source.payload.length
      format = .ok (front ++ encodeRecord format source).length := by
    unfold skipPayload
    rw [if_neg (by omega), List.length_append, size, payloadStart]
    congr 1
    omega
  unfold readEntry
  rw [target]
  simp only [bind, Except.bind, recordOf, next]
  rfl

end

end Cpio

end ZManager
