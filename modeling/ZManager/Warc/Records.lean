import Mathlib.Data.List.DropRight
import ZManager.Foundation.Step
import ZManager.Foundation.Utf8
import ZManager.Safety.ArchivePath

/-! # WARC records

The reader goes through the file line by line: a version line, header lines up to an empty one,
then a body that it seeks over and a separator that it checks. The end of the file and an empty
line are the same to it, an empty line that was read.
-/

namespace ZManager

/-- Failures of the WARC reader. -/
inductive WarcError where
  /-- `Io` with the kind `UnexpectedEof`. -/
  | unexpectedEof (path : PathBuf)
  | invalid (path : PathBuf) (message : String)
  deriving DecidableEq

/-- One normalized WARC record entry. -/
structure WarcEntry where
  index : Nat
  path : Text
  size : Nat
  recordType : Text

/-- An entry with the place of its body. -/
structure ParsedWarcRecord where
  entry : WarcEntry
  bodyOffset : Nat

namespace Warc

variable {path : PathBuf} {record : ParsedWarcRecord}

def recordsDirectory : Text := "records".toList

def maxWarcRecordBytes : Nat := 512 * 1024 * 1024

/-! ## Paths of records -/

/-- What follows the first `://`. -/
def afterScheme : Text → Option Text
  | [] => none
  | char :: rest =>
    if "://".toList.isPrefixOf (char :: rest) then some (rest.drop 2) else afterScheme rest

def targetPath (target : Text) : Option Text :=
  let target := ((Text.trim target).dropWhile (· = '<')).rdropWhile (· = '>')
  let raw :=
    if "file://".toList.isPrefixOf target then (target.drop 7).dropWhile (· = '/')
    else (afterScheme target).getD target
  (normalizeArchivePath (raw.dropWhile (· = '/'))).toOption

def recordPath (target : Option Text) (index : Nat) (recordType : Text) (used : List Text) :
    Except WarcError Text :=
  let candidate := (target.bind targetPath).getD
    (recordsDirectory ++ '/' :: Text.padded 8 index ++ '-' :: recordType)
  let path := if candidate ∈ used then candidate ++ '~' :: Nat.toDigits 10 index else candidate
  if path ∈ used then
    .error (.invalid (PathBuf.ofText "<WARC>".toList)
      s!"duplicate materialized path {String.ofList path}")
  else .ok path

/-! ## Lines -/

/-- A reader within the file: its position, and the bytes from there on. -/
structure Reader where
  position : Nat
  rest : List UInt8

variable {reader after : Reader}

/-- The bytes are passed. -/
def Reader.skip (reader : Reader) (count : Nat) : Reader :=
  ⟨reader.position + count, reader.rest.drop count⟩

/-- The bytes up to the next line feed, with it. -/
def rawLine (bytes : List UInt8) : List UInt8 :=
  bytes.take ((bytes.takeWhile (· ≠ 0x0a)).length + 1)

/-- Line feeds and carriage returns at the end are dropped. -/
def trimLine (line : List UInt8) : List UInt8 :=
  line.rdropWhile fun byte => byte = 0x0a || byte = 0x0d

/-- The next line, without its line end. -/
def readLine (reader : Reader) : List UInt8 × Reader :=
  (trimLine (rawLine reader.rest), reader.skip (rawLine reader.rest).length)

def isAsciiWhitespace (byte : UInt8) : Bool :=
  byte = 0x20 || byte = 0x09 || byte = 0x0a || byte = 0x0c || byte = 0x0d

theorem rawLine_eq_nil {bytes : List UInt8} : rawLine bytes = [] ↔ bytes = [] := by
  unfold rawLine
  simp

/-- A line that was read made the reader shorter. -/
theorem length_skip_rawLine_lt (read : (readLine reader).1 ≠ []) :
    (reader.skip (rawLine reader.rest).length).rest.length < reader.rest.length := by
  have nonempty : rawLine reader.rest ≠ [] := by
    intro empty
    apply read
    unfold readLine
    rw [empty]
    rfl
  have positive := List.length_pos_iff.mpr nonempty
  have here := List.length_pos_iff.mpr (rawLine_eq_nil.not.mp nonempty)
  unfold Reader.skip
  rw [List.length_drop]
  omega

/-- The next line with something on it; lines of whitespace are passed. -/
def readNonemptyLine (reader : Reader) : Option (List UInt8 × Reader) :=
  if (readLine reader).1 = [] then none
  else if (readLine reader).1.all isAsciiWhitespace then readNonemptyLine (readLine reader).2
  else some (readLine reader)
termination_by reader.rest.length
decreasing_by exact length_skip_rawLine_lt ‹_›

/-! ## Headers -/

/-- The header fields that are looked at. -/
structure Fields where
  recordType : Option Text := none
  target : Option Text := none
  contentLength : Option Nat := none
  deriving DecidableEq

/-- `<[u8]>::trim_ascii`. -/
def trimAscii (bytes : List UInt8) : List UInt8 :=
  (bytes.dropWhile isAsciiWhitespace).rdropWhile isAsciiWhitespace

/-- A field of a header, or the message of its failure. -/
def Fields.set (fields : Fields) (name value : Text) : Except String Fields :=
  if name = "warc-type".toList then .ok { fields with recordType := some value }
  else if name = "warc-target-uri".toList then .ok { fields with target := some value }
  else if name = "content-length".toList then
    match u64FromStrRadix 10 value with
    | none => .error "WARC content length is invalid"
    | some length => .ok { fields with contentLength := some length }
  else .ok fields

/-- One header line. -/
def readHeader (fields : Fields) (line : List UInt8) : Except String Fields :=
  match line.findIdx? (· = 0x3a) with
  | none => .error "WARC header is missing a colon"
  | some separator =>
    match fromUtf8 (trimAscii (line.drop (separator + 1))) with
    | none => .error "WARC header is not UTF-8"
    | some value =>
      -- `to_ascii_lowercase`
      fields.set ((fromUtf8Lossy (line.take separator)).map Char.toLower) value

/-- The header lines up to an empty one. -/
def readHeaders (path : PathBuf) (fields : Fields) (reader : Reader) :
    Except WarcError (Fields × Reader) :=
  if (readLine reader).1 = [] then .ok (fields, (readLine reader).2)
  else
    match readHeader fields (readLine reader).1 with
    | .error message => .error (.invalid path message)
    | .ok fields => readHeaders path fields (readLine reader).2
termination_by reader.rest.length
decreasing_by exact length_skip_rawLine_lt ‹_›

/-! ## Records -/

def recordSeparator : List UInt8 := [0x0d, 0x0a, 0x0d, 0x0a]

/-- One round of the loop, behind the version line. -/
def readRecord (path : PathBuf) (index : Nat) (used : List Text) (reader : Reader) :
    Except WarcError (ParsedWarcRecord × Reader) := do
  let (fields, reader) ← readHeaders path {} reader
  let some recordType := fields.recordType
    | .error (.invalid path "WARC-Type header is missing")
  let some size := fields.contentLength
    | .error (.invalid path "Content-Length header is missing")
  if maxWarcRecordBytes < size then
    .error (.invalid path s!"WARC record exceeds {maxWarcRecordBytes} byte limit")
  else
    let bodyOffset := reader.position
    -- `checked_add` on `u64`
    if 2 ^ 64 ≤ bodyOffset + size then .error (.invalid path "WARC record length overflows")
    else
      -- A seek beyond the end is no failure; what is read there is.
      let reader := reader.skip size
      if reader.rest.length < 4 then .error (.unexpectedEof path)
      else if reader.rest.take 4 ≠ recordSeparator then
        .error (.invalid path "WARC record is missing its CRLF separator")
      else do
        let pathName ← recordPath fields.target index recordType used
        .ok (⟨⟨index, pathName, size, recordType⟩, bodyOffset⟩, reader.skip 4)

/-! ## What is passed -/

/-- The reader has passed some bytes. -/
structure Consumes (reader : Reader) (bytes : List UInt8) (after : Reader) : Prop where
  rest : reader.rest = bytes ++ after.rest
  position : after.position = reader.position + bytes.length

theorem Consumes.refl (reader : Reader) : Consumes reader [] reader := ⟨rfl, rfl⟩

theorem Consumes.trans {between : Reader} {front back : List UInt8}
    (first : Consumes reader front between) (second : Consumes between back after) :
    Consumes reader (front ++ back) after where
  rest := by rw [first.rest, second.rest, List.append_assoc]
  position := by rw [second.position, first.position, List.length_append, Nat.add_assoc]

theorem Consumes.length_le {bytes : List UInt8} (passed : Consumes reader bytes after) :
    after.rest.length ≤ reader.rest.length := by
  rw [passed.rest, List.length_append]
  exact Nat.le_add_left _ _

theorem consumes_skip {reader : Reader} {count : Nat} (fits : count ≤ reader.rest.length) :
    Consumes reader (reader.rest.take count) (reader.skip count) where
  rest := (List.take_append_drop _ _).symm
  position := by
    rw [List.length_take_of_le fits]
    rfl

theorem readLine_consumes (reader : Reader) :
    Consumes reader (rawLine reader.rest) (readLine reader).2 where
  rest := (List.prefix_iff_eq_append.mp (List.take_prefix _ _)).symm
  position := rfl

theorem readNonemptyLine_length_lt {line : List UInt8}
    (found : readNonemptyLine reader = some (line, after)) :
    after.rest.length < reader.rest.length := by
  fun_induction readNonemptyLine reader with
  | case1 reader empty => cases found
  | case2 reader nonempty white ih => exact (ih found).trans (length_skip_rawLine_lt nonempty)
  | case3 reader nonempty written =>
    cases found
    exact length_skip_rawLine_lt nonempty

theorem readHeaders_length_le {fields result : Fields}
    (done : readHeaders path fields reader = .ok (result, after)) :
    after.rest.length ≤ reader.rest.length := by
  fun_induction readHeaders path fields reader with
  | case1 fields reader empty =>
    cases done
    exact (readLine_consumes reader).length_le
  | case2 fields reader nonempty message failed => cases done
  | case3 fields reader nonempty changed read ih =>
    exact (ih done).trans (readLine_consumes reader).length_le

/-- What a record that was read is made of. -/
theorem readRecord_eq_ok {index : Nat} {used : List Text} {next : Reader}
    (done : readRecord path index used reader = .ok (record, next)) :
    ∃ fields after, readHeaders path {} reader = .ok (fields, after) ∧
      fields.recordType = some record.entry.recordType ∧
      fields.contentLength = some record.entry.size ∧
      record.bodyOffset = after.position ∧
      4 ≤ (after.skip record.entry.size).rest.length ∧
      (after.skip record.entry.size).rest.take 4 = recordSeparator ∧
      next = (after.skip record.entry.size).skip 4 := by
  obtain ⟨⟨fields, after⟩, headers, done⟩ := Except.bind_eq_ok_iff.mp done
  refine ⟨fields, after, headers, ?_⟩
  cases kind : fields.recordType with
  | none =>
    simp only [kind] at done
    cases done
  | some recordType =>
    cases length : fields.contentLength with
    | none =>
      simp only [kind, length] at done
      cases done
    | some size =>
      simp only [kind, length] at done
      split_ifs at done with large wraps short wrong
      obtain ⟨name, -, same⟩ := Except.bind_eq_ok_iff.mp done
      cases same
      exact ⟨rfl, rfl, rfl, Nat.le_of_not_lt short, not_not.mp wrong, rfl⟩

theorem readRecord_length_le {index : Nat} {used : List Text} {next : Reader}
    (done : readRecord path index used reader = .ok (record, next)) :
    next.rest.length ≤ reader.rest.length := by
  obtain ⟨fields, after, headers, -, -, -, -, -, rfl⟩ := readRecord_eq_ok done
  have passed := readHeaders_length_le headers
  unfold Reader.skip
  rw [List.length_drop, List.length_drop]
  omega

/-! ## The file -/

/-- `WARC/` -/
def versionPrefix : List UInt8 := [0x57, 0x41, 0x52, 0x43, 0x2f]

/-- The loop of `parse_records`. -/
def parseRecordsFrom (path : PathBuf) (records : List ParsedWarcRecord) (used : List Text)
    (reader : Reader) : Except WarcError (List ParsedWarcRecord) :=
  match _found : readNonemptyLine reader with
  | none => .ok records
  | some (firstLine, after) =>
    if versionPrefix.isPrefixOf firstLine then
      match _done : readRecord path records.length used after with
      | .error failure => .error failure
      | .ok (record, next) =>
        parseRecordsFrom path (records ++ [record]) (used ++ [record.entry.path]) next
    else .error (.invalid path "record does not start with a WARC version line")
termination_by reader.rest.length
decreasing_by exact (readRecord_length_le ‹_›).trans_lt (readNonemptyLine_length_lt ‹_›)

/-- The records of a file with these bytes. -/
def parseRecords (path : PathBuf) (file : List UInt8) :
    Except WarcError (List ParsedWarcRecord) :=
  parseRecordsFrom path [] [] ⟨0, file⟩

end Warc

end ZManager
