import ZManager.Warc.Records

/-! # What the records of a WARC file account for

A file is read as records with whitespace between them. The reader stops without an error where
it finds an empty line between records, and what follows is dropped: its records account for the
whole file if and only if nothing but whitespace follows such a line (`parseRecords_accounts_iff`).
-/

namespace ZManager

namespace Warc

variable {line : List UInt8} {reader after : Reader} {path : PathBuf} {used : List Text}
  {record : ParsedWarcRecord} {result : List ParsedWarcRecord}

/-! ## Lines -/

/-- A line with its line feed. -/
def IsLine (line : List UInt8) : Prop :=
  ∃ content, (0x0a : UInt8) ∉ content ∧ line = content ++ [0x0a]

theorem rawLine_append (is : IsLine line) (rest : List UInt8) :
    rawLine (line ++ rest) = line := by
  obtain ⟨content, free, rfl⟩ := is
  have plain : ∀ byte ∈ content, decide (byte ≠ 0x0a) = true := by
    intro byte member
    exact decide_eq_true fun same => free (same ▸ member)
  have stop : (content ++ [0x0a] ++ rest).takeWhile (· ≠ (0x0a : UInt8)) = content := by
    rw [List.append_assoc, List.takeWhile_append_of_pos plain]
    simp
  unfold rawLine
  rw [stop]
  exact List.take_left' (by rw [List.length_append, List.length_singleton])

/-- What is not the end of the bytes is a whole line. -/
theorem isLine_rawLine {bytes rest : List UInt8} (split : bytes = rawLine bytes ++ rest)
    (more : rest ≠ []) : IsLine (rawLine bytes) := by
  have parts := List.takeWhile_append_dropWhile (p := fun byte : UInt8 => decide (byte ≠ 0x0a))
    (l := bytes)
  cases behind : bytes.dropWhile (· ≠ 0x0a) with
  | nil =>
    have whole : bytes.takeWhile (· ≠ 0x0a) = bytes := by rwa [behind, List.append_nil] at parts
    have all : rawLine bytes = bytes := by
      unfold rawLine
      rw [whole]
      exact List.take_of_length_le (Nat.le_succ _)
    rw [all] at split
    exact absurd (List.append_right_eq_self.mp split.symm) more
  | cons first others =>
    have feed : first = 0x0a := by
      have stops := List.head_dropWhile_not (p := fun byte : UInt8 => decide (byte ≠ 0x0a))
        (l := bytes) (by rw [behind]; exact List.cons_ne_nil _ _)
      simp only [behind, List.head_cons] at stops
      simpa using stops
    refine ⟨bytes.takeWhile (· ≠ 0x0a), fun member => ?_, ?_⟩
    · simpa using List.mem_takeWhile_imp member
    · rw [behind, feed] at parts
      unfold rawLine
      nth_rewrite 2 [← parts]
      rw [List.append_cons]
      exact List.take_left' (by rw [List.length_append, List.length_singleton])

/-- A reader at a whole line reads it. -/
theorem readLine_line (is : IsLine line) (position : Nat) (rest : List UInt8) :
    readLine ⟨position, line ++ rest⟩ = (trimLine line, ⟨position + line.length, rest⟩) := by
  unfold readLine Reader.skip
  rw [rawLine_append is, List.drop_left]

theorem isLine_of_readLine (more : (readLine reader).2.rest ≠ []) :
    IsLine (rawLine reader.rest) :=
  isLine_rawLine (readLine_consumes reader).rest more

/-- The bytes that are dropped from the end of a line are whitespace. -/
theorem white_of_trimLine (white : (trimLine line).all isAsciiWhitespace) :
    ∀ byte ∈ line, isAsciiWhitespace byte := by
  intro byte member
  have parts : trimLine line ++ line.rtakeWhile (fun byte => byte = 0x0a || byte = 0x0d) = line :=
    List.rdropWhile_append_rtakeWhile
  rw [← parts] at member
  rcases List.mem_append.mp member with kept | dropped
  · exact List.all_eq_true.mp white byte kept
  · have ends := List.mem_rtakeWhile_imp dropped
    unfold isAsciiWhitespace
    simp only [Bool.or_eq_true, decide_eq_true_eq] at ends ⊢
    tauto

/-! ## Records as they stand in a file -/

/-- A record with the parts it is written of. -/
structure RecordText where
  version : List UInt8
  headers : List (List UInt8)
  blank : List UInt8
  body : List UInt8
  fields : Fields
  version_line : IsLine version
  version_starts : versionPrefix.isPrefixOf (trimLine version)
  headers_lines : ∀ header ∈ headers, IsLine header ∧ trimLine header ≠ []
  blank_line : IsLine blank ∧ trimLine blank = []
  /-- The fields are those of the header lines, the last one of a name counts. -/
  headers_read : headers.foldlM (fun fields header => readHeader fields (trimLine header)) {} =
    .ok fields
  content_length : fields.contentLength = some body.length

namespace RecordText

/-- What stands before the body. -/
def head (record : RecordText) : List UInt8 :=
  record.version ++ (record.headers.flatten ++ record.blank)

def bytes (record : RecordText) : List UInt8 :=
  record.head ++ (record.body ++ recordSeparator)

end RecordText

/-- Lines of whitespace, none of them empty, and records, one behind the other. -/
inductive Sections : List UInt8 → Prop where
  | nil : Sections []
  | white {line rest : List UInt8} (is : IsLine line)
      (white : ∀ byte ∈ line, isAsciiWhitespace byte) (nonempty : trimLine line ≠ [])
      (more : Sections rest) : Sections (line ++ rest)
  | record {rest : List UInt8} (record : RecordText) (more : Sections rest) :
      Sections (record.bytes ++ rest)

theorem Sections.append {front back : List UInt8} (first : Sections front)
    (second : Sections back) : Sections (front ++ back) := by
  induction first with
  | nil => exact second
  | white is white nonempty _ ih =>
    rw [List.append_assoc]
    exact .white is white nonempty ih
  | record record _ ih =>
    rw [List.append_assoc]
    exact .record record ih

/-- What follows an empty line between the sections is whitespace. -/
def NothingBehindEmptyLines (file : List UInt8) : Prop :=
  ∀ front line rest, file = front ++ (line ++ rest) → Sections front → IsLine line →
    trimLine line = [] → ∀ byte ∈ rest, isAsciiWhitespace byte

/-- The bytes of the file from a position on are whitespace and the records, in their order and
with their bodies where the records say. -/
inductive Accounts (file : List UInt8) : Nat → List UInt8 → List ParsedWarcRecord → Prop where
  | nil {position : Nat} : Accounts file position [] []
  | white {position : Nat} {gap rest : List UInt8} {records : List ParsedWarcRecord}
      (white : ∀ byte ∈ gap, isAsciiWhitespace byte)
      (more : Accounts file (position + gap.length) rest records) :
      Accounts file position (gap ++ rest) records
  | record {position : Nat} {rest : List UInt8} {records : List ParsedWarcRecord}
      {record : ParsedWarcRecord} (text : RecordText)
      (kind : text.fields.recordType = some record.entry.recordType)
      (size : record.entry.size = text.body.length)
      (offset : record.bodyOffset = position + text.head.length)
      (body : (file.drop record.bodyOffset).take record.entry.size = text.body)
      (more : Accounts file (position + text.bytes.length) rest records) :
      Accounts file position (text.bytes ++ rest) (record :: records)

/-- Where a record ends, with its separator. -/
def stop (record : ParsedWarcRecord) : Nat := record.bodyOffset + record.entry.size + 4

/-- Where the last record ends. -/
def endOfRecords (records : List ParsedWarcRecord) : Nat := (records.getLast?.map stop).getD 0

/-- **The records account for the file**, and no record starts behind the last of them. -/
structure AccountsFor (file : List UInt8) (records : List ParsedWarcRecord) : Prop where
  pieces : Accounts file 0 file records
  nothing_behind : ¬versionPrefix <:+: file.drop (endOfRecords records)

/-! ## What the reader finds -/

theorem RecordText.length_bytes (record : RecordText) :
    record.bytes.length = record.head.length + record.body.length + 4 := by
  unfold bytes
  rw [List.length_append, List.length_append, Nat.add_assoc]
  rfl

/-- Where lines end behind what is still there, headers were read from whole lines. -/
theorem readHeaders_eq_ok {fields result : Fields}
    (done : readHeaders path fields reader = .ok (result, after)) (more : after.rest ≠ []) :
    ∃ (headers : List (List UInt8)) (blank : List UInt8),
      (∀ header ∈ headers, IsLine header ∧ trimLine header ≠ []) ∧
      (IsLine blank ∧ trimLine blank = []) ∧
      headers.foldlM (fun fields header => readHeader fields (trimLine header)) fields =
        .ok result ∧
      Consumes reader (headers.flatten ++ blank) after := by
  fun_induction readHeaders path fields reader with
  | case1 fields reader empty =>
    cases done
    exact ⟨[], _, List.forall_mem_nil _, ⟨isLine_of_readLine more, empty⟩, rfl,
      readLine_consumes reader⟩
  | case2 fields reader nonempty message failed => cases done
  | case3 fields reader nonempty changed read ih =>
    obtain ⟨headers, blank, lines, ending, folded, passed⟩ := ih done
    have behind : (readLine reader).2.rest ≠ [] := by
      rw [passed.rest]
      exact List.append_ne_nil_of_right_ne_nil _ more
    refine ⟨rawLine reader.rest :: headers, blank,
      List.forall_mem_cons.mpr ⟨⟨isLine_of_readLine behind, nonempty⟩, lines⟩, ending, ?_, ?_⟩
    · have here : readHeader fields (trimLine (rawLine reader.rest)) = .ok changed := read
      rw [List.foldlM_cons, here]
      exact folded
    · rw [List.flatten_cons, List.append_assoc]
      exact (readLine_consumes reader).trans passed

/-- Header lines are read. -/
theorem readHeaders_lines {fields result : Fields} {headers : List (List UInt8)}
    {blank : List UInt8} (lines : ∀ header ∈ headers, IsLine header ∧ trimLine header ≠ [])
    (ending : IsLine blank ∧ trimLine blank = [])
    (folded : headers.foldlM (fun fields header => readHeader fields (trimLine header)) fields =
      .ok result)
    (position : Nat) (rest : List UInt8) :
    readHeaders path fields ⟨position, headers.flatten ++ blank ++ rest⟩ =
      .ok (result, ⟨position + (headers.flatten ++ blank).length, rest⟩) := by
  induction headers generalizing fields position with
  | nil =>
    cases folded
    unfold readHeaders
    rw [List.flatten_nil, List.nil_append, readLine_line ending.1, if_pos ending.2]
  | cons header others ih =>
    obtain ⟨⟨line, nonempty⟩, later⟩ := List.forall_mem_cons.mp lines
    rw [List.foldlM_cons] at folded
    obtain ⟨changed, read, folded⟩ := Except.bind_eq_ok_iff.mp folded
    unfold readHeaders
    rw [List.flatten_cons, List.append_assoc, List.append_assoc, ← List.append_assoc _ blank,
      readLine_line line, if_neg nonempty, read]
    simp only
    rw [ih later folded]
    simp only [List.length_append, Nat.add_assoc]

theorem rest_ne_nil_of_found (found : readNonemptyLine reader = some (line, after)) :
    reader.rest ≠ [] := by
  intro empty
  have shorter := readNonemptyLine_length_lt found
  rw [empty] at shorter
  exact Nat.not_lt_zero _ shorter

/-- The line that is found stands behind lines of whitespace. -/
theorem readNonemptyLine_eq_some (found : readNonemptyLine reader = some (line, after)) :
    ∃ gap between, Sections gap ∧ (∀ byte ∈ gap, isAsciiWhitespace byte) ∧
      Consumes reader gap between ∧ readLine between = (line, after) := by
  fun_induction readNonemptyLine reader with
  | case1 reader empty => cases found
  | case2 reader nonempty white ih =>
    obtain ⟨gap, between, sections, whites, passed, read⟩ := ih found
    have whole := isLine_of_readLine (rest_ne_nil_of_found found)
    have here := white_of_trimLine white
    exact ⟨rawLine reader.rest ++ gap, between, .white whole here nonempty sections,
      List.forall_mem_append.mpr ⟨here, whites⟩, (readLine_consumes reader).trans passed, read⟩
  | case3 reader nonempty written =>
    exact ⟨[], reader, .nil, List.forall_mem_nil _, Consumes.refl reader, Option.some.inj found⟩

/-- Where nothing is found, an empty line follows lines of whitespace, or the end. -/
theorem readNonemptyLine_eq_none (found : readNonemptyLine reader = none) :
    ∃ gap between, (between.rest ≠ [] → Sections gap) ∧
      (∀ byte ∈ gap, isAsciiWhitespace byte) ∧ Consumes reader gap between ∧
      trimLine (rawLine between.rest) = [] := by
  fun_induction readNonemptyLine reader with
  | case1 reader empty =>
    exact ⟨[], reader, fun _ => .nil, List.forall_mem_nil _, Consumes.refl reader, empty⟩
  | case2 reader nonempty white ih =>
    obtain ⟨gap, between, sections, whites, passed, empty⟩ := ih found
    have here := white_of_trimLine white
    refine ⟨rawLine reader.rest ++ gap, between, fun more => ?_,
      List.forall_mem_append.mpr ⟨here, whites⟩, (readLine_consumes reader).trans passed, empty⟩
    have behind : (readLine reader).2.rest ≠ [] := by
      rw [passed.rest]
      exact List.append_ne_nil_of_right_ne_nil _ more
    exact .white (isLine_of_readLine behind) here nonempty (sections more)
  | case3 reader nonempty written => cases found

/-- A record that was read stands in the file. -/
theorem exists_recordText {index : Nat} {next : Reader} (read : readLine reader = (line, after))
    (starts : versionPrefix.isPrefixOf line)
    (done : readRecord path index used after = .ok (record, next)) :
    ∃ text : RecordText, Consumes reader text.bytes next ∧
      text.fields.recordType = some record.entry.recordType ∧
      record.entry.size = text.body.length ∧
      record.bodyOffset = reader.position + text.head.length := by
  obtain ⟨fields, behind, headers, kind, length, offset, long, separator, rfl⟩ :=
    readRecord_eq_ok done
  have room : record.entry.size + 4 ≤ behind.rest.length := by
    unfold Reader.skip at long
    rw [List.length_drop] at long
    omega
  have more : behind.rest ≠ [] := List.length_pos_iff.mp (by omega)
  obtain ⟨lines, blank, whole, ending, folded, passed⟩ := readHeaders_eq_ok headers more
  have version : Consumes reader (rawLine reader.rest) after := by
    have consumed := readLine_consumes reader
    rwa [read] at consumed
  have first : IsLine (rawLine reader.rest) := by
    apply isLine_of_readLine
    rw [read, passed.rest]
    exact List.append_ne_nil_of_right_ne_nil _ more
  have trimmed : trimLine (rawLine reader.rest) = line := congrArg Prod.fst read
  have size : (behind.rest.take record.entry.size).length = record.entry.size :=
    List.length_take_of_le (by omega)
  refine ⟨⟨rawLine reader.rest, lines, blank, behind.rest.take record.entry.size, fields, first,
    by rwa [trimmed], whole, ending, folded, by rw [size, length]⟩, ?_, kind, size.symm, ?_⟩
  · have body := @consumes_skip behind record.entry.size (by omega)
    have ended := consumes_skip long
    rw [separator] at ended
    have all := (version.trans passed).trans (body.trans ended)
    exact all
  · have position := (version.trans passed).position
    exact offset.trans position

/-- **The reader goes through the sections** and accounts for what it passes. -/
theorem accounts_of_parseRecordsFrom {file front : List UInt8} {records : List ParsedWarcRecord}
    (done : parseRecordsFrom path records used reader = .ok result)
    (split : file = front ++ reader.rest) (here : reader.position = front.length)
    (sections : Sections front) (nothing : NothingBehindEmptyLines file) :
    ∃ more, result = records ++ more ∧ Accounts file reader.position reader.rest more := by
  fun_induction parseRecordsFrom path records used reader generalizing front with
  | case1 records used reader found =>
    cases done
    obtain ⟨gap, between, gaps, white, passed, empty⟩ := readNonemptyLine_eq_none found
    refine ⟨[], (List.append_nil _).symm, ?_⟩
    have line := readLine_consumes between
    have last : ∀ byte ∈ rawLine between.rest, isAsciiWhitespace byte :=
      white_of_trimLine (by rw [empty]; rfl)
    have rest : ∀ byte ∈ (readLine between).2.rest, isAsciiWhitespace byte := by
      by_cases ended : (readLine between).2.rest = []
      · rw [ended]
        exact List.forall_mem_nil _
      · have more : between.rest ≠ [] := by
          rw [line.rest]
          exact List.append_ne_nil_of_right_ne_nil _ ended
        refine nothing (front ++ gap) (rawLine between.rest) _ ?_ (sections.append (gaps more))
          (isLine_of_readLine ended) empty
        rw [split, passed.rest, ← line.rest, List.append_assoc]
    have all : ∀ byte ∈ reader.rest, isAsciiWhitespace byte := by
      rw [passed.rest, line.rest]
      exact List.forall_mem_append.mpr ⟨white, List.forall_mem_append.mpr ⟨last, rest⟩⟩
    rw [← List.append_nil reader.rest]
    exact .white all .nil
  | case2 records used reader line after found starts failure failed => cases done
  | case3 records used reader line after found starts record next read ih =>
    obtain ⟨gap, between, gaps, white, passed, first⟩ := readNonemptyLine_eq_some found
    obtain ⟨text, stands, kind, size, offset⟩ := exists_recordText first starts read
    have through := passed.trans stands
    have one : Sections text.bytes := List.append_nil text.bytes ▸ Sections.record text .nil
    obtain ⟨more, same, accounts⟩ := ih done
      (by rw [split, through.rest]; simp only [List.append_assoc])
      (by rw [through.position, here]; simp only [List.length_append])
      (sections.append (gaps.append one))
    refine ⟨record :: more, by rw [same, List.append_assoc]; rfl, ?_⟩
    have body : (file.drop record.bodyOffset).take record.entry.size = text.body := by
      have parts : file = front ++ gap ++ text.head ++
          (text.body ++ (recordSeparator ++ next.rest)) := by
        rw [split, through.rest]
        unfold RecordText.bytes
        simp only [List.append_assoc]
      rw [offset, passed.position, here, ← List.length_append, ← List.length_append, parts,
        List.drop_left, size, List.take_left]
    rw [through.rest, List.append_assoc]
    refine .white white ?_
    rw [← passed.position]
    refine .record text kind size offset body ?_
    rw [← stands.position]
    exact accounts
  | case4 records used reader line after found other => cases done

/-! ## Where the reader stops -/

theorem parseRecordsFrom_eq (path : PathBuf) (records : List ParsedWarcRecord)
    (used : List Text) (reader : Reader) :
    parseRecordsFrom path records used reader =
      match readNonemptyLine reader with
      | none => .ok records
      | some (firstLine, after) =>
        if versionPrefix.isPrefixOf firstLine then
          match readRecord path records.length used after with
          | .error failure => .error failure
          | .ok (record, next) =>
            parseRecordsFrom path (records ++ [record]) (used ++ [record.entry.path]) next
        else .error (.invalid path "record does not start with a WARC version line") := by
  rw [parseRecordsFrom]
  split
  next found => rw [found]
  next line after found =>
    rw [found]
    simp only
    split
    · split
      next failed => rw [failed]
      next read => rw [read]
    · rfl

theorem readNonemptyLine_version (text : RecordText) (position : Nat) (rest : List UInt8) :
    readNonemptyLine ⟨position, text.version ++ rest⟩ =
      some (trimLine text.version, ⟨position + text.version.length, rest⟩) := by
  obtain ⟨others, version⟩ := List.isPrefixOf_iff_prefix.mp text.version_starts
  have nonempty : trimLine text.version ≠ [] := by
    rw [← version]
    exact List.cons_ne_nil _ _
  have written : ¬(trimLine text.version).all isAsciiWhitespace := by
    rw [← version]
    exact Bool.false_ne_true
  rw [readNonemptyLine, readLine_line text.version_line, if_neg nonempty, if_neg written]

/-- A record that stands there is read to its end. -/
theorem readRecord_text {index position : Nat} {text : RecordText} {next : Reader}
    {rest : List UInt8}
    (read : readRecord path index used ⟨position + text.version.length,
      text.headers.flatten ++ text.blank ++ (text.body ++ (recordSeparator ++ rest))⟩ =
        .ok (record, next)) :
    stop record = position + text.bytes.length ∧ next = ⟨position + text.bytes.length, rest⟩ := by
  obtain ⟨fields, behind, headers, -, length, offset, -, -, rfl⟩ := readRecord_eq_ok read
  rw [readHeaders_lines text.headers_lines text.blank_line text.headers_read] at headers
  cases headers
  have size : record.entry.size = text.body.length :=
    Option.some.inj (length.symm.trans text.content_length)
  have head : position + text.version.length + (text.headers.flatten ++ text.blank).length =
      position + text.head.length := by
    unfold RecordText.head
    simp only [List.length_append, Nat.add_assoc]
  unfold stop Reader.skip
  dsimp only at offset ⊢
  rw [offset, size, head, text.length_bytes, List.drop_left]
  exact ⟨by omega, by rw [← Nat.add_assoc, ← Nat.add_assoc]; rfl⟩

/-- Where a record stands, the loop goes on behind it. -/
theorem parseRecordsFrom_text {path : PathBuf} {records : List ParsedWarcRecord}
    {used : List Text} {text : RecordText} {position : Nat} {rest : List UInt8}
    {record : ParsedWarcRecord} {next : Reader}
    (read : readRecord path records.length used ⟨position + text.version.length, rest⟩ =
      .ok (record, next)) :
    parseRecordsFrom path records used ⟨position, text.version ++ rest⟩ =
      parseRecordsFrom path (records ++ [record]) (used ++ [record.entry.path]) next := by
  rw [parseRecordsFrom_eq, readNonemptyLine_version]
  simp only [text.version_starts, if_true, read]

/-- A record that stands there is read, unless it is too long or its path is taken. -/
theorem readRecord_of_text {path : PathBuf} {index position : Nat} {used : List Text}
    {text : RecordText} {recordType name : Text} {rest : List UInt8}
    (kind : text.fields.recordType = some recordType)
    (small : text.body.length ≤ maxWarcRecordBytes)
    (fits : position + text.head.length + text.body.length < 2 ^ 64)
    (named : recordPath text.fields.target index recordType used = .ok name) :
    readRecord path index used ⟨position + text.version.length,
      text.headers.flatten ++ text.blank ++ (text.body ++ (recordSeparator ++ rest))⟩ =
        .ok (⟨⟨index, name, text.body.length, recordType⟩, position + text.head.length⟩,
          ⟨position + text.bytes.length, rest⟩) := by
  have head : position + text.version.length + (text.headers.flatten ++ text.blank).length =
      position + text.head.length := by
    unfold RecordText.head
    simp only [List.length_append, Nat.add_assoc]
  unfold readRecord
  rw [readHeaders_lines text.headers_lines text.blank_line text.headers_read, head]
  simp only [bind, Except.bind, kind, text.content_length, Reader.skip, List.drop_left]
  have long : ¬(recordSeparator ++ rest).length < 4 := by
    rw [List.length_append]
    exact Nat.not_lt.mpr (Nat.le_add_right 4 _)
  have separator : (recordSeparator ++ rest).take 4 = recordSeparator := List.take_left' rfl
  rw [if_neg (Nat.not_lt.mpr small), if_neg (Nat.not_le.mpr fits), if_neg long,
    if_neg (not_not.mpr separator), named, text.length_bytes]
  simp only [← Nat.add_assoc]
  rfl

/-- Behind the sections no record is read where an empty line follows them. -/
theorem stop_le_of_parseRecordsFrom {front tail : List UInt8} (sections : Sections front)
    (empty : trimLine (rawLine tail) = []) {records : List ParsedWarcRecord} {position : Nat}
    (before : ∀ record ∈ records, stop record ≤ position)
    (done : parseRecordsFrom path records used ⟨position, front ++ tail⟩ = .ok result) :
    ∀ record ∈ result, stop record ≤ position + front.length := by
  induction sections generalizing records used position with
  | nil =>
    have nothing : readNonemptyLine ⟨position, tail⟩ = none := by
      unfold readNonemptyLine
      exact if_pos empty
    rw [List.nil_append, parseRecordsFrom_eq, nothing] at done
    cases done
    exact before
  | @white line rest is white nonempty _ ih =>
    have passed : readNonemptyLine ⟨position, line ++ (rest ++ tail)⟩ =
        readNonemptyLine ⟨position + line.length, rest ++ tail⟩ := by
      rw [readNonemptyLine, readLine_line is, if_neg nonempty, if_pos]
      refine List.all_eq_true.mpr fun byte member => white byte ?_
      exact (List.rdropWhile_prefix _ line).subset member
    rw [List.append_assoc, parseRecordsFrom_eq, passed, ← parseRecordsFrom_eq] at done
    rw [List.length_append, ← Nat.add_assoc]
    refine ih (fun record member => ?_) done
    exact (before record member).trans (Nat.le_add_right _ _)
  | @record rest text _ ih =>
    have parts : text.bytes ++ rest ++ tail = text.version ++ (text.headers.flatten ++
        text.blank ++ (text.body ++ (recordSeparator ++ (rest ++ tail)))) := by
      unfold RecordText.bytes RecordText.head
      simp only [List.append_assoc]
    rw [parts, parseRecordsFrom_eq, readNonemptyLine_version] at done
    simp only [text.version_starts, if_true] at done
    cases read : readRecord path records.length used ⟨position + text.version.length,
        text.headers.flatten ++ text.blank ++
          (text.body ++ (recordSeparator ++ (rest ++ tail)))⟩ with
    | error failure =>
      rw [read] at done
      cases done
    | ok found =>
      obtain ⟨record, next⟩ := found
      rw [read] at done
      obtain ⟨here, behind⟩ := readRecord_text read
      simp only [behind] at done
      rw [List.length_append, ← Nat.add_assoc]
      refine ih (fun other member => ?_) done
      rcases List.mem_append.mp member with earlier | last
      · exact (before other earlier).trans (Nat.le_add_right _ _)
      · rw [List.mem_singleton.mp last, here]

/-! ## What is accounted for -/

section

variable {file bytes : List UInt8} {position : Nat} {records : List ParsedWarcRecord}

theorem stop_of_text {text : RecordText} (size : record.entry.size = text.body.length)
    (offset : record.bodyOffset = position + text.head.length) :
    stop record = position + text.bytes.length := by
  unfold stop
  rw [offset, size, text.length_bytes]
  omega

/-- Behind all records the bytes are whitespace. -/
theorem Accounts.white_behind (accounts : Accounts file position bytes records) {count : Nat}
    (past : ∀ record ∈ records, stop record ≤ position + count) :
    ∀ byte ∈ bytes.drop count, isAsciiWhitespace byte := by
  induction accounts generalizing count with
  | nil =>
    rw [List.drop_nil]
    exact List.forall_mem_nil _
  | @white _ gap rest _ white _ ih =>
    rw [List.drop_append]
    refine List.forall_mem_append.mpr
      ⟨fun byte member => white byte (List.mem_of_mem_drop member), ?_⟩
    apply ih
    intro record member
    have before := past record member
    omega
  | record text kind size offset body _ ih =>
    obtain ⟨here, later⟩ := List.forall_mem_cons.mp past
    rw [stop_of_text size offset] at here
    rw [List.drop_append, List.drop_eq_nil_of_le (by omega), List.nil_append]
    apply ih
    intro record member
    have before := later record member
    omega

theorem Accounts.position_le_stop (accounts : Accounts file position bytes records) :
    ∀ record ∈ records, position ≤ stop record := by
  induction accounts with
  | nil => exact List.forall_mem_nil _
  | white _ _ ih => exact fun record member => (Nat.le_add_right _ _).trans (ih record member)
  | record text kind size offset body _ ih =>
    refine List.forall_mem_cons.mpr
      ⟨?_, fun record member => (Nat.le_add_right _ _).trans (ih record member)⟩
    rw [stop_of_text size offset]
    exact Nat.le_add_right _ _

/-- The records stand in their order. -/
theorem Accounts.stop_le_endOfRecords (accounts : Accounts file position bytes records) :
    ∀ record ∈ records, stop record ≤ endOfRecords records := by
  induction accounts with
  | nil => exact List.forall_mem_nil _
  | white _ _ ih => exact ih
  | @record position rest records record text kind size offset body more ih =>
    cases records with
    | nil =>
      intro other member
      rw [List.mem_singleton.mp member]
      exact Nat.le_refl _
    | cons next others =>
      have same : endOfRecords (record :: next :: others) = endOfRecords (next :: others) := by
        unfold endOfRecords
        rw [List.getLast?_cons_cons]
      rw [same]
      refine List.forall_mem_cons.mpr ⟨?_, ih⟩
      rw [stop_of_text size offset]
      exact (more.position_le_stop next (List.mem_cons_self ..)).trans
        (ih next (List.mem_cons_self ..))

end

/-- **The records account for the file** if and only if nothing but whitespace follows an empty
line between records. -/
theorem parseRecords_accounts_iff {path : PathBuf} {file : List UInt8}
    {records : List ParsedWarcRecord} (done : parseRecords path file = .ok records) :
    AccountsFor file records ↔ NothingBehindEmptyLines file := by
  constructor
  · intro accounts front line rest split sections is empty byte member
    have last : trimLine (rawLine (line ++ rest)) = [] := by rwa [rawLine_append is]
    unfold parseRecords at done
    rw [split] at done
    have past := stop_le_of_parseRecordsFrom sections last (List.forall_mem_nil _) done
    refine accounts.pieces.white_behind past byte ?_
    rw [split, List.drop_left]
    exact List.mem_append_right _ member
  · intro nothing
    obtain ⟨more, same, accounts⟩ := accounts_of_parseRecordsFrom done rfl rfl .nil nothing
    rw [List.nil_append] at same
    rw [← same] at accounts
    refine ⟨accounts, fun version => ?_⟩
    have past : ∀ record ∈ records, stop record ≤ 0 + endOfRecords records := by
      rw [Nat.zero_add]
      exact accounts.stop_le_endOfRecords
    have white := accounts.white_behind past 0x57 (version.subset (List.mem_cons_self ..))
    exact absurd white (by decide)

/-! ## A record of one byte -/

theorem isLine_utf8Bytes {content : Text} (free : (0x0a : UInt8) ∉ utf8Bytes content) :
    IsLine (utf8Bytes content ++ [0x0a]) :=
  ⟨_, free, rfl⟩

theorem readHeader_eq {line : List UInt8} {separator : Nat} {name value : Text}
    (colon : line.findIdx? (· = 0x3a) = some separator)
    (named : line.take separator = utf8Bytes name)
    (told : trimAscii (line.drop (separator + 1)) = utf8Bytes value) (fields : Fields) :
    readHeader fields line = fields.set (name.map Char.toLower) value := by
  unfold readHeader
  simp only [colon, named, told, fromUtf8Lossy_utf8Bytes, fromUtf8_utf8Bytes]

/-- A record with the body `x`. -/
def smallRecord : RecordText where
  version := utf8Bytes "WARC/1.0".toList ++ [0x0a]
  headers := [utf8Bytes "WARC-Type:a".toList ++ [0x0a],
    utf8Bytes "Content-Length:1".toList ++ [0x0a]]
  blank := [0x0a]
  body := [0x78]
  fields := ⟨some ['a'], none, some 1⟩
  version_line := isLine_utf8Bytes (by decide +kernel)
  version_starts := by decide +kernel
  headers_lines := by
    refine List.forall_mem_cons.mpr ⟨⟨isLine_utf8Bytes (by decide +kernel), by decide +kernel⟩,
      List.forall_mem_cons.mpr ⟨⟨isLine_utf8Bytes (by decide +kernel), by decide +kernel⟩,
        List.forall_mem_nil _⟩⟩
  blank_line := ⟨⟨[], List.not_mem_nil, rfl⟩, rfl⟩
  headers_read := by
    have kind : readHeader {} (trimLine (utf8Bytes "WARC-Type:a".toList ++ [0x0a])) =
        .ok ⟨some ['a'], none, none⟩ :=
      (@readHeader_eq _ 9 "WARC-Type".toList ['a'] (by decide +kernel) (by decide +kernel)
        (by decide +kernel) {}).trans (by decide +kernel)
    have length : readHeader ⟨some ['a'], none, none⟩
        (trimLine (utf8Bytes "Content-Length:1".toList ++ [0x0a])) =
          .ok ⟨some ['a'], none, some 1⟩ :=
      (@readHeader_eq _ 14 "Content-Length".toList ['1'] (by decide +kernel) (by decide +kernel)
        (by decide +kernel) _).trans (by decide +kernel)
    rw [List.foldlM_cons, kind]
    exact congrArg (fun result => result >>= Except.ok) length
  content_length := rfl

theorem parseRecords_smallRecord (path : PathBuf) :
    parseRecords path smallRecord.bytes =
      .ok [⟨⟨0, "records/00000000-a".toList, 1, ['a']⟩, 39⟩] := by
  have parts : smallRecord.bytes = smallRecord.version ++ (smallRecord.headers.flatten ++
      smallRecord.blank ++ (smallRecord.body ++ (recordSeparator ++ []))) := rfl
  have named : recordPath smallRecord.fields.target 0 ['a'] [] =
      .ok "records/00000000-a".toList := by decide +kernel
  have read := @readRecord_of_text path 0 0 [] smallRecord ['a'] _ [] rfl (by decide)
    (by decide +kernel) named
  have ended : readNonemptyLine ⟨0 + smallRecord.bytes.length, []⟩ = none := by
    unfold readNonemptyLine
    exact if_pos rfl
  have offset : 0 + smallRecord.head.length = 39 := by decide +kernel
  have first := @parseRecordsFrom_text path [] [] smallRecord 0 _ _ _ read
  unfold parseRecords
  rw [parts, first, parseRecordsFrom_eq, ended, offset]
  rfl

/-- A file that is one record: its records account for it if and only if nothing follows an empty
line. -/
theorem small_record_is_accounted_for :
    AccountsFor smallRecord.bytes [⟨⟨0, "records/00000000-a".toList, 1, ['a']⟩, 39⟩] ↔
      NothingBehindEmptyLines smallRecord.bytes :=
  parseRecords_accounts_iff (parseRecords_smallRecord [])

/-- A record behind an empty line is dropped. -/
theorem record_behind_empty_line_is_dropped :
    ¬ ∀ (path : PathBuf) (file : List UInt8) (records : List ParsedWarcRecord),
      parseRecords path file = .ok records → AccountsFor file records := by
  intro accounts
  have stopped : readNonemptyLine ⟨0, 0x0a :: smallRecord.bytes⟩ = none := by
    unfold readNonemptyLine
    exact if_pos rfl
  have done : parseRecords [] (0x0a :: smallRecord.bytes) = .ok [] := by
    unfold parseRecords
    rw [parseRecordsFrom_eq, stopped]
  refine (accounts [] _ _ done).nothing_behind ?_
  exact ⟨[0x0a], smallRecord.bytes.drop 5, by decide +kernel⟩

end Warc

end ZManager
