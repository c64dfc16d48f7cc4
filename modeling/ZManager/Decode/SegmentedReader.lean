import Mathlib.Data.Nat.Find
import ZManager.Zip.VolumeStream

/-! # Reading ordered parts as one file

`SegmentedReader` keeps a position in the joined parts, and for each part the
position that its file is known to be at, so that a file is sought only when a
read enters a part elsewhere than the last one left it. Reads of a file may be
short; the loop goes on until the buffer is full. Whatever is read and sought,
the reader answers as a plain file with the joined content
(`SegmentedReader.answers_of_openParts`).
-/

namespace ZManager

/-- Where each part of a joined stream starts. -/
def partStarts (parts : List (List UInt8)) : List Nat :=
  (List.range parts.length).map fun index => (parts.take index).flatten.length

/-- `[T]::partition_point` for starts at or before a position. -/
def partitionPoint (starts : List Nat) (position : Nat) : Nat :=
  (starts.takeWhile (· ≤ position)).length

/-- The target of a seek. -/
inductive SeekFrom where
  | start (value : Nat)
  | current (value : Int)
  | fromEnd (value : Int)

/-- The position a seek asks for, which may be outside the stream. -/
def SeekFrom.next (position len : Nat) : SeekFrom → Int
  | .start value => value
  | .current value => position + value
  | .fromEnd value => len + value

/-- A call of the reader. -/
inductive ReaderCall where
  | read (bufferLength : Nat)
  | seek (target : SeekFrom)

/-- What a call returns. -/
inductive ReaderAnswer where
  | bytes (read : Except IoError (List UInt8))
  | position (reached : Except IoError Nat)

/-! ## Positions in the joined parts -/

section

variable {parts : List (List UInt8)}

variable {index : Nat}

theorem length_flatten_take_succ (inside : index < parts.length) :
    (parts.take (index + 1)).flatten.length =
      (parts.take index).flatten.length + (parts.getD index []).length := by
  rw [List.take_add_one, List.flatten_append, List.length_append, List.getD_eq_getElem?_getD,
    List.getElem?_eq_getElem inside]
  simp

theorem length_flatten_take_mono {first second : Nat} (le : first ≤ second) :
    (parts.take first).flatten.length ≤ (parts.take second).flatten.length := by
  have split : (parts.take second).take first = parts.take first := by
    rw [List.take_take, Nat.min_eq_left le]
  rw [← split]
  conv => rhs; rw [← List.take_append_drop first (parts.take second)]
  rw [List.flatten_append, List.length_append]
  exact Nat.le_add_right _ _

/-- The starts at or before a position are those of the first so many parts. -/
theorem partitionPoint_partStarts {position : Nat} (inside : index < parts.length)
    (begun : (parts.take index).flatten.length ≤ position)
    (before : position < (parts.take (index + 1)).flatten.length) :
    partitionPoint (partStarts parts) position = index + 1 := by
  unfold partitionPoint partStarts
  have split : List.range parts.length =
      List.range (index + 1) ++ List.range' (index + 1) (parts.length - (index + 1)) := by
    rw [List.range_eq_range', List.range_eq_range']
    have joined := @List.range'_append 0 (index + 1) (parts.length - (index + 1)) 1
    rw [Nat.one_mul, Nat.zero_add, Nat.add_sub_cancel' inside] at joined
    exact joined.symm
  rw [split, List.map_append, List.takeWhile_append_of_pos]
  · have stopped : (List.map (fun index => (parts.take index).flatten.length)
        (List.range' (index + 1) (parts.length - (index + 1)))).takeWhile
          (fun start => decide (start ≤ position)) = [] := by
      cases parts.length - (index + 1) with
      | zero => rfl
      | succ more =>
        rw [List.range'_succ, List.map_cons, List.takeWhile_cons_of_neg]
        simpa using before
    rw [stopped, List.append_nil, List.length_map, List.length_range]
  · intro start member
    obtain ⟨other, listed, rfl⟩ := List.mem_map.mp member
    have le := @length_flatten_take_mono parts other index
      (Nat.lt_succ_iff.mp (List.mem_range.mp listed))
    exact decide_eq_true (le.trans begun)

/-- Every position of the stream lies in one part. -/
theorem exists_part_at {position : Nat} (inside : position < parts.flatten.length) :
    ∃ index, index < parts.length ∧ (parts.take index).flatten.length ≤ position ∧
      position < (parts.take (index + 1)).flatten.length := by
  have found : ∃ count, position < (parts.take count).flatten.length := by
    refine ⟨parts.length, ?_⟩
    rw [List.take_length]
    exact inside
  classical
  have least := Nat.find_spec found
  have minimal := @Nat.find_min _ _ found
  generalize Nat.find found = count at least minimal
  cases count with
  | zero => simp at least
  | succ index =>
    have begun := Nat.le_of_not_lt (minimal (Nat.lt_succ_self index))
    refine ⟨index, ?_, begun, least⟩
    by_contra outside
    rw [List.take_of_length_le (by omega)] at begun
    omega

/-- The bytes of a part are those of the stream from its start on. -/
theorem take_drop_part {within count : Nat} (inside : index < parts.length)
    (fits : within + count ≤ (parts.getD index []).length) :
    ((parts.getD index []).drop within).take count =
      (parts.flatten.drop ((parts.take index).flatten.length + within)).take count := by
  have split : parts.flatten = (parts.take index).flatten ++
      (parts.getD index [] ++ (parts.drop (index + 1)).flatten) := by
    conv => lhs; rw [← List.take_append_drop index parts]
    rw [List.flatten_append, List.drop_eq_getElem_cons inside, List.flatten_cons,
      List.getD_eq_getElem?_getD, List.getElem?_eq_getElem inside]
    rfl
  rw [split, ← List.drop_drop, List.drop_left, List.drop_append_of_le_length (by omega),
    List.take_append_of_le_length]
  rw [List.length_drop]
  omega

end

/-! ## The reader -/

/-- A part: the content of its file, where the file is, and what the reader keeps of it. -/
structure Segment where
  path : String
  content : List UInt8
  cursor : Nat
  start : Nat
  len : Nat
  filePosition : Nat

/-- The reader, with the number of file reads made so far. -/
structure SegmentedReader where
  parts : List Segment
  totalLen : Nat
  position : Nat
  reads : Nat

/-- A part that is to be opened: its path and the content of the file. -/
structure PartFile where
  path : String
  content : List UInt8

variable {files : List PartFile}

/-- The loop of `open` over the paths, behind parts of a total length. -/
def openSegmentLoop : List PartFile → (totalLen : Nat) → Except IoError (List Segment × Nat)
  | [], totalLen => .ok ([], totalLen)
  | file :: rest, totalLen =>
    let len := file.content.length
    if len = 0 then .error ⟨.invalidData, "segmented source part is empty: " ++ file.path⟩
    else if 2 ^ 64 ≤ totalLen + len then .error ⟨.invalidInput, "segmented source length overflow"⟩
    else do
      let (parts, total) ← openSegmentLoop rest (totalLen + len)
      return (⟨file.path, file.content, 0, totalLen, len, 0⟩ :: parts, total)

/-- Opens an already ordered, non-empty volume set. -/
def openParts (files : List PartFile) : Except IoError SegmentedReader :=
  if files.isEmpty then .error ⟨.invalidInput, "segmented source has no parts"⟩
  else do
    let (parts, totalLen) ← openSegmentLoop files 0
    return ⟨parts, totalLen, 0, 0⟩

namespace Segment

/-- Seeks the file, unless it is known to be there. -/
def seekTo (part : Segment) (offset : Nat) : Segment :=
  if part.filePosition ≠ offset then { part with cursor := offset, filePosition := offset }
  else part

/-- What a read of the file yields that the system may cut short: any number of bytes
up to those asked for, but none only at the end. -/
def fileRead (part : Segment) (short wanted : Nat) : List UInt8 :=
  ((part.content.drop part.cursor).take wanted).take (short + 1)

end Segment

namespace SegmentedReader

def currentPartIndex (reader : SegmentedReader) : Option Nat :=
  match partitionPoint (reader.parts.map (·.start)) reader.position with
  | 0 => none
  | index + 1 =>
    match reader.parts[index]? with
    | none => none
    | some part =>
      if reader.position < min (part.start + part.len) (2 ^ 64 - 1) then some index else none

/-- Behind a read of so many bytes in a part. -/
def advance (reader : SegmentedReader) (index : Nat) (part : Segment) (count : Nat) :
    SegmentedReader :=
  { reader with
    parts := reader.parts.set index
      { part with cursor := part.cursor + count, filePosition := part.filePosition + count }
    position := reader.position + count
    reads := reader.reads + 1 }

/-- The part, sought to the position of the reader. -/
def sought (reader : SegmentedReader) (part : Segment) : Segment :=
  part.seekTo (reader.position - part.start)

/-- What a read of the part yields at the position of the reader. -/
def partRead (short : Nat → Nat) (reader : SegmentedReader) (part : Segment) (wanted : Nat) :
    List UInt8 :=
  (reader.sought part).fileRead (short reader.reads)
    (min (part.len - (reader.position - part.start)) wanted)

/-- The loop of `read`. Each round reads at least one byte. -/
def readLoop (short : Nat → Nat) (reader : SegmentedReader) (wanted : Nat) :
    Except IoError (List UInt8) × SegmentedReader :=
  if _ended : wanted = 0 ∨ reader.totalLen ≤ reader.position then (.ok [], reader)
  else
    match reader.currentPartIndex with
    | none => (.error ⟨.unexpectedEof, "segmented source has a gap"⟩, reader)
    | some index =>
      match reader.parts[index]? with
      | none => (.error ⟨.other, "index out of bounds"⟩, reader)
      | some part =>
        if _progress : 0 < (reader.partRead short part wanted).length then
          if 2 ^ 64 ≤ reader.position + (reader.partRead short part wanted).length then
            (.error ⟨.invalidInput, "segmented position overflow"⟩, reader)
          else if 2 ^ 64 ≤ (reader.sought part).filePosition +
              (reader.partRead short part wanted).length then
            (.error ⟨.invalidInput, "segmented part position overflow"⟩, reader)
          else
            let rest := readLoop short (reader.advance index (reader.sought part)
              (reader.partRead short part wanted).length)
              (wanted - (reader.partRead short part wanted).length)
            (rest.1.map (reader.partRead short part wanted ++ ·), rest.2)
        else (.error ⟨.unexpectedEof, "unexpected EOF in " ++ part.path⟩, reader)
termination_by wanted
decreasing_by omega

/-- `Read::read` of the reader. -/
def read (short : Nat → Nat) (bufferLength : Nat) (reader : SegmentedReader) :
    Except IoError (List UInt8) × SegmentedReader :=
  if reader.totalLen ≤ reader.position ∨ bufferLength = 0 then (.ok [], reader)
  else reader.readLoop short bufferLength

/-- Moves the position, within the source only. -/
def seek (target : SeekFrom) (reader : SegmentedReader) : Except IoError Nat × SegmentedReader :=
  let next := target.next reader.position reader.totalLen
  if 0 ≤ next ∧ next ≤ reader.totalLen then
    (.ok next.toNat, { reader with position := next.toNat })
  else (.error ⟨.invalidInput, "segmented seek outside source"⟩, reader)

/-- What the calls on a reader answer, one after the other. -/
def answers (short : Nat → Nat) : List ReaderCall → SegmentedReader → List ReaderAnswer
  | [], _ => []
  | .read bufferLength :: rest, reader =>
    .bytes (reader.read short bufferLength).1 ::
      answers short rest (reader.read short bufferLength).2
  | .seek target :: rest, reader =>
    .position (reader.seek target).1 :: answers short rest (reader.seek target).2

end SegmentedReader

/-- What the same calls answer on one file: a read yields the next bytes, as many as the
buffer takes and the file has, and a seek stays inside the file. -/
def flatFileAnswers (content : List UInt8) : List ReaderCall → (position : Nat) → List ReaderAnswer
  | [], _ => []
  | .read bufferLength :: rest, position =>
    let count := min bufferLength (content.length - position)
    .bytes (.ok ((content.drop position).take count)) ::
      flatFileAnswers content rest (position + count)
  | .seek target :: rest, position =>
    let next := target.next position content.length
    if 0 ≤ next ∧ next ≤ content.length then
      .position (.ok next.toNat) :: flatFileAnswers content rest next.toNat
    else
      .position (.error ⟨.invalidInput, "segmented seek outside source"⟩) ::
        flatFileAnswers content rest position

/-! ## The parts of a reader -/

/-- The reader stands in the joined parts, and knows where the files are. -/
structure SegmentedReader.Lays (reader : SegmentedReader) (parts : List (List UInt8)) : Prop where
  count : reader.parts.length = parts.length
  segment : ∀ index part, reader.parts[index]? = some part →
    part.content = parts.getD index [] ∧ part.start = (parts.take index).flatten.length ∧
      part.len = (parts.getD index []).length ∧ part.cursor = part.filePosition
  total : reader.totalLen = parts.flatten.length
  fits : parts.flatten.length < 2 ^ 64
  position : reader.position ≤ parts.flatten.length

namespace SegmentedReader

variable {reader : SegmentedReader} {parts : List (List UInt8)}

theorem Lays.starts (lays : reader.Lays parts) :
    reader.parts.map (·.start) = partStarts parts := by
  unfold partStarts
  apply List.ext_getElem?
  intro index
  rw [List.getElem?_map, List.getElem?_map]
  cases held : reader.parts[index]? with
  | none =>
    have outside := List.getElem?_eq_none_iff.mp held
    rw [List.getElem?_eq_none (by rw [List.length_range]; exact lays.count ▸ outside)]
    rfl
  | some part =>
    obtain ⟨inside, -⟩ := List.getElem?_eq_some_iff.mp held
    rw [List.getElem?_range (lays.count ▸ inside)]
    exact congrArg some (lays.segment index part held).2.1

/-- A position inside the parts is found in its part. -/
theorem Lays.currentPartIndex (lays : reader.Lays parts)
    (inside : reader.position < parts.flatten.length) :
    ∃ index part, index < parts.length ∧ reader.currentPartIndex = some index ∧
      reader.parts[index]? = some part ∧ (parts.take index).flatten.length ≤ reader.position ∧
      reader.position < (parts.take (index + 1)).flatten.length := by
  obtain ⟨index, listed, begun, before⟩ := exists_part_at inside
  have held : ∃ part, reader.parts[index]? = some part :=
    ⟨_, List.getElem?_eq_getElem (lays.count ▸ listed)⟩
  obtain ⟨part, held⟩ := held
  obtain ⟨-, start, len, -⟩ := lays.segment index part held
  have length := length_flatten_take_succ listed
  have fits := lays.fits
  have within : reader.position < min (part.start + part.len) (2 ^ 64 - 1) := by
    rw [start, len, ← length]
    omega
  refine ⟨index, part, listed, ?_, held, begun, before⟩
  unfold SegmentedReader.currentPartIndex
  rw [lays.starts, partitionPoint_partStarts listed begun before]
  dsimp only
  rw [held]
  exact if_pos within

theorem cursor_seekTo (part : Segment) (offset : Nat) (known : part.cursor = part.filePosition) :
    (part.seekTo offset).cursor = offset ∧ (part.seekTo offset).filePosition = offset ∧
      (part.seekTo offset).content = part.content ∧ (part.seekTo offset).start = part.start ∧
      (part.seekTo offset).len = part.len := by
  unfold Segment.seekTo
  split_ifs with different
  · exact ⟨rfl, rfl, rfl, rfl, rfl⟩
  · have same : part.filePosition = offset := not_not.mp different
    exact ⟨known.trans same, same, rfl, rfl, rfl⟩

/-- A read in a part leaves the reader in the same parts. -/
theorem Lays.advance (lays : reader.Lays parts) {index offset count : Nat} {part : Segment}
    (held : reader.parts[index]? = some part)
    (fits : reader.position + count ≤ parts.flatten.length) :
    (reader.advance index (part.seekTo offset) count).Lays parts := by
  obtain ⟨content, start, len, known⟩ := lays.segment index part held
  obtain ⟨cursor, position, sameContent, sameStart, sameLen⟩ := cursor_seekTo part offset known
  refine ⟨?_, ?_, lays.total, lays.fits, fits⟩
  · exact (List.length_set ..).trans lays.count
  · intro other segment found
    have found : (reader.parts.set index { part.seekTo offset with
        cursor := (part.seekTo offset).cursor + count
        filePosition := (part.seekTo offset).filePosition + count })[other]? = some segment := found
    rw [List.getElem?_set] at found
    split_ifs at found with same inside
    · cases found
      rw [← same]
      exact ⟨sameContent.trans content, sameStart.trans start, sameLen.trans len,
        by dsimp only; rw [cursor, position]⟩
    · exact lays.segment other segment found

/-- The loop fills the buffer, or reads up to the end. -/
theorem Lays.readLoop (lays : reader.Lays parts) (short : Nat → Nat) (wanted : Nat) :
    ∃ next, reader.readLoop short wanted =
        (.ok ((parts.flatten.drop reader.position).take wanted), next) ∧
      next.Lays parts ∧
      next.position = reader.position + min wanted (parts.flatten.length - reader.position) := by
  induction wanted using Nat.strong_induction_on generalizing reader with
  | h wanted ih =>
    unfold SegmentedReader.readLoop
    have bound := lays.position
    by_cases ended : wanted = 0 ∨ reader.totalLen ≤ reader.position
    · rw [dif_pos ended]
      rw [lays.total] at ended
      have nothing : (parts.flatten.drop reader.position).take wanted = [] := by
        rcases ended with none | past
        · rw [none, List.take_zero]
        · rw [List.drop_eq_nil_of_le past, List.take_nil]
      exact ⟨reader, by rw [nothing], lays, by omega⟩
    rw [dif_neg ended]
    rw [lays.total] at ended
    obtain ⟨index, part, listed, current, held, begun, before⟩ :=
      lays.currentPartIndex (by omega)
    obtain ⟨content, start, len, known⟩ := lays.segment index part held
    have length := length_flatten_take_succ listed
    rw [current]
    dsimp only
    rw [held]
    dsimp only
    obtain ⟨cursor, position, sameContent, -, -⟩ :=
      cursor_seekTo part (reader.position - part.start) known
    have fits := lays.fits
    -- what is read of the file is what the stream has there
    have read : reader.partRead short part wanted =
        (parts.flatten.drop reader.position).take (min (short reader.reads + 1)
          (min (part.len - (reader.position - part.start)) wanted)) := by
      unfold partRead sought Segment.fileRead
      rw [cursor, sameContent, content, List.take_take, start,
        take_drop_part listed (by rw [len]; omega), Nat.add_sub_cancel' begun]
    generalize counted : min (short reader.reads + 1)
      (min (part.len - (reader.position - part.start)) wanted) = count at read
    rw [start, len] at counted
    have positive : 0 < count := by omega
    have inner : (parts.take (index + 1)).flatten.length ≤ parts.flatten.length := by
      have mono := @length_flatten_take_mono parts (index + 1) parts.length (by omega)
      rwa [List.take_length] at mono
    have inside : reader.position + count ≤ parts.flatten.length := by omega
    have taken : ((parts.flatten.drop reader.position).take count).length = count := by
      rw [List.length_take, List.length_drop]
      omega
    have less : count ≤ wanted := by omega
    have known : (reader.sought part).filePosition = reader.position - part.start := position
    rw [read, taken, dif_pos positive, if_neg (by omega), known, if_neg (by omega)]
    obtain ⟨next, done, kept, reached⟩ := ih (wanted - count) (by omega)
      (lays.advance held inside)
    have onward : (reader.advance index (part.seekTo (reader.position - part.start))
        count).position = reader.position + count := rfl
    rw [onward] at done reached
    refine ⟨next, ?_, kept, by omega⟩
    unfold sought
    rw [done]
    change (Except.ok (_ ++ _), next) = _
    rw [← List.drop_drop, ← List.take_add, Nat.add_sub_cancel' less]

theorem Lays.read (lays : reader.Lays parts) (short : Nat → Nat) (bufferLength : Nat) :
    ∃ next, reader.read short bufferLength =
        (.ok ((parts.flatten.drop reader.position).take bufferLength), next) ∧
      next.Lays parts ∧ next.position =
        reader.position + min bufferLength (parts.flatten.length - reader.position) := by
  obtain ⟨next, done, kept, reached⟩ := lays.readLoop short bufferLength
  refine ⟨next, ?_, kept, reached⟩
  rw [← done]
  unfold SegmentedReader.read
  split_ifs with empty
  · unfold SegmentedReader.readLoop
    rw [dif_pos empty.symm]
  · rfl

theorem Lays.answers (lays : reader.Lays parts) (short : Nat → Nat) (calls : List ReaderCall) :
    reader.answers short calls = flatFileAnswers parts.flatten calls reader.position := by
  induction calls generalizing reader with
  | nil => rfl
  | cons call rest ih =>
    cases call with
    | read bufferLength =>
      obtain ⟨next, done, kept, reached⟩ := lays.read short bufferLength
      unfold SegmentedReader.answers flatFileAnswers
      rw [done]
      dsimp only
      rw [ih kept, reached, List.take_eq_take_min, List.length_drop]
    | seek target =>
      unfold SegmentedReader.answers flatFileAnswers SegmentedReader.seek
      rw [lays.total]
      generalize target.next reader.position parts.flatten.length = next
      by_cases within : 0 ≤ next ∧ next ≤ parts.flatten.length
      · simp only [within, and_self, ↓reduceIte]
        have there : next.toNat ≤ parts.flatten.length := by omega
        have onward := @ih { reader with position := next.toNat }
          ⟨lays.count, lays.segment, lays.total, lays.fits, there⟩
        rw [lays.total] at onward
        rw [onward]
      · simp only [within, ↓reduceIte]
        rw [ih lays]

end SegmentedReader

/-! ## Opening -/

/-- The content of the parts, joined. -/
def segmentedContent (files : List PartFile) : List UInt8 := (files.map (·.content)).flatten

theorem openSegmentLoop_eq_ok_iff {front : Nat} :
    (∃ result, openSegmentLoop files front = .ok result) ↔
      (∀ file ∈ files, file.content ≠ []) ∧
        (files ≠ [] → front + (segmentedContent files).length < 2 ^ 64) := by
  induction files generalizing front with
  | nil => simp [openSegmentLoop]
  | cons file rest ih =>
    have joined : (segmentedContent (file :: rest)).length =
        file.content.length + (segmentedContent rest).length := List.length_append
    unfold openSegmentLoop
    by_cases empty : file.content.length = 0
    · simp only [empty, ↓reduceIte]
      constructor
      · rintro ⟨_, failed⟩
        cases failed
      · rintro ⟨all, -⟩
        exact absurd (List.length_eq_zero_iff.mp empty) (all file List.mem_cons_self)
    by_cases wide : 2 ^ 64 ≤ front + file.content.length
    · simp only [empty, wide, ↓reduceIte]
      constructor
      · rintro ⟨_, failed⟩
        cases failed
      · rintro ⟨-, fits⟩
        have fits := fits (List.cons_ne_nil _ _)
        omega
    · have tail := @ih (front + file.content.length)
      simp only [empty, wide, ↓reduceIte]
      constructor
      · rintro ⟨result, done⟩
        obtain ⟨inner, opened, -⟩ := Except.bind_eq_ok_iff.mp done
        obtain ⟨all, fits⟩ := tail.mp ⟨inner, opened⟩
        refine ⟨List.forall_mem_cons.mpr ⟨fun none => empty (by rw [none]; rfl), all⟩, fun _ => ?_⟩
        cases rest with
        | nil =>
          have none : (segmentedContent []).length = 0 := rfl
          omega
        | cons next others =>
          have fits := fits (List.cons_ne_nil _ _)
          omega
      · rintro ⟨all, fits⟩
        have fits := fits (List.cons_ne_nil _ _)
        obtain ⟨inner, opened⟩ := tail.mpr ⟨fun other member =>
          all other (List.mem_cons_of_mem _ member), fun _ => by omega⟩
        exact ⟨_, Except.bind_eq_ok_iff.mpr ⟨inner, opened, rfl⟩⟩

/-- The parts that the loop lays out, behind a front. -/
theorem segments_of_openSegmentLoop {front total : Nat} {parts : List Segment}
    (opened : openSegmentLoop files front = .ok (parts, total)) :
    parts.length = files.length ∧ total = front + (segmentedContent files).length ∧
      ∀ index part, parts[index]? = some part →
        part.content = (files.map (·.content)).getD index [] ∧
        part.start = front + ((files.map (·.content)).take index).flatten.length ∧
        part.len = ((files.map (·.content)).getD index []).length ∧
        part.cursor = part.filePosition := by
  induction files generalizing front parts total with
  | nil =>
    cases opened
    exact ⟨rfl, rfl, nofun⟩
  | cons file rest ih =>
    have joined : (segmentedContent (file :: rest)).length =
        file.content.length + (segmentedContent rest).length := List.length_append
    unfold openSegmentLoop at opened
    dsimp only at opened
    split_ifs at opened with empty wide
    obtain ⟨⟨tail, last⟩, inner, same⟩ := Except.bind_eq_ok_iff.mp opened
    cases same
    obtain ⟨count, sum, each⟩ := ih inner
    refine ⟨congrArg (· + 1) count, by omega, ?_⟩
    intro index part held
    cases index with
    | zero =>
      cases held
      exact ⟨rfl, rfl, rfl, rfl⟩
    | succ index =>
      obtain ⟨content, start, len, known⟩ := each index part held
      refine ⟨content, ?_, len, known⟩
      rw [start, List.map_cons, List.take_succ_cons, List.flatten_cons, List.length_append]
      omega

theorem lays_of_openParts {reader : SegmentedReader} (opened : openParts files = .ok reader) :
    reader.Lays (files.map (·.content)) ∧ reader.position = 0 := by
  unfold openParts at opened
  split_ifs at opened with empty
  obtain ⟨⟨parts, total⟩, looped, same⟩ := Except.bind_eq_ok_iff.mp opened
  cases same
  obtain ⟨count, sum, each⟩ := segments_of_openSegmentLoop looped
  obtain ⟨-, fits⟩ := openSegmentLoop_eq_ok_iff.mp ⟨_, looped⟩
  have fits := fits (fun none => empty (List.isEmpty_iff.mpr none))
  rw [Nat.zero_add] at sum fits
  refine ⟨⟨?_, ?_, sum, fits, Nat.zero_le _⟩, rfl⟩
  · rw [List.length_map]
    exact count
  · intro index part held
    obtain ⟨content, start, len, known⟩ := each index part held
    exact ⟨content, by rw [start, Nat.zero_add], len, known⟩

/-- **A segmented reader is a file with the joined content.** It opens every non-empty list of
non-empty parts whose length is a `u64`, and however the files cut their reads short, whatever
is read and sought is answered as by one file. -/
theorem segmented_reader_refines_file (files : List PartFile) :
    ((∃ reader, openParts files = .ok reader) ↔
      files ≠ [] ∧ (∀ file ∈ files, file.content ≠ []) ∧ (segmentedContent files).length < 2 ^ 64) ∧
    ∀ reader, openParts files = .ok reader →
      ∀ (short : Nat → Nat) (calls : List ReaderCall),
        reader.answers short calls = flatFileAnswers (segmentedContent files) calls 0 := by
  constructor
  · constructor
    · rintro ⟨reader, opened⟩
      obtain ⟨lays, -⟩ := lays_of_openParts opened
      unfold openParts at opened
      split_ifs at opened with empty
      obtain ⟨inner, looped, -⟩ := Except.bind_eq_ok_iff.mp opened
      exact ⟨fun none => empty (List.isEmpty_iff.mpr none),
        (openSegmentLoop_eq_ok_iff.mp ⟨inner, looped⟩).1, lays.fits⟩
    · rintro ⟨some, all, fits⟩
      obtain ⟨inner, looped⟩ := openSegmentLoop_eq_ok_iff.mpr
        ⟨all, fun _ => by rw [Nat.zero_add]; exact fits⟩
      unfold openParts
      rw [if_neg (fun none => some (List.isEmpty_iff.mp none))]
      exact ⟨_, Except.bind_eq_ok_iff.mpr ⟨inner, looped, rfl⟩⟩
  · intro reader opened short calls
    obtain ⟨lays, start⟩ := lays_of_openParts opened
    rw [lays.answers short calls, start]
    rfl

/-- The parts `abc` and `defg`: behind a seek to 2, a read of three bytes crosses the boundary. -/
theorem read_across_parts : ∃ reader,
    openParts [⟨"one", [97, 98, 99]⟩, ⟨"two", [100, 101, 102, 103]⟩] = .ok reader ∧
      reader.answers (fun _ => 0) [.seek (.start 2), .read 3] =
        [.position (.ok 2), .bytes (.ok [99, 100, 101])] := by
  obtain ⟨opens, refines⟩ := segmented_reader_refines_file
    [⟨"one", [97, 98, 99]⟩, ⟨"two", [100, 101, 102, 103]⟩]
  obtain ⟨reader, opened⟩ := opens.mpr ⟨List.cons_ne_nil _ _, by simp, by decide⟩
  exact ⟨reader, opened, refines reader opened _ _⟩

end ZManager
