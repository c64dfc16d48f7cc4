import ZManager.Cpio.RoundTrip

/-! # Which entries become links

A file is known by its inode and its device. The reader takes the owner of a record
for its device, so two files of one owner that share an inode number on different
devices are one file to it.
-/

namespace ZManager

namespace Cpio

/-- The number that hexadecimal digits stand for. -/
def hexValue (digits : Text) : Nat :=
  digits.foldl (fun number char => number * 16 + (toDigit 16 char).getD 0) 0

/-- A record of an ASCII archive as it stands in the file: thirteen fields of eight
digits, a name and a payload with their padding. -/
structure NewcMember where
  fields : List Text
  name : List UInt8
  namePad : List UInt8
  payload : List UInt8
  payloadPad : List UInt8
  thirteen : fields.length = 13
  digits : ∀ field ∈ fields, field.length = 8 ∧ ∀ char ∈ field, (toDigit 16 char).isSome
  nameSize : hexValue (fields.getD 11 []) = name.length + 1
  namePadding : namePad.length = padding (110 + (name.length + 1)) 4
  payloadSize : hexValue (fields.getD 6 []) = payload.length
  payloadPadding : payloadPad.length = padding payload.length 4

namespace NewcMember

def field (member : NewcMember) (index : Nat) : Nat := hexValue (member.fields.getD index [])

def inode (member : NewcMember) : Nat := member.field 0

def mode (member : NewcMember) : Nat := member.field 1

def owner (member : NewcMember) : Nat × Nat := (member.field 2, member.field 3)

def nlink (member : NewcMember) : Nat := member.field 4

/-- `c_devmajor` and `c_devminor`. -/
def device (member : NewcMember) : Nat × Nat := (member.field 7, member.field 8)

def text (member : NewcMember) : Text := fromUtf8Lossy member.name

def header (isCrc : Bool) (member : NewcMember) : List UInt8 :=
  (if isCrc then crcMagic else newcMagic) ++ member.fields.flatMap utf8Bytes

def bytes (isCrc : Bool) (member : NewcMember) : List UInt8 :=
  member.header isCrc ++ ((member.name ++ [0]) ++ (member.namePad ++ (member.payload ++
      member.payloadPad)))

/-- An empty file with further names. -/
def Empty (member : NewcMember) : Prop :=
  entryKind member.mode = .file ∧ 1 < member.nlink ∧ member.payload = []

/-- The two records are names of one file, and only the second has its content. -/
def LinksTo (member other : NewcMember) : Prop :=
  member.Empty ∧ entryKind other.mode = .file ∧ other.payload ≠ [] ∧
    other.inode = member.inode ∧ other.device = member.device

end NewcMember

/-- A well-formed archive: records up to the first with the name of the trailer, and
whatever stands behind it. -/
structure NewcArchive where
  isCrc : Bool
  members : List NewcMember
  last : NewcMember
  rest : List UInt8
  named : ∀ member ∈ members, member.text ≠ trailerName
  ended : last.text = trailerName

def NewcArchive.bytes (archive : NewcArchive) : List UInt8 :=
  (archive.members ++ [archive.last]).flatMap (NewcMember.bytes archive.isCrc) ++ archive.rest

/-! ## Fields -/

theorem hexValue_append (front : Text) (char : Char) :
    hexValue (front ++ [char]) = hexValue front * 16 + (toDigit 16 char).getD 0 := by
  simp [hexValue]

theorem toDigit_lt {char : Char} {digit : Nat} (found : toDigit 16 char = some digit) :
    digit < 16 := by
  unfold toDigit at found
  have kept := Option.filter_eq_some_iff.mp found
  simpa using kept.2

theorem readDigits_hexValue {digits : Text} (all : ∀ char ∈ digits, (toDigit 16 char).isSome)
    (narrow : digits.length ≤ 16) :
    readDigits 16 0 digits = some (hexValue digits) ∧ hexValue digits < 16 ^ digits.length := by
  induction digits using List.reverseRecOn with
  | nil => exact ⟨rfl, by decide⟩
  | append_singleton front char ih =>
    rw [List.length_append, List.length_singleton] at narrow ⊢
    obtain ⟨read, below⟩ := ih (fun other member => all other (List.mem_append_left _ member))
      (by omega)
    obtain ⟨digit, found⟩ := Option.isSome_iff_exists.mp (all char (by simp))
    have small := toDigit_lt found
    have value : hexValue (front ++ [char]) = hexValue front * 16 + digit := by
      rw [hexValue_append, found]
      rfl
    have bound : hexValue front * 16 + digit < 16 ^ (front.length + 1) := by
      rw [Nat.pow_succ]
      omega
    have most : 16 ^ (front.length + 1) ≤ 2 ^ 64 := by
      have le : 16 ^ (front.length + 1) ≤ 16 ^ 16 := Nat.pow_le_pow_right (by omega) narrow
      omega
    refine ⟨?_, by rw [value]; exact bound⟩
    rw [readDigits_append, read, value]
    simp only [Option.bind_some, readDigits, found]
    rw [if_neg (by omega)]

theorem utf8Size_of_toDigit {char : Char} (found : (toDigit 16 char).isSome) :
    char.utf8Size = 1 := by
  obtain ⟨digit, read⟩ := Option.isSome_iff_exists.mp found
  have ascii : char.val ≤ 0x7f := by
    unfold toDigit at read
    obtain ⟨kept, -⟩ := Option.filter_eq_some_iff.mp read
    split_ifs at kept
    · next kind =>
        simp only [Char.isDigit, Bool.and_eq_true, decide_eq_true_eq] at kind
        exact UInt32.le_trans kind.2 (by decide)
    · next kind =>
        exact UInt32.le_trans (of_decide_eq_true (Bool.and_eq_true_iff.mp kind).2) (by decide)
    · next kind =>
        exact UInt32.le_trans (of_decide_eq_true kind).2 (by decide)
  unfold Char.utf8Size
  exact if_pos ascii

theorem parseHex_digits {path : PathBuf} {digits : Text} (width : digits.length = 8)
    (all : ∀ char ∈ digits, (toDigit 16 char).isSome) :
    parseHex path (utf8Bytes digits) = .ok (hexValue digits) := by
  have read := (readDigits_hexValue all (by omega)).1
  have number : u64FromStrRadix 16 digits = some (hexValue digits) := by
    unfold u64FromStrRadix
    split
    next => cases width
    next rest signed =>
      have refused : (toDigit 16 '+').isSome = false := by decide
      rw [all '+' List.mem_cons_self] at refused
      cases refused
    next => exact read
  unfold parseHex
  rw [fromUtf8_utf8Bytes, Option.getD_some, number]

namespace NewcMember

variable {path : PathBuf} {front back : List UInt8}

theorem length_field (member : NewcMember) {field : Text} (listed : field ∈ member.fields) :
    (utf8Bytes field).length = 8 := by
  obtain ⟨width, all⟩ := member.digits field listed
  rw [length_utf8Bytes_narrow fun char inside => utf8Size_of_toDigit (all char inside), width]

theorem newcFields_header (member : NewcMember) {magic : List UInt8} (width : magic.length = 6) :
    newcFields path (magic ++ member.fields.flatMap utf8Bytes) =
      .ok ((List.range 13).map member.field) := by
  unfold newcFields
  apply Except.mapM_eq_ok
  intro index inside
  rw [List.mem_range] at inside
  have listed : index < member.fields.length := by
    rw [member.thirteen]
    exact inside
  have read := @slice_flatMap _ utf8Bytes 8 index member.fields magic
    (fun field listed => member.length_field listed) listed []
  rw [width] at read
  have present : member.fields.getD index [] ∈ member.fields := by
    rw [List.getD_eq_getElem _ _ listed]
    exact List.getElem_mem listed
  obtain ⟨eight, all⟩ := member.digits _ present
  rw [show 14 + index * 8 = 6 + index * 8 + 8 by omega, read, parseHex_digits eight all]
  rfl

theorem field_lt (member : NewcMember) (index : Nat) : member.field index < 2 ^ 32 := by
  unfold field
  by_cases listed : index < member.fields.length
  · have present : member.fields.getD index [] ∈ member.fields := by
      rw [List.getD_eq_getElem _ _ listed]
      exact List.getElem_mem listed
    obtain ⟨eight, all⟩ := member.digits _ present
    have below := (readDigits_hexValue all (by omega)).2
    rw [eight] at below
    omega
  · rw [List.getD_eq_default _ _ (by omega)]
    decide

/-- What the reader makes of a record. -/
structure Reads (member : NewcMember) (entry : ParsedEntry) : Prop where
  path : entry.path = member.text
  kind : entry.kind = entryKind member.mode
  size : entry.size = member.payload.length
  inode : entry.inode = member.inode
  device : entry.device = member.owner
  nlink : entry.nlink = member.nlink

theorem length_magic (isCrc : Bool) : (if isCrc then crcMagic else newcMagic).length = 6 := by
  cases isCrc with
  | true => rfl
  | false => rfl

theorem length_header (isCrc : Bool) (member : NewcMember) :
    (member.header isCrc).length = 110 := by
  have widths : member.fields.map (fun field => (utf8Bytes field).length) =
      List.replicate 13 8 := by
    rw [List.map_congr_left fun field listed => member.length_field listed, List.map_const',
      member.thirteen]
  rw [header, List.length_append, length_magic, List.length_flatMap, widths]
  rfl

theorem length_bytes (isCrc : Bool) (member : NewcMember) :
    (member.bytes isCrc).length = 110 + (member.name.length + 1) +
      padding (110 + (member.name.length + 1)) 4 + member.payload.length +
        padding member.payload.length 4 := by
  simp only [bytes, List.length_append, length_header, member.namePadding, member.payloadPadding,
    List.length_singleton]
  omega

/-- The record that a reader at the start of a member finds. -/
theorem readRecord_bytes {format : WireFormat} {record : CpioRecord} (member : NewcMember)
    {isCrc : Bool} (ascii : format = if isCrc then .crc else .newc)
    (read : readRecord path (front ++ (member.bytes isCrc ++ back)) front.length format =
      .ok (some record)) :
    record = {
      name := member.text
      mode := member.mode
      mtime := member.field 5
      size := member.field 6
      dataOffset := front.length + 110 + (member.name.length + 1) +
        padding (110 + (member.name.length + 1)) 4
      checksum := if isCrc then some (member.field 12) else none
      inode := member.inode
      device := member.owner
      nlink := member.nlink } := by
  have numbers := @newcFields_header path member _ (length_magic isCrc)
  have start : slice (member.header isCrc) 0 6 = if isCrc then crcMagic else newcMagic :=
    @slice_append [] _ (member.fields.flatMap utf8Bytes) 0 6 rfl (by rw [length_magic])
  have found := @readNewcRecord_header path front
    (member.namePad ++ (member.payload ++ member.payloadPad) ++ back) isCrc _ member.name _
    (member.length_header isCrc) start numbers member.nameSize (member.field_lt 1)
    (member.field_lt 12)
  have reader : readRecord path (front ++ (member.bytes isCrc ++ back)) front.length format =
      readNewcRecord path (front ++ (member.bytes isCrc ++ back)) front.length isCrc := by
    cases isCrc with
    | true =>
      subst ascii
      rfl
    | false =>
      subst ascii
      rfl
  have shape : member.bytes isCrc ++ back = member.header isCrc ++ ((member.name ++ [0]) ++
      (member.namePad ++ (member.payload ++ member.payloadPad) ++ back)) := by
    simp only [bytes, List.append_assoc]
  rw [reader, shape, found] at read
  by_cases long : maxNameBytes < member.name.length + 1
  · rw [if_pos long] at read
    cases read
  · rw [if_neg long] at read
    cases read
    rfl

/-- The entry that the reader makes of a member, and where it goes on. -/
theorem readEntry_bytes {format : WireFormat} {record : CpioRecord} {entry : ParsedEntry}
    {archive : List UInt8} {index next : Nat} (member : NewcMember) {isCrc : Bool}
    (ascii : format = if isCrc then .crc else .newc)
    (read : readRecord path (front ++ (member.bytes isCrc ++ back)) front.length format =
      .ok (some record))
    (entered : readEntry path archive format index record = .ok (entry, next)) :
    entry.index = index ∧ member.Reads entry ∧
      next = (front ++ member.bytes isCrc).length := by
  have same := member.readRecord_bytes ascii read
  subst same
  obtain ⟨target, -, entered⟩ := Except.bind_eq_ok_iff.mp entered
  obtain ⟨position, skipped, entered⟩ := Except.bind_eq_ok_iff.mp entered
  cases entered
  have aligned : WireFormat.alignment format = 4 := by
    rw [ascii]
    cases isCrc with
    | true => rfl
    | false => rfl
  have size : member.field 6 = member.payload.length := member.payloadSize
  unfold skipPayload at skipped
  simp only [aligned, size] at skipped
  split_ifs at skipped
  cases skipped
  refine ⟨rfl, ⟨rfl, rfl, size, rfl, rfl, rfl⟩, ?_⟩
  rw [List.length_append, length_bytes]
  omega

end NewcMember

/-! ## Archives -/

section

variable {path : PathBuf}

/-- The entries of an archive are those of its members. -/
theorem parseRecords_members {format : WireFormat} {isCrc : Bool} {members : List NewcMember}
    {last : NewcMember} {rest front : List UInt8} {entries result : List ParsedEntry}
    (ascii : format = if isCrc then .crc else .newc)
    (named : ∀ member ∈ members, member.text ≠ trailerName) (ended : last.text = trailerName)
    (parsed : parseRecords path
      (front ++ ((members ++ [last]).flatMap (NewcMember.bytes isCrc) ++ rest)) format front.length
        entries = .ok result) :
    ∃ read, result = entries ++ read ∧ List.Forall₂ NewcMember.Reads members read ∧
      ∀ (place : Nat) (entry : ParsedEntry), read[place]? = some entry →
        entry.index = entries.length + place := by
  induction members generalizing front entries with
  | nil =>
    obtain ⟨record, read, outcome⟩ := parseRecords_ok parsed
    rw [List.nil_append, List.flatMap_singleton] at read
    have found := last.readRecord_bytes ascii read
    rcases outcome with ⟨-, same⟩ | ⟨other, -⟩
    · refine ⟨[], by rw [same, List.append_nil], .nil, ?_⟩
      intro place entry listed
      cases listed
    · rw [found] at other
      exact absurd ended other
  | cons member more ih =>
    obtain ⟨record, read, outcome⟩ := parseRecords_ok parsed
    rw [List.cons_append, List.flatMap_cons, List.append_assoc] at read parsed
    have found := member.readRecord_bytes ascii read
    rcases outcome with ⟨same, -⟩ | ⟨-, entry, next, entered, later⟩
    · rw [found] at same
      exact absurd same (named member List.mem_cons_self)
    obtain ⟨index, reads, rfl⟩ := member.readEntry_bytes ascii read entered
    rw [List.cons_append, List.flatMap_cons, List.append_assoc, ← List.append_assoc front]
      at later
    obtain ⟨others, same, related, indexed⟩ :=
      ih (fun other inside => named other (List.mem_cons_of_mem _ inside)) later
    refine ⟨entry :: others, ?_, .cons reads related, ?_⟩
    · rw [same, List.append_assoc]
      rfl
    · intro place later listed
      cases place with
      | zero =>
        cases listed
        exact index
      | succ place =>
        have known := indexed place later listed
        rw [List.length_append, List.length_singleton] at known
        omega

theorem detectFormat_newc {archive : NewcArchive} :
    detectFormat path archive.bytes = .ok (if archive.isCrc then .crc else .newc) := by
  have start : ∃ back, archive.bytes =
      (if archive.isCrc then crcMagic else newcMagic) ++ back := by
    have first : ∀ (member : NewcMember) (back : List UInt8), ∃ behind,
        member.bytes archive.isCrc ++ back =
          (if archive.isCrc then crcMagic else newcMagic) ++ behind := by
      intro member back
      unfold NewcMember.bytes NewcMember.header
      rw [List.append_assoc, List.append_assoc]
      exact ⟨_, rfl⟩
    unfold NewcArchive.bytes
    cases archive.members with
    | nil =>
      rw [List.nil_append, List.flatMap_singleton]
      exact first archive.last _
    | cons member more =>
      rw [List.cons_append, List.flatMap_cons, List.append_assoc]
      exact first member _
  obtain ⟨back, shape⟩ := start
  have read := @readExact_append path [] back _ 6 (NewcMember.length_magic archive.isCrc)
  unfold detectFormat
  rw [shape]
  rw [List.nil_append, List.length_nil] at read
  rw [read]
  cases archive.isCrc with
  | true => rfl
  | false => rfl

/-- **The listing of a well-formed archive.** -/
theorem parse_newc {archive : NewcArchive} {entries : List ParsedEntry}
    (parsed : parse path archive.bytes = .ok entries) :
    ∃ read, List.Forall₂ NewcMember.Reads archive.members read ∧
      entries = read.map (withHardlink read) := by
  unfold parse at parsed
  rw [detectFormat_newc] at parsed
  obtain ⟨format, detected, parsed⟩ := Except.bind_eq_ok_iff.mp parsed
  cases detected
  obtain ⟨read, listed, parsed⟩ := Except.bind_eq_ok_iff.mp parsed
  cases parsed
  obtain ⟨others, same, related, indexed⟩ :=
    @parseRecords_members path _ archive.isCrc archive.members archive.last archive.rest [] [] _
      rfl archive.named archive.ended listed
  rw [List.nil_append] at same
  subst same
  refine ⟨read, related, assignHardlinks_eq_map ?_⟩
  intro place entry present
  have known := indexed place entry present
  rw [List.length_nil, Nat.zero_add] at known
  exact known

/-- The record that the reader takes for the content of an empty member: the first
with its inode and its owner that is not empty. -/
def NewcMember.takenSource (members : List NewcMember) (member : NewcMember) :
    Option NewcMember :=
  members.find? fun other =>
    entryKind other.mode = .file && other.payload.length ≠ 0 && other.inode = member.inode &&
      other.owner = member.owner

/-- Every link that is listed names a record of the same file. -/
def LinksIdentified (members : List NewcMember) (entries : List ParsedEntry) : Prop :=
  ∀ (index : Nat) (member : NewcMember) (entry : ParsedEntry),
    members[index]? = some member → entries[index]? = some entry → entry.kind = .hardlink →
      ∃ other ∈ members, entry.linkTarget = some other.text ∧ member.LinksTo other

theorem find?_related {α β : Type} {related : α → β → Prop} {left : List α} {right : List β}
    {holds : α → Bool} {agrees : β → Bool} (pairs : List.Forall₂ related left right)
    (same : ∀ first second, related first second → holds first = agrees second) :
    Option.Rel related (left.find? holds) (right.find? agrees) := by
  induction pairs with
  | nil => exact .none
  | @cons first second rest others head _ ih =>
    rw [List.find?_cons, List.find?_cons, same first second head]
    cases agrees second with
    | true => exact .some head
    | false => exact ih

theorem getElem?_related {α β : Type} {related : α → β → Prop} {left : List α} {right : List β}
    {index : Nat} {first : α} (pairs : List.Forall₂ related left right)
    (listed : left[index]? = some first) :
    ∃ second, right[index]? = some second ∧ related first second := by
  induction pairs generalizing index with
  | nil => cases listed
  | @cons head other rest others matched _ ih =>
    cases index with
    | zero =>
      cases listed
      exact ⟨other, rfl, matched⟩
    | succ index => exact ih listed

theorem linkSource_related {members : List NewcMember} {read : List ParsedEntry}
    {member : NewcMember} {entry : ParsedEntry}
    (related : List.Forall₂ NewcMember.Reads members read) (reads : member.Reads entry) :
    Option.Rel NewcMember.Reads (member.takenSource members)
      (linkSource read entry.inode entry.device) := by
  apply find?_related related
  intro other candidate found
  rw [found.kind, found.size, found.inode, found.device, reads.inode, reads.device]

theorem entryKind_ne_hardlink (mode : Nat) : entryKind mode ≠ .hardlink := by
  unfold entryKind
  simp only
  split_ifs
  all_goals decide

section

variable {members : List NewcMember} {read : List ParsedEntry} {member : NewcMember}
variable {entry : ParsedEntry}

theorem NewcMember.Reads.candidate_iff (reads : member.Reads entry) :
    (entry.kind = .file ∧ 1 < entry.nlink ∧ entry.size = 0) ↔ member.Empty := by
  unfold NewcMember.Empty
  rw [reads.kind, reads.nlink, reads.size, List.length_eq_zero_iff]

/-- An empty file for which content is taken becomes a link to it. -/
theorem withHardlink_of_taken {source : NewcMember}
    (related : List.Forall₂ NewcMember.Reads members read) (reads : member.Reads entry)
    (empty : member.Empty) (taken : member.takenSource members = some source) :
    (withHardlink read entry).kind = .hardlink ∧
      (withHardlink read entry).linkTarget = some source.text := by
  have sources := linkSource_related related reads
  rw [taken] at sources
  unfold withHardlink
  rw [if_pos (reads.candidate_iff.mpr empty)]
  generalize linkSource read entry.inode entry.device = found at sources ⊢
  cases sources with
  | some matched => exact ⟨rfl, congrArg some matched.path⟩

/-- Only such files become links. -/
theorem taken_of_withHardlink (related : List.Forall₂ NewcMember.Reads members read)
    (reads : member.Reads entry) (linked : (withHardlink read entry).kind = .hardlink) :
    member.Empty ∧ ∃ source, member.takenSource members = some source := by
  have sources := linkSource_related related reads
  have unlinked : entry.kind ≠ .hardlink := by
    rw [reads.kind]
    exact entryKind_ne_hardlink member.mode
  unfold withHardlink at linked
  by_cases candidate : entry.kind = .file ∧ 1 < entry.nlink ∧ entry.size = 0
  · rw [if_pos candidate] at linked
    refine ⟨reads.candidate_iff.mp candidate, ?_⟩
    generalize linkSource read entry.inode entry.device = found at sources linked
    generalize member.takenSource members = taken at sources ⊢
    cases sources with
    | none => exact absurd linked unlinked
    | @some source target matched => exact ⟨source, rfl⟩
  · rw [if_neg candidate] at linked
    exact absurd linked unlinked

end

/-- **Which links are right.** Every listed link names a record with the same inode and
the same device exactly when, for every empty file with further names, the first
record of its inode and owner that has content shares its name with one that is on
the same device too. -/
theorem cpio_hardlinks_identified_iff {archive : NewcArchive} {entries : List ParsedEntry}
    (parsed : parse path archive.bytes = .ok entries) :
    LinksIdentified archive.members entries ↔
      ∀ member ∈ archive.members, member.Empty →
        ∀ source, member.takenSource archive.members = some source →
          ∃ other ∈ archive.members, other.text = source.text ∧ member.LinksTo other := by
  obtain ⟨read, related, rfl⟩ := parse_newc parsed
  constructor
  · intro identified member inside empty source taken
    obtain ⟨index, listed⟩ := List.mem_iff_getElem?.mp inside
    obtain ⟨entry, present, reads⟩ := getElem?_related related listed
    obtain ⟨linked, target⟩ := withHardlink_of_taken related reads empty taken
    obtain ⟨other, known, named, links⟩ := identified index member (withHardlink read entry) listed
      (by rw [List.getElem?_map, present]; rfl) linked
    rw [target] at named
    exact ⟨other, known, (Option.some.inj named).symm, links⟩
  · intro condition index member entry listed found linked
    obtain ⟨before, present, reads⟩ := getElem?_related related listed
    rw [List.getElem?_map, present] at found
    cases found
    obtain ⟨empty, source, taken⟩ := taken_of_withHardlink related reads linked
    obtain ⟨other, inside, same, links⟩ :=
      condition member (List.mem_of_getElem? listed) empty source taken
    have target := (withHardlink_of_taken related reads empty taken).2
    exact ⟨other, inside, by rw [target, same], links⟩

end

/-! ## Two records -/

theorem hexValue_fixedDigits {number : Nat} (fits : number < 16 ^ 8) :
    hexValue (fixedDigits 16 8 number) = number := by
  have read := @readDigits_fixedDigits 16 8 number (by omega) (by omega) fits (by omega)
  have all : ∀ char ∈ fixedDigits 16 8 number, (toDigit 16 char).isSome := by
    intro char inside
    obtain ⟨digit, below, rfl⟩ := mem_fixedDigits (by omega) inside
    rw [toDigit_digitChar below (by omega)]
    rfl
  have value := (readDigits_hexValue all (by rw [length_fixedDigits]; omega)).1
  rw [read] at value
  exact (Option.some.inj value).symm

/-- The record of a source. -/
def NewcMember.ofSource (source : CpioSource) (fits : FitsFields .newc source) : NewcMember where
  fields := (asciiFields source 0).map (fixedDigits 16 8)
  name := utf8Bytes source.name
  namePad := zeros (padding (110 + ((utf8Bytes source.name).length + 1)) 4)
  payload := source.payload
  payloadPad := zeros (padding source.payload.length 4)
  thirteen := rfl
  digits := by
    intro field listed
    obtain ⟨number, -, rfl⟩ := List.mem_map.mp listed
    refine ⟨length_fixedDigits _ _, ?_⟩
    intro char inside
    obtain ⟨digit, below, rfl⟩ := mem_fixedDigits (by omega) inside
    rw [toDigit_digitChar below (by omega)]
    rfl
  nameSize := hexValue_fixedDigits (fits source.nameSize (by simp [asciiFields]))
  namePadding := List.length_replicate
  payloadSize := hexValue_fixedDigits (fits source.payload.length (by simp [asciiFields]))
  payloadPadding := List.length_replicate

theorem NewcMember.bytes_ofSource (source : CpioSource) (fits : FitsFields .newc source) :
    (ofSource source fits).bytes false = encodeRecord .newc source := by
  unfold bytes header ofSource encodeRecord encodeHeader
  simp only [List.flatMap_map]
  rfl

theorem NewcMember.text_ofSource (source : CpioSource) (fits : FitsFields .newc source) :
    (ofSource source fits).text = source.name :=
  fromUtf8Lossy_utf8Bytes source.name

/-- An archive with the records of two sources. -/
def NewcArchive.pair (first second : CpioSource) (firstFits : FitsFields .newc first)
    (secondFits : FitsFields .newc second) (firstNamed : first.name ≠ trailerName)
    (secondNamed : second.name ≠ trailerName) : NewcArchive where
  isCrc := false
  members := [.ofSource first firstFits, .ofSource second secondFits]
  last := .ofSource trailer (fitsFields_trailer .newc)
  rest := []
  named := by
    intro member inside
    rcases List.mem_cons.mp inside with rfl | inside
    · rw [NewcMember.text_ofSource]
      exact firstNamed
    · rw [List.mem_singleton.mp inside, NewcMember.text_ofSource]
      exact secondNamed
  ended := NewcMember.text_ofSource trailer _

theorem NewcArchive.bytes_pair (first second : CpioSource) (firstFits : FitsFields .newc first)
    (secondFits : FitsFields .newc second) (firstNamed : first.name ≠ trailerName)
    (secondNamed : second.name ≠ trailerName) :
    (pair first second firstFits secondFits firstNamed secondNamed).bytes =
      encodeArchive .newc [first, second] := by
  simp [bytes, pair, NewcMember.bytes_ofSource, encodeArchive]

/-- A file with content on device `(8, 1)`, of user `1000` and group `100`. -/
def contentSource : CpioSource :=
  ⟨"a".toList, 0o100644, 0, 5, (8, 1), 1000, 100, 2, (0, 0), [104, 105]⟩

/-- A further name of inode `5` of the same owner on some device. -/
def emptySource (device : Nat × Nat) : CpioSource :=
  ⟨"b".toList, 0o100644, 0, 5, device, 1000, 100, 2, (0, 0), []⟩

theorem emptySource_named (device : Nat × Nat) : (emptySource device).name ≠ trailerName := by
  change "b".toList ≠ trailerName
  decide

/-- The content and the further name on a device, in one archive. -/
def twoNames (device : Nat × Nat) (fits : FitsFields .newc (emptySource device)) : NewcArchive :=
  NewcArchive.pair contentSource (emptySource device) (by decide +kernel) fits (by decide)
    (emptySource_named device)

theorem parse_twoNames {device : Nat × Nat} (fits : FitsFields .newc (emptySource device))
    (isFile : (encodeArchive .newc [contentSource, emptySource device]).length < 2 ^ 64) :
    parse (PathBuf.ofText "a.cpio".toList) (twoNames device fits).bytes =
      .ok ((entriesOf .newc 0 0 [contentSource, emptySource device]).map
        (withHardlink (entriesOf .newc 0 0 [contentSource, emptySource device]))) := by
  unfold twoNames
  rw [NewcArchive.bytes_pair]
  apply parse_encoded
  · intro source inside
    rcases List.mem_cons.mp inside with rfl | inside
    · decide +kernel
    · rw [List.mem_singleton.mp inside]
      exact fits
  · intro source inside
    rcases List.mem_cons.mp inside with rfl | inside
    · decide
    · rw [List.mem_singleton.mp inside]
      exact emptySource_named device
  · exact isFile
  · intro source inside
    rcases List.mem_cons.mp inside with rfl | inside
    · decide +kernel
    · rw [List.mem_singleton.mp inside]
      exact show 2 ≤ maxNameBytes by decide

/-- On one device the further name is a link to the content. -/
theorem cpio_hardlinks_identified_same_device : ∃ entries,
    parse (PathBuf.ofText "a.cpio".toList) (twoNames (8, 1) (by decide +kernel)).bytes =
        .ok entries ∧
      LinksIdentified (twoNames (8, 1) (by decide +kernel)).members entries := by
  have parsed := @parse_twoNames (8, 1) (by decide +kernel) (by decide +kernel)
  refine ⟨_, parsed, (cpio_hardlinks_identified_iff parsed).mpr ?_⟩
  intro member inside empty source taken
  rcases List.mem_cons.mp inside with rfl | inside
  · cases empty.2.2
  · rw [List.mem_singleton.mp inside] at empty taken ⊢
    refine ⟨_, List.mem_cons_self, ?_, empty, by decide +kernel, by decide +kernel,
      by decide +kernel, by decide +kernel⟩
    have named := congrArg (Option.map NewcMember.text) taken
    rw [Option.map_some] at named
    have first : (NewcMember.takenSource (twoNames (8, 1) (by decide +kernel)).members
        (.ofSource (emptySource (8, 1)) (by decide +kernel))).map NewcMember.text =
          some contentSource.name := by
      decide +kernel
    rw [NewcMember.text_ofSource]
    exact Option.some.inj (first.symm.trans named)

/-- A file of the same owner with the same inode number on another device is linked. -/
theorem cpio_hardlink_across_devices : ∃ entries,
    parse (PathBuf.ofText "a.cpio".toList) (twoNames (8, 2) (by decide +kernel)).bytes =
        .ok entries ∧
      ¬ LinksIdentified (twoNames (8, 2) (by decide +kernel)).members entries := by
  refine ⟨_, parse_twoNames _ (by decide +kernel), ?_⟩
  intro identified
  obtain ⟨other, inside, -, links⟩ := identified 1 _ _ rfl rfl (by decide +kernel)
  rcases List.mem_cons.mp inside with rfl | inside
  · exact absurd links.2.2.2.2 (by decide +kernel)
  · rw [List.mem_singleton.mp inside] at links
    exact links.2.2.1 rfl

end Cpio

end ZManager
