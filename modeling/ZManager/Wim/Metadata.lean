import Mathlib.Data.Prod.Lex
import ZManager.Foundation.Utf16

/-! # The directory tree of a WIM metadata resource

A resource is a security block, a root entry and lists of sibling entries that are reached
through offsets. Offsets and lengths are words; the reader stops with an error or, where it
takes a range that is none, with a panic.
-/

namespace ZManager

open Bytes

namespace Wim

/-- The kind of a file in an image. -/
inductive WimEntryKind where
  | file
  | directory
  | symlink
  deriving Repr, DecidableEq

/-- One normalized WIM entry. -/
structure WimEntry where
  index : Nat
  path : Text
  kind : WimEntryKind
  size : Nat
  linkTarget : Option Text
  sha1 : List UInt8
  reparseTag : Nat
  deriving Repr, DecidableEq

def dentryFixedSize : Nat := 102

def fileAttributeDirectory : Nat := 0x00000010

def fileAttributeReparsePoint : Nat := 0x00000400

def ioReparseTagMountPoint : Nat := 0xa0000003

def ioReparseTagSymlink : Nat := 0xa000000c

def streamEntryFixedSize : Nat := 38

def maxDentryDepth : Nat := 512

/-- The hash of no stream. -/
def noHash : List UInt8 := List.replicate 20 0

/-- One decoded directory entry: the fixed portion and its name. -/
structure Dentry where
  length : Nat
  attributes : Nat
  subdirOffset : Nat
  sha1 : List UInt8
  reparseTag : Nat
  numExtraStreams : Nat
  name : Text

namespace Dentry

variable (dentry : Dentry)

def isDirectory : Prop := dentry.attributes &&& fileAttributeDirectory ≠ 0

def isReparsePoint : Prop := dentry.attributes &&& fileAttributeReparsePoint ≠ 0

instance : Decidable dentry.isDirectory := inferInstanceAs (Decidable (_ ≠ _))

instance : Decidable dentry.isReparsePoint := inferInstanceAs (Decidable (_ ≠ _))

def isLinkReparsePoint : Prop := dentry.isReparsePoint ∧
  (dentry.reparseTag = ioReparseTagSymlink ∨ dentry.reparseTag = ioReparseTagMountPoint)

instance : Decidable dentry.isLinkReparsePoint := inferInstanceAs (Decidable (_ ∧ _))

def kind : WimEntryKind :=
  if dentry.isLinkReparsePoint then .symlink
  else if dentry.isDirectory then .directory else .file

/-- A name is one path component; anything else is dropped. -/
def hasUsableName : Prop :=
  dentry.name ≠ [] ∧ dentry.name ≠ ['.'] ∧ dentry.name ≠ ['.', '.'] ∧ '/' ∉ dentry.name ∧
    '\\' ∉ dentry.name ∧ Char.ofNat 0 ∉ dentry.name

instance : Decidable dentry.hasUsableName := inferInstanceAs (Decidable (_ ∧ _))

/-- A reparse point can carry the directory attribute without a child list. -/
def hasList (size : Nat) : Prop :=
  dentry.isDirectory ∧ ¬dentry.isReparsePoint ∧ 0 < dentry.subdirOffset ∧
    dentry.subdirOffset < size

instance (size : Nat) : Decidable (dentry.hasList size) := inferInstanceAs (Decidable (_ ∧ _))

end Dentry

/-! ## Reading -/

abbrev Parsed (α : Type) := Except (Stop String) α

/-- Pairs of bytes as little-endian units; a byte left over is dropped. -/
def utf16Units : List UInt8 → List Nat
  | low :: high :: rest => (low.toNat + 256 * high.toNat) :: utf16Units rest
  | _ => []

/-- `trim_end_matches('\0')`. -/
def trimNuls (text : Text) : Text := text.rdropWhile (· = Char.ofNat 0)

/-- Decodes a UTF-16LE name field, stopping at the declared byte length. -/
def readUtf16Name (dentry : List UInt8) (offset nbytes : Nat) : Parsed Text := do
  if nbytes = 0 ∨ dentry.length < wrappingAdd offset nbytes then return []
  let field ← slice dentry offset (wrappingAdd offset nbytes)
  return trimNuls (Utf16.decodeLossy (utf16Units field))

/-- Reads one directory entry. There is none behind the end or at a length of zero. -/
def readDentry (buf : Slice) (offset : Nat) : Parsed (Option Dentry) := do
  if buf.bytes.length < wrappingAdd offset 8 then return none
  let field ← slice buf.bytes offset (wrappingAdd offset 8)
  let length := readU64 field 0
  if length = 0 then return none
  if length < dentryFixedSize ∨ buf.bytes.length < wrappingAdd offset length then
    throw (.refused (s!"directory entry at offset {offset} declares {length} bytes, " ++
      "outside the metadata resource"))
  let dentry ← slice buf.bytes offset (wrappingAdd offset length)
  let attributes ← slice dentry 8 12
  let subdirOffset ← slice dentry 16 24
  let sha1 ← slice dentry 64 84
  let reparseTag ← slice dentry 88 92
  let numExtraStreams ← slice dentry 96 98
  let fileNameNbytes ← slice dentry 100 102
  let name ← readUtf16Name dentry dentryFixedSize (readU16 fileNameNbytes 0)
  return some ⟨length, readU32 attributes 0, readU64 subdirOffset 0, sha1, readU32 reparseTag 0,
    readU16 numExtraStreams 0, name⟩

/-- Reads the extra stream entries that follow a directory entry: where the next sibling
starts, and the hash of the unnamed stream. -/
def readExtraStreams (buf : Slice) : (count index offset : Nat) → Option (List UInt8) →
    Parsed (Nat × Option (List UInt8))
  | 0, _, offset, unnamed => return (offset, unnamed)
  | count + 1, index, offset, unnamed =>
    if buf.bytes.length < wrappingAdd offset streamEntryFixedSize then
      throw (.refused s!"stream entry {index} at offset {offset} runs past the metadata resource")
    else do
      let field ← slice buf.bytes offset (wrappingAdd offset 8)
      let length := readU64 field 0
      if length < streamEntryFixedSize ∨ buf.bytes.length < wrappingAdd offset length then
        throw (.refused (s!"stream entry {index} at offset {offset} declares {length} bytes, " ++
          "outside the metadata resource"))
      else do
        let hash ← slice buf.bytes (wrappingAdd offset 16) (wrappingAdd offset 36)
        let nameNbytes ← slice buf.bytes (wrappingAdd offset 36) (wrappingAdd offset 38)
        if 2 ^ 64 ≤ offset + align8 length then throw (.refused "stream entry offset overflow")
        else
          readExtraStreams buf count (index + 1) (offset + align8 length)
            (if readU16 nameNbytes 0 = 0 ∧ unnamed = none ∧ hash ≠ noHash then some hash
              else unnamed)

/-! ## What is read without a panic -/

section

variable {buf : Slice} {offset : Nat}

variable {unnamed : Option (List UInt8)}

/-- The length that an entry at an offset declares. -/
def declaredLength (buf : Slice) (offset : Nat) : Nat := readU64 buf.bytes offset

/-- The entry of a length at an offset. -/
def dentryAt (buf : Slice) (offset : Nat) : Dentry :=
  ⟨declaredLength buf offset, readU32 buf.bytes (offset + 8), readU64 buf.bytes (offset + 16),
    (buf.bytes.drop (offset + 64)).take 20, readU32 buf.bytes (offset + 88),
    readU16 buf.bytes (offset + 96),
    if readU16 buf.bytes (offset + 100) = 0 ∨
        declaredLength buf offset < dentryFixedSize + readU16 buf.bytes (offset + 100) then []
    else trimNuls (Utf16.decodeLossy (utf16Units
      ((buf.bytes.drop (offset + 102)).take (readU16 buf.bytes (offset + 100)))))⟩

theorem readUtf16Name_eq {dentry : List UInt8} {start nbytes : Nat}
    (fits : start + nbytes < 2 ^ 64) :
    readUtf16Name dentry start nbytes =
      .ok (if nbytes = 0 ∨ dentry.length < start + nbytes then []
        else trimNuls (Utf16.decodeLossy (utf16Units ((dentry.drop start).take nbytes)))) := by
  unfold readUtf16Name
  rw [wrappingAdd_of_lt fits]
  by_cases short : nbytes = 0 ∨ dentry.length < start + nbytes
  · rw [if_pos short, if_pos short]
    rfl
  · rw [if_neg short, if_neg short]
    push Not at short
    rw [slice_of_le (Nat.le_add_right _ _) short.2, Nat.add_sub_cancel_left]
    rfl

theorem readUtf16Name_dentryAt (inside : offset + declaredLength buf offset ≤ buf.bytes.length) :
    readUtf16Name ((buf.bytes.drop offset).take (declaredLength buf offset)) dentryFixedSize
      (readU16 buf.bytes (offset + 100)) = .ok (dentryAt buf offset).name := by
  have nbytes := Bytes.readU16_lt buf.bytes (offset + 100)
  have width : ((buf.bytes.drop offset).take (declaredLength buf offset)).length =
      declaredLength buf offset := by
    rw [List.length_take, List.length_drop]
    omega
  rw [readUtf16Name_eq (by unfold dentryFixedSize; omega), width]
  unfold dentryAt
  by_cases short : readU16 buf.bytes (offset + 100) = 0 ∨
      declaredLength buf offset < dentryFixedSize + readU16 buf.bytes (offset + 100)
  · rw [if_pos short, if_pos short]
  · rw [if_neg short, if_neg short, take_drop_take_drop (by omega)]
    rfl

/-- An entry inside the resource is read. -/
theorem readDentry_of_inside (long : dentryFixedSize ≤ declaredLength buf offset)
    (inside : offset + declaredLength buf offset ≤ buf.bytes.length) :
    readDentry buf offset = .ok (some (dentryAt buf offset)) := by
  have addressable := buf.addressable
  have long' : 102 ≤ declaredLength buf offset := long
  have size : readU64 ((buf.bytes.drop offset).take (offset + 8 - offset)) 0 =
      declaredLength buf offset := readU64_take_drop (by omega)
  unfold readDentry
  rw [wrappingAdd_of_lt (by omega), if_neg (by omega), slice_of_le (by omega) (by omega)]
  change (if readU64 ((buf.bytes.drop offset).take (offset + 8 - offset)) 0 = 0 then _ else _) = _
  rw [size, if_neg (by omega), wrappingAdd_of_lt (by omega), if_neg (by omega),
    slice_of_le (by omega) inside, Nat.add_sub_cancel_left]
  -- the fields one after the other
  simp only [bind, Except.bind]
  rw [slice_take_drop (by decide) (by omega) inside]
  dsimp only
  rw [slice_take_drop (by decide) (by omega) inside]
  dsimp only
  rw [slice_take_drop (by decide) (by omega) inside]
  dsimp only
  rw [slice_take_drop (by decide) (by omega) inside]
  dsimp only
  rw [slice_take_drop (by decide) (by omega) inside]
  dsimp only
  rw [slice_take_drop (by decide) (by omega) inside]
  dsimp only
  rw [readU16_take_drop (by decide), readU32_take_drop (by decide), readU64_take_drop (by decide),
    readU32_take_drop (by decide), readU16_take_drop (by decide)]
  simp only [Nat.add_zero]
  rw [readUtf16Name_dentryAt inside]
  rfl

/-- Behind the end, and at a length of zero, there is no entry. -/
theorem readDentry_of_none (small : offset < 2 ^ 64 - 8)
    (nothing : buf.bytes.length < offset + 8 ∨ declaredLength buf offset = 0) :
    readDentry buf offset = .ok none := by
  have addressable := buf.addressable
  unfold readDentry
  rw [wrappingAdd_of_lt (by omega)]
  by_cases behind : buf.bytes.length < offset + 8
  · rw [if_pos behind]
    rfl
  · rw [if_neg behind, slice_of_le (by omega) (by omega)]
    change (if readU64 ((buf.bytes.drop offset).take (offset + 8 - offset)) 0 = 0 then _ else _) = _
    rw [readU64_take_drop (by omega)]
    exact if_pos (nothing.resolve_left behind)

/-- An entry whose end is an address behind the resource is refused. -/
theorem readDentry_of_outside (inside : offset + 8 ≤ buf.bytes.length)
    (some : declaredLength buf offset ≠ 0)
    (fits : offset + declaredLength buf offset < 2 ^ 64)
    (outside : declaredLength buf offset < dentryFixedSize ∨
      buf.bytes.length < offset + declaredLength buf offset) :
    ∃ message, readDentry buf offset = .error (.refused message) := by
  have addressable := buf.addressable
  have size : readU64 ((buf.bytes.drop offset).take (offset + 8 - offset)) 0 =
      declaredLength buf offset := readU64_take_drop (by omega)
  unfold readDentry
  rw [wrappingAdd_of_lt (by omega), if_neg (by omega), slice_of_le (by omega) inside]
  change ∃ message, (if readU64 ((buf.bytes.drop offset).take (offset + 8 - offset)) 0 = 0 then _
    else _) = _
  rw [size, if_neg some, wrappingAdd_of_lt fits, if_pos outside]
  exact ⟨_, rfl⟩

/-- The end of the entry wraps. -/
def Wraps (buf : Slice) (offset : Nat) : Prop :=
  offset + 8 ≤ buf.bytes.length ∧ 2 ^ 64 ≤ offset + declaredLength buf offset

/-- **An entry whose end wraps is sliced backwards.** -/
theorem readDentry_of_wraps (wraps : Wraps buf offset) :
    readDentry buf offset = .error .panicked := by
  have addressable := buf.addressable
  have small : declaredLength buf offset < 2 ^ 64 := Bytes.readU64_lt _ _
  have size : readU64 ((buf.bytes.drop offset).take (offset + 8 - offset)) 0 =
      declaredLength buf offset := readU64_take_drop (by omega)
  obtain ⟨inside, wraps⟩ := wraps
  have long : ¬declaredLength buf offset < dentryFixedSize := by
    unfold dentryFixedSize
    omega
  unfold readDentry
  rw [wrappingAdd_of_lt (by omega), if_neg (by omega), slice_of_le (by omega) inside]
  change (if readU64 ((buf.bytes.drop offset).take (offset + 8 - offset)) 0 = 0 then _ else _) = _
  rw [size, if_neg (by omega), wrappingAdd_of_le (by omega) small wraps, if_neg (by omega),
    slice_of_lt (by omega)]
  rfl

/-- What reading an entry comes to. -/
theorem readDentry_cases (small : offset < 2 ^ 64 - 8) :
    readDentry buf offset = .ok none ∨
    (dentryFixedSize ≤ declaredLength buf offset ∧
      offset + declaredLength buf offset ≤ buf.bytes.length ∧
      readDentry buf offset = .ok (some (dentryAt buf offset))) ∨
    (¬Wraps buf offset ∧ ∃ message, readDentry buf offset = .error (.refused message)) ∨
    (Wraps buf offset ∧ readDentry buf offset = .error .panicked) := by
  by_cases behind : buf.bytes.length < offset + 8
  · exact .inl (readDentry_of_none small (.inl behind))
  by_cases zero : declaredLength buf offset = 0
  · exact .inl (readDentry_of_none small (.inr zero))
  by_cases wraps : Wraps buf offset
  · exact .inr (.inr (.inr ⟨wraps, readDentry_of_wraps wraps⟩))
  have fits : offset + declaredLength buf offset < 2 ^ 64 := by
    unfold Wraps at wraps
    omega
  by_cases outside : declaredLength buf offset < dentryFixedSize ∨
      buf.bytes.length < offset + declaredLength buf offset
  · exact .inr (.inr (.inl ⟨wraps, readDentry_of_outside (by omega) zero fits outside⟩))
  · push Not at outside
    exact .inr (.inl ⟨outside.1, outside.2, readDentry_of_inside outside.1 outside.2⟩)

/-- The first stream entry at an offset. -/
theorem readExtraStreams_succ (count : Nat) {index : Nat}
    (inside : offset + streamEntryFixedSize ≤ buf.bytes.length) :
    readExtraStreams buf (count + 1) index offset unnamed =
      if declaredLength buf offset < streamEntryFixedSize ∨
          buf.bytes.length < wrappingAdd offset (declaredLength buf offset) then
        throw (.refused (s!"stream entry {index} at offset {offset} declares {
          declaredLength buf offset} bytes, " ++ "outside the metadata resource"))
      else if 2 ^ 64 ≤ offset + align8 (declaredLength buf offset) then
        throw (.refused "stream entry offset overflow")
      else readExtraStreams buf count (index + 1) (offset + align8 (declaredLength buf offset))
        (if readU16 buf.bytes (offset + 36) = 0 ∧ unnamed = none ∧
          (buf.bytes.drop (offset + 16)).take 20 ≠ noHash then
            some ((buf.bytes.drop (offset + 16)).take 20)
          else unnamed) := by
  have addressable := buf.addressable
  have inside' : offset + 38 ≤ buf.bytes.length := inside
  have fixed : wrappingAdd offset streamEntryFixedSize = offset + 38 :=
    wrappingAdd_of_lt (show offset + 38 < 2 ^ 64 by omega)
  rw [readExtraStreams, fixed, if_neg (by omega), @wrappingAdd_of_lt _ 8 (by omega),
    @wrappingAdd_of_lt _ 16 (by omega), @wrappingAdd_of_lt _ 36 (by omega),
    @wrappingAdd_of_lt _ 38 (by omega), slice_of_le (by omega) (by omega),
    slice_of_le (by omega) (by omega), slice_of_le (by omega) (by omega)]
  simp only [bind, Except.bind]
  rw [readU64_take_drop (by omega), readU16_take_drop (by omega),
    show offset + 36 - (offset + 16) = 20 by omega]
  rfl

/-- What reading stream entries comes to: it never panics and it does not go back. -/
theorem readExtraStreams_cases (count : Nat) {index : Nat} {unnamed : Option (List UInt8)}
    (near : offset ≤ buf.bytes.length + 7) :
    (∃ next unnamed', readExtraStreams buf count index offset unnamed = .ok (next, unnamed') ∧
      offset ≤ next ∧ next ≤ buf.bytes.length + 7) ∨
    ∃ message, readExtraStreams buf count index offset unnamed = .error (.refused message) := by
  have addressable := buf.addressable
  induction count generalizing index offset unnamed with
  | zero => exact .inl ⟨offset, unnamed, rfl, Nat.le_refl _, near⟩
  | succ count ih =>
    by_cases past : buf.bytes.length < offset + streamEntryFixedSize
    · have fixed : wrappingAdd offset streamEntryFixedSize = offset + streamEntryFixedSize :=
        wrappingAdd_of_lt (show offset + 38 < 2 ^ 64 by omega)
      rw [readExtraStreams, fixed, if_pos past]
      exact .inr ⟨_, rfl⟩
    rw [readExtraStreams_succ count (Nat.le_of_not_lt past)]
    split
    next => exact .inr ⟨_, rfl⟩
    next inside =>
      push Not at inside
      split
      next => exact .inr ⟨_, rfl⟩
      next fits =>
        have small : declaredLength buf offset < 2 ^ 64 := Bytes.readU64_lt _ _
        have behind : offset + align8 (declaredLength buf offset) ≤ buf.bytes.length + 7 := by
          by_cases top : 2 ^ 64 - 8 < declaredLength buf offset
          · rw [align8_of_le small top]
            exact near
          · have up := le_align8 (Nat.le_of_not_lt top)
            have last := inside.2
            rw [wrappingAdd_of_lt (by omega)] at last
            rw [align8_of_lt (by omega)]
            omega
        rcases @ih _ (index + 1) _ behind with ⟨next, unnamed', read, up, near'⟩ | failed
        · exact .inl ⟨next, unnamed', read, (Nat.le_add_right _ _).trans up, near'⟩
        · exact .inr failed

/-- An entry that is read stands inside the resource. -/
theorem inside_of_readDentry {dentry : Dentry} (read : readDentry buf offset = .ok (some dentry)) :
    dentryFixedSize ≤ declaredLength buf offset ∧
      offset + declaredLength buf offset ≤ buf.bytes.length ∧ dentry = dentryAt buf offset := by
  have small : offset < 2 ^ 63 := by
    by_contra large
    have addressable := buf.addressable
    unfold readDentry at read
    by_cases behind : buf.bytes.length < wrappingAdd offset 8
    · rw [if_pos behind] at read
      cases read
    · rw [if_neg behind, slice_of_lt (by omega)] at read
      cases read
  rcases @readDentry_cases buf offset (by omega) with
    none | ⟨long, inside, some⟩ | ⟨-, message, failed⟩ | ⟨-, panicked⟩
  · cases none.symm.trans read
  · cases some.symm.trans read
    exact ⟨long, inside, rfl⟩
  · cases failed.symm.trans read
  · cases panicked.symm.trans read

/-- Where the stream entries of an entry start. -/
def streamsAt (buf : Slice) (offset : Nat) : Nat :=
  wrappingAdd offset (align8 (declaredLength buf offset))

theorem streamsAt_of_inside (inside : offset + declaredLength buf offset ≤ buf.bytes.length) :
    streamsAt buf offset = offset + (declaredLength buf offset + 7) / 8 * 8 := by
  have addressable := buf.addressable
  unfold streamsAt
  rw [align8_of_lt (by omega), wrappingAdd_of_lt (by omega)]

/-- The next sibling stands behind. -/
theorem lt_next {dentry : Dentry} {next : Nat} (read : readDentry buf offset = .ok (some dentry))
    (streams : readExtraStreams buf dentry.numExtraStreams 0
      (wrappingAdd offset (align8 dentry.length)) none = .ok (next, unnamed)) :
    offset < next ∧ next ≤ buf.bytes.length + 7 := by
  obtain ⟨long, inside, rfl⟩ := inside_of_readDentry read
  have long' : 102 ≤ declaredLength buf offset := long
  have start := streamsAt_of_inside inside
  change readExtraStreams buf _ 0 (streamsAt buf offset) none = _ at streams
  rcases @readExtraStreams_cases buf (streamsAt buf offset) _ 0 none (by omega) with
    ⟨next', unnamed', read', up, near⟩ | ⟨message, failed⟩
  · cases read'.symm.trans streams
    exact ⟨by omega, near⟩
  · cases failed.symm.trans streams

end

/-! ## Walking -/

/-- What a walk has collected. -/
structure Walked where
  entries : List WimEntry := []
  nextIndex : Nat
  visited : List Nat

namespace Dentry

variable (dentry : Dentry)

/-- When an inode carries extra streams its own hash field is left zero. -/
def dataHash (unnamed : Option (List UInt8)) : List UInt8 :=
  if dentry.sha1 = noHash then unnamed.getD dentry.sha1 else dentry.sha1

/-- The path of an entry below a directory. -/
def fullPath (currentPath : Text) : Text :=
  if currentPath = [] then dentry.name else currentPath ++ '/' :: dentry.name

def push (currentPath : Text) (unnamed : Option (List UInt8)) (walked : Walked) : Walked :=
  { walked with
    entries := walked.entries ++ [{
      index := walked.nextIndex
      path := dentry.fullPath currentPath
      kind := dentry.kind
      size := 0
      linkTarget := none
      sha1 := dentry.dataHash unnamed
      reparseTag := dentry.reparseTag }]
    nextIndex := walked.nextIndex + 1 }

end Dentry

/-- A list is entered when it is neither too deep nor has been reached before. -/
def enterList (offset depth : Nat) (walked : Walked) : Parsed Walked :=
  if maxDentryDepth < depth then
    throw (.refused s!"directory tree nests deeper than {maxDentryDepth} levels")
  else if offset ∈ walked.visited then
    throw (.refused (s!"directory entry list at offset {offset} is reachable twice; " ++
      "the tree contains a cycle"))
  else
    .ok { walked with visited := offset :: walked.visited }

theorem depth_le_of_enterList {offset depth : Nat} {walked walked' : Walked}
    (entered : enterList offset depth walked = .ok walked') : depth ≤ maxDentryDepth := by
  unfold enterList at entered
  split at entered
  next => cases entered
  next small => exact Nat.le_of_not_lt small

/-- The loop of `walk_dentry_list`, from an entry of the list on. -/
def walkFrom (buf : Slice) (cursor : Nat) (currentPath : Text) (walked : Walked) (depth : Nat) :
    Parsed Walked :=
  match _read : readDentry buf cursor with
  | .error stopped => .error stopped
  | .ok none => .ok walked
  | .ok (some dentry) =>
    match _streams : readExtraStreams buf dentry.numExtraStreams 0
      (wrappingAdd cursor (align8 dentry.length)) none with
    | .error stopped => .error stopped
    | .ok (nextCursor, unnamed) =>
      if dentry.hasUsableName then
        let pushed := dentry.push currentPath unnamed walked
        if dentry.hasList buf.bytes.length then
          match _entered : enterList dentry.subdirOffset (depth + 1) pushed with
          | .error stopped => .error stopped
          | .ok entered =>
            match walkFrom buf dentry.subdirOffset (dentry.fullPath currentPath) entered
              (depth + 1) with
            | .error stopped => .error stopped
            | .ok left => walkFrom buf nextCursor currentPath left depth
        else walkFrom buf nextCursor currentPath pushed depth
      else walkFrom buf nextCursor currentPath walked depth
termination_by (maxDentryDepth + 1 - depth, buf.bytes.length + 8 - cursor)
decreasing_by
  · have shallow := depth_le_of_enterList _entered
    exact Prod.Lex.left _ _ (by omega)
  · obtain ⟨up, near⟩ := lt_next _read _streams
    exact Prod.Lex.right _ (by omega)
  · obtain ⟨up, near⟩ := lt_next _read _streams
    exact Prod.Lex.right _ (by omega)
  · obtain ⟨up, near⟩ := lt_next _read _streams
    exact Prod.Lex.right _ (by omega)

section

variable {buf : Slice} {cursor nextCursor depth : Nat} {currentPath : Text} {walked : Walked}
  {dentry : Dentry} {unnamed : Option (List UInt8)}

/-- A list ends where no entry is read. -/
theorem walkFrom_of_none (read : readDentry buf cursor = .ok none) :
    walkFrom buf cursor currentPath walked depth = .ok walked := by
  rw [walkFrom]
  split
  next stopped other =>
    rw [read] at other
    cases other
  next => rfl
  next found other =>
    rw [read] at other
    cases other

/-- An entry without a list of its own is collected. -/
theorem walkFrom_of_leaf (read : readDentry buf cursor = .ok (some dentry))
    (streams : readExtraStreams buf dentry.numExtraStreams 0
      (wrappingAdd cursor (align8 dentry.length)) none = .ok (nextCursor, unnamed))
    (usable : dentry.hasUsableName) (leaf : ¬ dentry.hasList buf.bytes.length) :
    walkFrom buf cursor currentPath walked depth =
      walkFrom buf nextCursor currentPath (dentry.push currentPath unnamed walked) depth := by
  conv_lhs => rw [walkFrom]
  split
  next stopped other =>
    rw [read] at other
    cases other
  next other =>
    rw [read] at other
    cases other
  next found other =>
    rw [read] at other
    cases other
    split
    next stopped other =>
      rw [streams] at other
      cases other
    next nextCursor' unnamed' other =>
      rw [streams] at other
      cases other
      rw [if_pos usable, if_neg leaf]

end

/-- Walks one sibling list of directory entries. -/
def walkDentryList (buf : Slice) (offset : Nat) (currentPath : Text) (walked : Walked)
    (depth : Nat) : Parsed Walked := do
  let entered ← enterList offset depth walked
  walkFrom buf offset currentPath entered depth

/-- Parses the directory tree of a decoded metadata resource. -/
def parseDentries (metadata : Slice) (under : Option Text) (nextIndex : Nat) :
    Parsed (List WimEntry × Nat) := do
  if metadata.bytes.length < 8 then
    throw (.refused "metadata resource is shorter than its security block header")
  else
    let field ← slice metadata.bytes 0 4
    let rootOffset := align8 (max (readU32 field 0) 8)
    if metadata.bytes.length ≤ rootOffset then
      throw (.refused (s!"security block ends at {rootOffset}, past the {
        metadata.bytes.length} byte metadata resource"))
    else
      match ← readDentry metadata rootOffset with
      | none => return ([], nextIndex)
      | some root =>
        if 0 < root.subdirOffset ∧ root.subdirOffset < metadata.bytes.length then
          let walked ← walkDentryList metadata root.subdirOffset (under.getD [])
            { nextIndex := nextIndex, visited := [rootOffset] } 0
          return (walked.entries, walked.nextIndex)
        else return ([], nextIndex)

end Wim

end ZManager
