import ZManager.Foundation.Bytes
import ZManager.Foundation.PositionalRead

/-! # VirtualBox disk images

A VDI image stores the blocks of a disk in any order; its block map says where each of them is, or
that it reads as zeros. A read at an offset gives the bytes of the flat disk, and its addresses stay
below `2 ^ 64` for every map.
-/

namespace ZManager.Disk

/-- A file, whose length is a signed word. -/
structure BackingFile where
  bytes : List UInt8
  lengthFits : bytes.length < 2 ^ 63

/-- Failures of a read; `overflow` stands for a sum or product of words that does not fit. -/
inductive VfsError where
  | overflow
  | seek
  | read
  deriving DecidableEq

def checkedAdd (one two : Nat) : Except VfsError Nat :=
  if one + two < 2 ^ 64 then .ok (one + two) else .error .overflow

def checkedMul (one two : Nat) : Except VfsError Nat :=
  if one * two < 2 ^ 64 then .ok (one * two) else .error .overflow

/-- `seek` to an offset and `read_exact`. -/
def BackingFile.readExactAt (file : BackingFile) (offset count : Nat) :
    Except VfsError (List UInt8) :=
  if 2 ^ 63 ≤ offset then .error .seek
  else if count = 0 ∨ offset + count ≤ file.bytes.length then
    .ok ((file.bytes.drop offset).take count)
  else .error .read

/-! ## The header -/

def vdiSignature : Nat := 0xbeda107f

/-- A block of the map without data. -/
def vdiBlockFree : UInt32 := 0xffffffff

/-- A block of the map that is all zeros. -/
def vdiBlockZero : UInt32 := 0xfffffffe

def vdiTypeDynamic : Nat := 1

def vdiTypeFixed : Nat := 2

def vdiMaxBlocks : Nat := 64 * 1024 * 1024

/-- The fields of a VDI header. -/
structure VdiHeader where
  imageType : Nat
  offsetBmap : Nat
  offsetData : Nat
  diskSize : Nat
  blockSize : Nat
  blockExtra : Nat
  blocksInHdd : Nat
  deriving DecidableEq

/-- The header of a file. -/
def VdiHeader.read (buf : List UInt8) : Except String VdiHeader :=
  if buf.length < 400 then .error "VDI header too short"
  else if Bytes.readU32 buf 64 ≠ vdiSignature then .error "invalid VDI signature"
  else
    let imageType := Bytes.readU32 buf 76
    let blockSize := Bytes.readU32 buf 376
    let blockExtra := Bytes.readU32 buf 380
    let blocksInHdd := Bytes.readU32 buf 384
    if imageType ≠ vdiTypeDynamic ∧ imageType ≠ vdiTypeFixed then
      .error ("VDI image type " ++ toString imageType ++
        " is a differencing or undo image whose data lives in a parent image; " ++
        "merge it with `VBoxManage clonemedium` first")
    else if blockSize = 0 ∨ blocksInHdd = 0 then .error "invalid VDI geometry"
    else if vdiMaxBlocks < blocksInHdd then
      .error ("VDI declares " ++ toString blocksInHdd ++ " blocks, above the " ++
        toString vdiMaxBlocks ++ " block limit")
    else if blockExtra ≠ 0 then
      .error ("VDI declares " ++ toString blockExtra ++
        " bytes of per-block extra data, which this reader does not decode")
    else
      .ok
        { imageType := imageType
          offsetBmap := Bytes.readU32 buf 340
          offsetData := Bytes.readU32 buf 344
          diskSize := Bytes.readU64 buf 368
          blockSize := blockSize
          blockExtra := blockExtra
          blocksInHdd := blocksInHdd }

/-! ## Reading -/

/-- An opened VDI image. -/
structure VdiSource where
  file : BackingFile
  offsetData : Nat
  diskSize : Nat
  blockSize : Nat
  bat : List UInt32

/-- The source of a header, a block map and a file. -/
def VdiHeader.source (header : VdiHeader) (bat : List UInt32) (file : BackingFile) : VdiSource :=
  ⟨file, header.offsetData, header.diskSize, header.blockSize, bat⟩

/-- The map has no data for a block. -/
def VdiSource.isUnallocated (source : VdiSource) (blockIdx : Nat) : Bool :=
  match source.bat[blockIdx]? with
  | none => true
  | some entry => entry = vdiBlockFree ∨ entry = vdiBlockZero

/-- How much of the room one turn of the loop fills. -/
def VdiSource.bytesInBlock (source : VdiSource) (cursor room : Nat) : Nat :=
  min (min (source.blockSize - cursor % source.blockSize) room) (source.diskSize - cursor)

/-- What one turn of the loop fills in. -/
def VdiSource.blockBytes (source : VdiSource) (cursor count : Nat) :
    Except VfsError (List UInt8) :=
  if source.isUnallocated (cursor / source.blockSize) then .ok (List.replicate count 0)
  else do
    let entry := (source.bat.getD (cursor / source.blockSize) 0).toNat
    let blockOffset ← checkedMul entry source.blockSize
    let blockStart ← checkedAdd source.offsetData blockOffset
    let physOffset ← checkedAdd blockStart (cursor % source.blockSize)
    source.file.readExactAt physOffset count

/-- One turn of the loop: the part of one block. -/
def VdiSource.readPiece (source : VdiSource) (cursor room : Nat) :
    Except VfsError (List UInt8) := do
  let bytes ← source.blockBytes cursor (source.bytesInBlock cursor room)
  let _ ← checkedAdd cursor (source.bytesInBlock cursor room)
  pure bytes

/-- `read_at` with a buffer of a length: the bytes that it fills. -/
def VdiSource.readAt (source : VdiSource) (offset room : Nat) :
    Option (Except VfsError (List UInt8)) :=
  if source.diskSize ≤ offset ∨ room = 0 then some (.ok [])
  else
    (readPieces (fun (_ : Unit) cursor room => (source.readPiece cursor room, ()))
      source.diskSize (room + 1) () offset room).map Prod.fst

/-! ## The flat disk -/

/-- A block of the disk: zeros, or what the file stores for it. -/
def VdiSource.block (source : VdiSource) (blockIdx : Nat) : List UInt8 :=
  if source.isUnallocated blockIdx then List.replicate source.blockSize 0
  else
    (source.file.bytes.drop
      (source.offsetData + (source.bat.getD blockIdx 0).toNat * source.blockSize)).take
        source.blockSize

/-- The bytes of the disk. -/
def VdiSource.flat (source : VdiSource) : Nat → UInt8 :=
  blockImage source.blockSize source.block 0

/-- The file holds the mapped blocks, the last of them as far as the disk goes. -/
def VdiSource.HoldsBlocks (source : VdiSource) : Prop :=
  ∀ blockIdx, blockIdx * source.blockSize < source.diskSize →
    source.isUnallocated blockIdx = false →
      source.offsetData + (source.bat.getD blockIdx 0).toNat * source.blockSize +
        min source.blockSize (source.diskSize - blockIdx * source.blockSize) ≤
          source.file.bytes.length

/-- What an accepted header promises of a source. -/
structure VdiSource.Sized (source : VdiSource) : Prop where
  positive : 0 < source.blockSize
  blockSize : source.blockSize < 2 ^ 32
  offsetData : source.offsetData < 2 ^ 32
  diskSize : source.diskSize < 2 ^ 64

theorem VdiSource.sized_of_read {buf : List UInt8} {header : VdiHeader}
    (accepted : VdiHeader.read buf = .ok header) (bat : List UInt32) (file : BackingFile) :
    (header.source bat file).Sized := by
  unfold VdiHeader.read at accepted
  split at accepted
  next => cases accepted
  next =>
    split at accepted
    next => cases accepted
    next =>
      dsimp only at accepted
      split at accepted
      next => cases accepted
      next =>
        split at accepted
        next => cases accepted
        next geometry =>
          split at accepted
          next => cases accepted
          next =>
            split at accepted
            next => cases accepted
            next =>
              cases accepted
              exact ⟨Nat.pos_of_ne_zero fun zero => geometry (.inl zero), Bytes.readU32_lt _ _,
                Bytes.readU32_lt _ _, Bytes.readU64_lt _ _⟩

/-! ## Reading gives the flat disk -/

section

variable {source : VdiSource} {cursor room : Nat}

/-- The two values that are no blocks are the two largest ones. -/
theorem VdiSource.entry_lt {blockIdx : Nat} (allocated : source.isUnallocated blockIdx = false) :
    (source.bat.getD blockIdx 0).toNat < 2 ^ 32 - 2 := by
  unfold isUnallocated at allocated
  rw [List.getD_eq_getElem?_getD]
  cases found : source.bat[blockIdx]? with
  | none =>
    rw [found] at allocated
    cases allocated
  | some entry =>
    rw [found, decide_eq_false_iff_not, not_or] at allocated
    have notFree : entry.toNat ≠ 0xffffffff := fun same => allocated.1 (UInt32.toNat_inj.mp same)
    have notZero : entry.toNat ≠ 0xfffffffe := fun same => allocated.2 (UInt32.toNat_inj.mp same)
    have bound := entry.toNat_lt
    rw [Option.getD_some]
    omega

/-- No address reaches the end of the words. -/
theorem VdiSource.address_lt (sized : source.Sized) {blockIdx inBlock : Nat}
    (allocated : source.isUnallocated blockIdx = false) (within : inBlock < source.blockSize) :
    source.offsetData + (source.bat.getD blockIdx 0).toNat * source.blockSize + inBlock <
      2 ^ 64 := by
  have entry : (source.bat.getD blockIdx 0).toNat ≤ 2 ^ 32 - 3 :=
    Nat.le_sub_one_of_lt (entry_lt allocated)
  have product := Nat.mul_le_mul_right source.blockSize entry
  have blockSize := sized.blockSize
  have offsetData := sized.offsetData
  omega

theorem checkedAdd_of_lt {one two : Nat} (fits : one + two < 2 ^ 64) :
    checkedAdd one two = .ok (one + two) := if_pos fits

theorem checkedMul_of_lt {one two : Nat} (fits : one * two < 2 ^ 64) :
    checkedMul one two = .ok (one * two) := if_pos fits

/-- No address overflows, so that the bytes are zeros or what the file has there. -/
theorem VdiSource.blockBytes_eq (sized : source.Sized) (count : Nat) :
    source.blockBytes cursor count =
      if source.isUnallocated (cursor / source.blockSize) then .ok (List.replicate count 0)
      else
        source.file.readExactAt
          (source.offsetData +
            (source.bat.getD (cursor / source.blockSize) 0).toNat * source.blockSize +
              cursor % source.blockSize) count := by
  unfold blockBytes
  by_cases unallocated : source.isUnallocated (cursor / source.blockSize)
  · rw [if_pos unallocated, if_pos unallocated]
  · rw [if_neg unallocated, if_neg unallocated]
    have within := Nat.mod_lt cursor sized.positive
    have address := address_lt sized (Bool.eq_false_iff.mpr unallocated) within
    dsimp only
    rw [checkedMul_of_lt (by omega)]
    show (checkedAdd _ _ >>= _) = _
    rw [checkedAdd_of_lt (by omega)]
    show (checkedAdd _ _ >>= _) = _
    rw [checkedAdd_of_lt (by omega)]
    rfl

/-- The place behind a piece does not overflow either. -/
theorem VdiSource.readPiece_eq (sized : source.Sized) (inside : cursor < source.diskSize) :
    source.readPiece cursor room = source.blockBytes cursor (source.bytesInBlock cursor room) := by
  have length : source.bytesInBlock cursor room ≤ source.diskSize - cursor := Nat.min_le_right _ _
  have diskSize := sized.diskSize
  unfold readPiece
  rw [checkedAdd_of_lt (by omega : cursor + source.bytesInBlock cursor room < 2 ^ 64)]
  cases source.blockBytes cursor (source.bytesInBlock cursor room) <;> rfl

theorem BackingFile.readExactAt_ne_overflow (file : BackingFile) (offset count : Nat) :
    file.readExactAt offset count ≠ .error .overflow := by
  unfold readExactAt
  split
  next => exact nofun
  next => split <;> exact nofun

theorem BackingFile.readExactAt_of_le {file : BackingFile} {offset count : Nat}
    (inside : offset + count ≤ file.bytes.length) :
    file.readExactAt offset count = .ok ((file.bytes.drop offset).take count) := by
  have lengthFits := file.lengthFits
  unfold readExactAt
  rw [if_neg (by omega), if_pos (.inr inside)]

/-- A piece never overflows. -/
theorem VdiSource.readPiece_ne_overflow (sized : source.Sized) (inside : cursor < source.diskSize) :
    source.readPiece cursor room ≠ .error .overflow := by
  rw [readPiece_eq sized inside, blockBytes_eq sized]
  split
  next => exact nofun
  next => exact BackingFile.readExactAt_ne_overflow _ _ _

/-- A piece of held blocks is a window of the flat disk. -/
theorem VdiSource.readPiece_window (sized : source.Sized) (holds : source.HoldsBlocks)
    (inside : cursor < source.diskSize) :
    source.readPiece cursor room =
      .ok (window source.flat cursor (source.bytesInBlock cursor room)) := by
  have below := Nat.mod_lt cursor sized.positive
  have place := Nat.div_add_mod' cursor source.blockSize
  have small : source.bytesInBlock cursor room ≤ source.blockSize - cursor % source.blockSize :=
    Nat.le_trans (Nat.min_le_left _ _) (Nat.min_le_left _ _)
  have ends : source.bytesInBlock cursor room ≤ source.diskSize - cursor := Nat.min_le_right _ _
  rw [readPiece_eq sized inside, blockBytes_eq sized]
  generalize source.bytesInBlock cursor room = count at *
  have within : cursor % source.blockSize + count ≤ source.blockSize := by omega
  unfold flat
  rw [window_blockImage within]
  unfold block
  by_cases unallocated : source.isUnallocated (cursor / source.blockSize)
  · rw [if_pos unallocated, if_pos unallocated, window_getD (by rwa [List.length_replicate]),
      List.drop_replicate, List.take_replicate, Nat.min_eq_left (by omega)]
  · rw [if_neg unallocated, if_neg unallocated]
    have held := holds (cursor / source.blockSize) (by omega) (Bool.eq_false_iff.mpr unallocated)
    generalize source.offsetData + (source.bat.getD (cursor / source.blockSize) 0).toNat *
      source.blockSize = start at *
    have reach : start + cursor % source.blockSize + count ≤ source.file.bytes.length := by omega
    have stored : cursor % source.blockSize + count ≤
        ((source.file.bytes.drop start).take source.blockSize).length := by
      rw [List.length_take, List.length_drop]
      omega
    rw [BackingFile.readExactAt_of_le reach, window_getD stored, List.drop_take, List.drop_drop,
      List.take_take, Nat.min_eq_left (by omega)]

theorem VdiSource.bytesInBlock_pos (sized : source.Sized) (more : 0 < room)
    (inside : cursor < source.diskSize) : 0 < source.bytesInBlock cursor room := by
  have below := Nat.mod_lt cursor sized.positive
  unfold bytesInBlock
  omega

/-- A read never overflows. -/
theorem VdiSource.readAt_ne_overflow (sized : source.Sized) (offset room : Nat) :
    source.readAt offset room ≠ some (.error .overflow) := by
  unfold readAt
  split
  next => exact nofun
  next =>
    intro failed
    obtain ⟨⟨result, last⟩, read, same⟩ := Option.map_eq_some_iff.mp failed
    cases same
    obtain ⟨_, cursor, left, _, inside, overflow⟩ := readPieces_error read
    exact readPiece_ne_overflow sized inside overflow

/-- A read returns the bytes of the flat disk. -/
theorem VdiSource.readAt_eq (sized : source.Sized) (holds : source.HoldsBlocks)
    (offset room : Nat) :
    source.readAt offset room =
      some (.ok (window source.flat offset (min room (source.diskSize - offset)))) := by
  unfold readAt
  split
  next nothing =>
    have none : min room (source.diskSize - offset) = 0 := by omega
    rw [none]
    rfl
  next =>
    obtain ⟨_, _, read⟩ := @readPieces_eq_window Unit VfsError UInt8
      (fun _ cursor room => (source.readPiece cursor room, ())) source.diskSize source.flat
      (fun _ => True) (fun _ cursor room _ more inside =>
        ⟨⟨source.bytesInBlock cursor room, readPiece_window sized holds inside,
          bytesInBlock_pos sized more inside, by unfold bytesInBlock; omega,
          by unfold bytesInBlock; omega⟩, trivial⟩)
      (room + 1) () offset room trivial (Nat.lt_succ_self room)
    rw [read]
    rfl

end

end ZManager.Disk
