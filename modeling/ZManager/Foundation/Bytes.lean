import Mathlib.Algebra.Group.Int.Defs
import Mathlib.Algebra.GroupWithZero.Nat
import Mathlib.Data.List.Basic
import Mathlib.Data.List.GetD

/-! # Byte strings with fields at offsets

Little-endian numbers are read at an offset, and a range is overwritten by as
many other bytes. Sizes and offsets are natural numbers; the callers state the
bounds of the machine types they come from.
-/

namespace ZManager

namespace Bytes

variable {index : Nat}

/-- The two-byte little-endian number at an offset. -/
def readU16 (bytes : List UInt8) (offset : Nat) : Nat :=
  (bytes.getD offset 0).toNat + 256 * (bytes.getD (offset + 1) 0).toNat

/-- The four-byte little-endian number at an offset. -/
def readU32 (bytes : List UInt8) (offset : Nat) : Nat :=
  readU16 bytes offset + 65536 * readU16 bytes (offset + 2)

/-- The eight-byte little-endian number at an offset. -/
def readU64 (bytes : List UInt8) (offset : Nat) : Nat :=
  readU32 bytes offset + 4294967296 * readU32 bytes (offset + 4)

/-- A number below `2 ^ 16` as two little-endian bytes. -/
def leU16 (number : Nat) : List UInt8 :=
  [UInt8.ofNat number, UInt8.ofNat (number / 256)]

/-- A number below `2 ^ 32` as four little-endian bytes. -/
def leU32 (number : Nat) : List UInt8 :=
  leU16 number ++ leU16 (number / 65536)

/-- A number below `2 ^ 64` as eight little-endian bytes. -/
def leU64 (number : Nat) : List UInt8 :=
  leU32 number ++ leU32 (number / 4294967296)

@[simp] theorem length_leU16 (number : Nat) : (leU16 number).length = 2 := rfl

@[simp] theorem length_leU32 (number : Nat) : (leU32 number).length = 4 := rfl

@[simp] theorem length_leU64 (number : Nat) : (leU64 number).length = 8 := rfl

variable {α : Type*}

/-- The bytes with a range replaced by a patch of the same length. -/
def overwrite (bytes : List α) (offset : Nat) (patch : List α) : List α :=
  bytes.take offset ++ patch ++ bytes.drop (offset + patch.length)

/-- One of the pieces of a fixed size that the bytes are cut into. -/
def piece (size : Nat) (bytes : List α) (index : Nat) : List α :=
  (bytes.drop (index * size)).take size

/-- Consecutive pieces joined are the bytes from the first piece on. -/
theorem flatten_pieces (size start count : Nat) (bytes : List α) :
    ((List.range' start count).map (piece size bytes)).flatten =
      (bytes.drop (start * size)).take (count * size) := by
  induction count generalizing start with
  | zero => simp
  | succ count ih =>
    rw [List.range'_succ, List.map_cons, List.flatten_cons, ih, piece, Nat.add_mul, Nat.one_mul,
      Nat.add_mul, Nat.one_mul, Nat.add_comm (count * size), List.take_add, List.drop_drop]

/-- A piece that is full does not change when more bytes follow. -/
theorem piece_append_of_le {size : Nat} {bytes : List α} (more : List α)
    (full : (index + 1) * size ≤ bytes.length) :
    piece size (bytes ++ more) index = piece size bytes index := by
  rw [Nat.add_mul, Nat.one_mul] at full
  unfold piece
  rw [List.drop_append_of_le_length (by omega), List.take_append_of_le_length]
  rw [List.length_drop]
  omega

/-- The bytes that follow go to the piece that has room for them. -/
theorem piece_append_last {size : Nat} {bytes more : List α} (begun : index * size ≤ bytes.length)
    (room : bytes.length + more.length ≤ (index + 1) * size) :
    piece size (bytes ++ more) index = piece size bytes index ++ more := by
  rw [Nat.add_mul, Nat.one_mul] at room
  unfold piece
  rw [List.drop_append_of_le_length begun, List.take_of_length_le, List.take_of_length_le]
  · rw [List.length_drop]
    omega
  · rw [List.length_append, List.length_drop]
    omega

variable {bytes patch : List α} {offset : Nat}

section

variable (fits : offset + patch.length ≤ bytes.length)
include fits

@[simp] theorem length_overwrite :
    (overwrite bytes offset patch).length = bytes.length := by
  unfold overwrite
  simp only [List.length_append, List.length_take, List.length_drop]
  omega

/-- Inside the range, the patch is read. -/
theorem getElem?_overwrite_inside (inside : index < patch.length) :
    (overwrite bytes offset patch)[offset + index]? = patch[index]? := by
  have start : (bytes.take offset).length = offset := by
    rw [List.length_take]
    omega
  unfold overwrite
  rw [List.append_assoc, List.getElem?_append_right (by omega), start, Nat.add_sub_cancel_left,
    List.getElem?_append_left inside]

/-- Behind the range, the bytes are as before. -/
theorem getElem?_overwrite_behind (behind : offset + patch.length ≤ index) :
    (overwrite bytes offset patch)[index]? = bytes[index]? := by
  have start : (bytes.take offset ++ patch).length = offset + patch.length := by
    rw [List.length_append, List.length_take]
    omega
  unfold overwrite
  rw [List.getElem?_append_right (by omega), start, List.getElem?_drop]
  congr 1
  omega

/-- Before the range, the bytes are as before. -/
theorem getElem?_overwrite_before (before : index < offset) :
    (overwrite bytes offset patch)[index]? = bytes[index]? := by
  have start : (bytes.take offset).length = offset := by
    rw [List.length_take]
    omega
  unfold overwrite
  rw [List.append_assoc, List.getElem?_append_left (by omega), List.getElem?_take_of_lt before]

/-- What stands at a place of overwritten bytes. -/
theorem getElem?_overwrite (index : Nat) :
    (overwrite bytes offset patch)[index]? =
      if offset ≤ index ∧ index < offset + patch.length then patch[index - offset]?
      else bytes[index]? := by
  by_cases before : index < offset
  · rw [getElem?_overwrite_before fits before, if_neg (by omega)]
  by_cases behind : offset + patch.length ≤ index
  · rw [getElem?_overwrite_behind fits behind, if_neg (by omega)]
  · obtain ⟨inner, rfl⟩ : ∃ inner, index = offset + inner := ⟨index - offset, by omega⟩
    rw [getElem?_overwrite_inside fits (by omega), if_pos (by omega), Nat.add_sub_cancel_left]

end

/-- A patch over the middle of three parts. -/
theorem overwrite_middle (front : List α) {old new : List α} (back : List α)
    (same : old.length = new.length) :
    overwrite (front ++ old ++ back) front.length new = front ++ new ++ back := by
  have behind : (front ++ old).length = front.length + new.length := by
    rw [List.length_append, same]
  unfold overwrite
  rw [← behind, List.drop_left, List.append_assoc front old, List.take_left]

/-! ## Numbers at offsets -/

theorem readU16_append_left {front : List UInt8} (back : List UInt8)
    (inside : offset + 2 ≤ front.length) :
    readU16 (front ++ back) offset = readU16 front offset := by
  unfold readU16
  rw [List.getD_append _ _ _ _ (by omega), List.getD_append _ _ _ _ (by omega)]

theorem readU16_append_right (front back : List UInt8) (offset : Nat) :
    readU16 (front ++ back) (front.length + offset) = readU16 back offset := by
  unfold readU16
  rw [List.getD_append_right _ _ _ _ (by omega), List.getD_append_right _ _ _ _ (by omega)]
  congr 3
  · omega
  · congr 1
    omega

theorem readU32_append_left {front : List UInt8} (back : List UInt8)
    (inside : offset + 4 ≤ front.length) :
    readU32 (front ++ back) offset = readU32 front offset := by
  unfold readU32
  rw [readU16_append_left _ (by omega), readU16_append_left _ (by omega)]

theorem readU32_append_right (front back : List UInt8) (offset : Nat) :
    readU32 (front ++ back) (front.length + offset) = readU32 back offset := by
  unfold readU32
  rw [readU16_append_right, Nat.add_assoc, readU16_append_right]

theorem readU64_append_right (front back : List UInt8) (offset : Nat) :
    readU64 (front ++ back) (front.length + offset) = readU64 back offset := by
  unfold readU64
  rw [readU32_append_right, Nat.add_assoc, readU32_append_right]

theorem getD_drop (bytes : List UInt8) (start offset : Nat) :
    (bytes.drop start).getD offset 0 = bytes.getD (start + offset) 0 := by
  rw [List.getD_eq_getElem?_getD, List.getD_eq_getElem?_getD, List.getElem?_drop]

theorem readU16_drop (bytes : List UInt8) (start offset : Nat) :
    readU16 (bytes.drop start) offset = readU16 bytes (start + offset) := by
  unfold readU16
  rw [getD_drop, getD_drop, Nat.add_assoc]

theorem readU32_drop (bytes : List UInt8) (start offset : Nat) :
    readU32 (bytes.drop start) offset = readU32 bytes (start + offset) := by
  unfold readU32
  rw [readU16_drop, readU16_drop, Nat.add_assoc]

theorem readU16_lt (bytes : List UInt8) (offset : Nat) : readU16 bytes offset < 65536 := by
  have low := (bytes.getD offset 0).toNat_lt
  have high := (bytes.getD (offset + 1) 0).toNat_lt
  unfold readU16
  omega

theorem readU32_lt (bytes : List UInt8) (offset : Nat) : readU32 bytes offset < 2 ^ 32 := by
  have low := readU16_lt bytes offset
  have high := readU16_lt bytes (offset + 2)
  unfold readU32
  omega

theorem readU64_lt (bytes : List UInt8) (offset : Nat) : readU64 bytes offset < 2 ^ 64 := by
  have low := readU32_lt bytes offset
  have high := readU32_lt bytes (offset + 4)
  unfold readU64
  omega

/-- A number is read back from its two bytes. -/
theorem readU16_leU16 {number : Nat} (small : number < 65536) (back : List UInt8) :
    readU16 (leU16 number ++ back) 0 = number := by
  unfold readU16 leU16
  simp only [List.cons_append, List.getD_cons_zero, List.getD_cons_succ, Nat.zero_add,
    UInt8.toNat_ofNat']
  omega

theorem readU32_leU32 {number : Nat} (small : number < 2 ^ 32) (back : List UInt8) :
    readU32 (leU32 number ++ back) 0 = number := by
  have low : readU16 (leU32 number ++ back) 0 = number % 65536 := by
    unfold leU32 leU16 readU16
    simp only [List.cons_append, List.getD_cons_zero, List.getD_cons_succ, Nat.zero_add,
      UInt8.toNat_ofNat']
    omega
  have high : readU16 (leU32 number ++ back) 2 = number / 65536 := by
    have shifted := readU16_append_right (leU16 number) (leU16 (number / 65536) ++ back) 0
    rw [length_leU16, Nat.add_zero] at shifted
    unfold leU32
    rw [List.append_assoc, shifted, readU16_leU16 (by omega)]
  unfold readU32
  rw [low, Nat.zero_add, high]
  omega

theorem readU32_leU32_mod (number : Nat) (back : List UInt8) :
    readU32 (leU32 number ++ back) 0 = number % 4294967296 := by
  have same : leU32 number = leU32 (number % 4294967296) := by
    unfold leU32 leU16
    simp only [List.cons_append, List.nil_append, List.cons.injEq, and_true]
    refine ⟨?_, ?_, ?_, ?_⟩ <;>
    · apply UInt8.toNat.inj
      rw [UInt8.toNat_ofNat', UInt8.toNat_ofNat']
      omega
  rw [same, readU32_leU32 (by omega)]

theorem readU64_leU64 {number : Nat} (small : number < 2 ^ 64) (back : List UInt8) :
    readU64 (leU64 number ++ back) 0 = number := by
  have high := readU32_append_right (leU32 number) (leU32 (number / 4294967296) ++ back) 0
  rw [length_leU32, Nat.add_zero, readU32_leU32 (by omega)] at high
  unfold readU64 leU64
  rw [List.append_assoc, readU32_leU32_mod, Nat.zero_add, high]
  omega

/-- Two bytes are those of the number they are read as. -/
theorem leU16_readU16 {field : List UInt8} (width : field.length = 2) (back : List UInt8) :
    leU16 (readU16 (field ++ back) 0) = field := by
  match field, width with
  | [first, second], _ =>
    have low := first.toNat_lt
    have high := second.toNat_lt
    unfold readU16 leU16
    simp only [List.cons_append, List.getD_cons_zero, List.getD_cons_succ, Nat.zero_add]
    congr 1
    · apply UInt8.toNat.inj
      rw [UInt8.toNat_ofNat']
      omega
    · congr 1
      apply UInt8.toNat.inj
      rw [UInt8.toNat_ofNat']
      omega

theorem leU32_readU32 {field : List UInt8} (width : field.length = 4) (back : List UInt8) :
    leU32 (readU32 (field ++ back) 0) = field := by
  match field, width with
  | [first, second, third, fourth], _ =>
    have low := readU16_lt [first, second] 0
    have lowPart : readU16 ([first, second] ++ [third, fourth] ++ back) 0 =
        readU16 [first, second] 0 := by
      rw [List.append_assoc]
      exact readU16_append_left _ (Nat.le_refl 2)
    have highPart : readU16 ([first, second] ++ [third, fourth] ++ back) 2 =
        readU16 ([third, fourth] ++ back) 0 := by
      have shifted := readU16_append_right [first, second] ([third, fourth] ++ back) 0
      rw [← List.append_assoc] at shifted
      exact shifted
    have first_le := @leU16_readU16 [first, second] rfl []
    have second_le := @leU16_readU16 [third, fourth] rfl back
    rw [List.append_nil] at first_le
    change leU32 (readU32 ([first, second] ++ [third, fourth] ++ back) 0) =
      [first, second] ++ [third, fourth]
    unfold readU32 leU32
    rw [lowPart, Nat.zero_add, highPart]
    have split : (readU16 [first, second] 0 + 65536 * readU16 ([third, fourth] ++ back) 0) /
        65536 = readU16 ([third, fourth] ++ back) 0 := by
      omega
    have rest : leU16 (readU16 [first, second] 0 +
        65536 * readU16 ([third, fourth] ++ back) 0) = leU16 (readU16 [first, second] 0) := by
      unfold leU16
      congr 1
      · apply UInt8.toNat.inj
        rw [UInt8.toNat_ofNat', UInt8.toNat_ofNat']
        omega
      · congr 1
        apply UInt8.toNat.inj
        rw [UInt8.toNat_ofNat', UInt8.toNat_ofNat']
        omega
    rw [split, rest, first_le, second_le]

end Bytes

end ZManager
