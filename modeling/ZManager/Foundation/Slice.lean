import ZManager.Foundation.Bytes

/-! # Slices indexed with machine words

A slice in memory is shorter than half the address space. Offsets are words of 64 bits
whose sums wrap, and taking a range that is no range of the slice panics.
-/

namespace ZManager

variable {value : Nat}

/-- A slice of bytes in memory. -/
structure Slice where
  bytes : List UInt8
  addressable : bytes.length < 2 ^ 63

/-- How a computation stops that does not return a value. -/
inductive Stop (ε : Type) where
  | panicked
  | refused (error : ε)
  deriving Repr, DecidableEq

/-- A sum of words. -/
def wrappingAdd (one two : Nat) : Nat := (one + two) % 2 ^ 64

theorem wrappingAdd_of_lt {one two : Nat} (fits : one + two < 2 ^ 64) :
    wrappingAdd one two = one + two := Nat.mod_eq_of_lt fits

theorem wrappingAdd_of_le {one two : Nat} (small : one < 2 ^ 64) (small' : two < 2 ^ 64)
    (wraps : 2 ^ 64 ≤ one + two) : wrappingAdd one two = one + two - 2 ^ 64 := by
  unfold wrappingAdd
  rw [Nat.mod_eq_sub_mod wraps]
  exact Nat.mod_eq_of_lt (by omega)

/-- The next multiple of eight, of a word. -/
def align8 (value : Nat) : Nat :=
  if value % 8 = 0 then value else wrappingAdd value (8 - value % 8)

theorem align8_of_lt (fits : value + 7 < 2 ^ 64) : align8 value = (value + 7) / 8 * 8 := by
  unfold align8
  split
  next => omega
  next =>
    rw [wrappingAdd_of_lt (by omega)]
    omega

/-- The end of the words has no next multiple of eight. -/
theorem align8_of_le (small : value < 2 ^ 64) (late : 2 ^ 64 - 8 < value) :
    align8 value = 0 := by
  unfold align8 wrappingAdd
  rw [if_neg (by omega), show value + (8 - value % 8) = 2 ^ 64 by omega, Nat.mod_self]

theorem le_align8 (fits : value ≤ 2 ^ 64 - 8) : value ≤ align8 value := by
  unfold align8
  split
  next => exact Nat.le_refl _
  next =>
    rw [wrappingAdd_of_lt (by omega)]
    omega

section

variable {ε α : Type} {bytes : List UInt8} {start stop : Nat}

variable {width offset : Nat}

/-- `bytes[start..stop]`. -/
def slice (bytes : List UInt8) (start stop : Nat) : Except (Stop ε) (List UInt8) :=
  if start ≤ stop ∧ stop ≤ bytes.length then .ok ((bytes.drop start).take (stop - start))
  else .error .panicked

theorem slice_of_le (ordered : start ≤ stop) (inside : stop ≤ bytes.length) :
    (slice bytes start stop : Except (Stop ε) _) =
      .ok ((bytes.drop start).take (stop - start)) :=
  if_pos ⟨ordered, inside⟩

theorem slice_of_lt (disordered : stop < start) :
    (slice bytes start stop : Except (Stop ε) _) = .error .panicked :=
  if_neg fun range => Nat.not_lt.mpr range.1 disordered

/-- A range of a range is a range of the whole. -/
theorem take_drop_take_drop {count : Nat} (inside : offset + count ≤ width) :
    (((bytes.drop start).take width).drop offset).take count =
      (bytes.drop (start + offset)).take count := by
  rw [List.drop_take, List.take_take, List.drop_drop, Nat.min_eq_left (by omega)]

theorem slice_take_drop {first last : Nat} (ordered : first ≤ last) (inside : last ≤ width)
    (fits : start + width ≤ bytes.length) :
    (slice ((bytes.drop start).take width) first last : Except (Stop ε) _) =
      .ok ((bytes.drop (start + first)).take (last - first)) := by
  rw [slice_of_le ordered, take_drop_take_drop (by omega)]
  rw [List.length_take, List.length_drop]
  omega

/-- A field of a range that is taken is the field of the whole. -/
theorem getD_take_drop (inside : offset < width) :
    ((bytes.drop start).take width).getD offset 0 = bytes.getD (start + offset) 0 := by
  rw [List.getD_eq_getElem?_getD, List.getD_eq_getElem?_getD, List.getElem?_take_of_lt inside,
    List.getElem?_drop]

theorem readU16_take_drop (inside : offset + 2 ≤ width) :
    Bytes.readU16 ((bytes.drop start).take width) offset =
      Bytes.readU16 bytes (start + offset) := by
  unfold Bytes.readU16
  rw [getD_take_drop (by omega), getD_take_drop (by omega), Nat.add_assoc]

theorem readU32_take_drop (inside : offset + 4 ≤ width) :
    Bytes.readU32 ((bytes.drop start).take width) offset =
      Bytes.readU32 bytes (start + offset) := by
  unfold Bytes.readU32
  rw [readU16_take_drop (by omega), readU16_take_drop (by omega), Nat.add_assoc]

theorem readU64_take_drop (inside : offset + 8 ≤ width) :
    Bytes.readU64 ((bytes.drop start).take width) offset =
      Bytes.readU64 bytes (start + offset) := by
  unfold Bytes.readU64
  rw [readU32_take_drop (by omega), readU32_take_drop (by omega), Nat.add_assoc]

end

end ZManager
