import Mathlib.Data.List.Basic
import ZManager.Foundation.Text

/-! # Texts as UTF-8 bytes

Bytes are decoded one character after the other. A strict reader refuses what is
not UTF-8, a lossy one replaces it; both give an encoded text back.
-/

namespace ZManager

/-- The UTF-8 bytes of a text. -/
def utf8Bytes (text : Text) : List UInt8 :=
  text.flatMap String.utf8EncodeChar

namespace Utf8

/-- The character that bytes start with. -/
def decodeChar (bytes : List UInt8) : Option Char :=
  bytes.toByteArray.utf8DecodeChar? 0

theorem decodeChar_append (char : Char) (rest : List UInt8) :
    decodeChar (String.utf8EncodeChar char ++ rest) = some char := by
  unfold decodeChar
  rw [List.toByteArray_append]
  exact ByteArray.utf8DecodeChar?_utf8EncodeChar_append

end Utf8

/-- `str::from_utf8`. -/
def fromUtf8 (bytes : List UInt8) : Option Text :=
  if bytes = [] then some []
  else
    match Utf8.decodeChar bytes with
    | none => none
    | some char => (fromUtf8 (bytes.drop char.utf8Size)).map (char :: ·)
termination_by bytes.length
decreasing_by
  have nonempty := List.length_pos_iff.mpr ‹bytes ≠ []›
  have wide := char.utf8Size_pos
  rw [List.length_drop]
  omega

/-- Whether a byte may follow a lead byte. -/
def isUtf8Second (lead byte : UInt8) : Bool :=
  if lead = 0xe0 then 0xa0 ≤ byte && byte ≤ 0xbf
  else if lead = 0xed then 0x80 ≤ byte && byte ≤ 0x9f
  else if lead = 0xf0 then 0x90 ≤ byte && byte ≤ 0xbf
  else if lead = 0xf4 then 0x80 ≤ byte && byte ≤ 0x8f
  else 0x80 ≤ byte && byte ≤ 0xbf

/-- How many bytes a replacement character stands for: the longest start of a
character that the bytes have, and one byte at least. -/
def invalidUtf8Length : List UInt8 → Nat
  | lead :: second :: rest =>
    if 0xe0 ≤ lead ∧ lead ≤ 0xf4 ∧ isUtf8Second lead second then
      match rest with
      | third :: _ => if 0xf0 ≤ lead ∧ 0x80 ≤ third ∧ third ≤ 0xbf then 3 else 2
      | [] => 2
    else 1
  | _ => 1

theorem invalidUtf8Length_pos (bytes : List UInt8) : 0 < invalidUtf8Length bytes := by
  unfold invalidUtf8Length
  split
  · split_ifs
    · split
      · split_ifs <;> omega
      · omega
    · omega
  · omega

/-- `String::from_utf8_lossy`. -/
def fromUtf8Lossy (bytes : List UInt8) : Text :=
  if bytes = [] then []
  else
    match Utf8.decodeChar bytes with
    | none => '\uFFFD' :: fromUtf8Lossy (bytes.drop (invalidUtf8Length bytes))
    | some char => char :: fromUtf8Lossy (bytes.drop char.utf8Size)
termination_by bytes.length
decreasing_by
  · have nonempty := List.length_pos_iff.mpr ‹bytes ≠ []›
    have wide := invalidUtf8Length_pos bytes
    rw [List.length_drop]
    omega
  · have nonempty := List.length_pos_iff.mpr ‹bytes ≠ []›
    have wide := char.utf8Size_pos
    rw [List.length_drop]
    omega

theorem utf8Bytes_cons (char : Char) (text : Text) :
    utf8Bytes (char :: text) = String.utf8EncodeChar char ++ utf8Bytes text :=
  List.flatMap_cons

theorem utf8EncodeChar_append_ne_nil (char : Char) (rest : List UInt8) :
    String.utf8EncodeChar char ++ rest ≠ [] := by
  intro empty
  have lengths := congrArg List.length empty
  have wide := char.utf8Size_pos
  rw [List.length_append, String.length_utf8EncodeChar, List.length_nil] at lengths
  omega

theorem drop_utf8EncodeChar (char : Char) (rest : List UInt8) :
    (String.utf8EncodeChar char ++ rest).drop char.utf8Size = rest :=
  List.drop_left' (String.length_utf8EncodeChar char)

/-- Encoded texts are decoded. -/
theorem fromUtf8_utf8Bytes (text : Text) : fromUtf8 (utf8Bytes text) = some text := by
  induction text with
  | nil =>
    unfold fromUtf8
    exact if_pos rfl
  | cons char rest ih =>
    rw [utf8Bytes_cons]
    unfold fromUtf8
    rw [if_neg (utf8EncodeChar_append_ne_nil char _), Utf8.decodeChar_append]
    simp only
    rw [drop_utf8EncodeChar, ih, Option.map_some]

theorem utf8Bytes_injective {left right : Text} (same : utf8Bytes left = utf8Bytes right) :
    left = right := by
  have read := fromUtf8_utf8Bytes left
  rw [same, fromUtf8_utf8Bytes right] at read
  exact (Option.some.inj read).symm

theorem fromUtf8Lossy_utf8Bytes (text : Text) : fromUtf8Lossy (utf8Bytes text) = text := by
  induction text with
  | nil =>
    unfold fromUtf8Lossy
    exact if_pos rfl
  | cons char rest ih =>
    rw [utf8Bytes_cons]
    unfold fromUtf8Lossy
    rw [if_neg (utf8EncodeChar_append_ne_nil char _), Utf8.decodeChar_append]
    simp only
    rw [drop_utf8EncodeChar, ih]

/-! ## Numerals -/

/-- The value of a digit, as `char::to_digit`. -/
def toDigit (radix : Nat) (char : Char) : Option Nat :=
  let value :=
    if char.isDigit then some (char.toNat - '0'.toNat)
    else if char.isLower then some (char.toNat - 'a'.toNat + 10)
    else if char.isUpper then some (char.toNat - 'A'.toNat + 10)
    else none
  value.filter (· < radix)

/-- Digits behind a number, below `2 ^ 64`. -/
def readDigits (radix : Nat) : Nat → Text → Option Nat
  | number, [] => some number
  | number, char :: rest =>
    match toDigit radix char with
    | none => none
    | some digit =>
      if 2 ^ 64 ≤ number * radix + digit then none
      else readDigits radix (number * radix + digit) rest

/-- `u64::from_str_radix`, with its optional sign. -/
def u64FromStrRadix (radix : Nat) (text : Text) : Option Nat :=
  match text with
  | [] => none
  | '+' :: rest => if rest = [] then none else readDigits radix 0 rest
  | _ => readDigits radix 0 text

/-- A number in a radix with so many digits. -/
def fixedDigits (radix : Nat) : (width number : Nat) → Text
  | 0, _ => []
  | width + 1, number =>
    fixedDigits radix width (number / radix) ++ [Nat.digitChar (number % radix)]

section

variable {radix : Nat}

theorem toDigit_digitChar {digit : Nat} (small : digit < radix) (most : radix ≤ 16) :
    toDigit radix (Nat.digitChar digit) = some digit := by
  have all : ∀ digit < 16, toDigit 16 (Nat.digitChar digit) = some digit := by decide
  have read := all digit (by omega)
  unfold toDigit at read ⊢
  obtain ⟨found, -⟩ := Option.filter_eq_some_iff.mp read
  simp only [found]
  exact Option.filter_eq_some_iff.mpr ⟨rfl, by simpa using small⟩

theorem readDigits_append {start : Nat} {front back : Text} :
    readDigits radix start (front ++ back) =
      (readDigits radix start front).bind (readDigits radix · back) := by
  induction front generalizing start with
  | nil => rfl
  | cons char rest ih =>
    rw [List.cons_append, readDigits, readDigits]
    cases toDigit radix char with
    | none => rfl
    | some digit =>
      simp only
      split_ifs
      · rfl
      · exact ih

/-- Digits are read back. -/
theorem readDigits_fixedDigits {width number : Nat} (positive : 0 < radix) (most : radix ≤ 16)
    (fits : number < radix ^ width) (small : number < 2 ^ 64) :
    readDigits radix 0 (fixedDigits radix width number) = some number := by
  induction width generalizing number with
  | zero =>
    rw [Nat.pow_zero] at fits
    rw [Nat.lt_one_iff.mp fits]
    rfl
  | succ width ih =>
    have quotient : number / radix < radix ^ width := by
      rw [Nat.div_lt_iff_lt_mul positive, ← Nat.pow_succ]
      exact fits
    have le := Nat.div_le_self number radix
    have split : number / radix * radix + number % radix = number := by
      rw [Nat.mul_comm]
      exact Nat.div_add_mod number radix
    rw [fixedDigits, readDigits_append, ih quotient (by omega), Option.bind_some, readDigits,
      toDigit_digitChar (Nat.mod_lt _ positive) most]
    simp only [split]
    rw [if_neg (by omega)]
    rfl

theorem length_fixedDigits (width number : Nat) :
    (fixedDigits radix width number).length = width := by
  induction width generalizing number with
  | zero => rfl
  | succ width ih => rw [fixedDigits, List.length_append, ih, List.length_singleton]

theorem mem_fixedDigits {width number : Nat} {char : Char} (positive : 0 < radix)
    (member : char ∈ fixedDigits radix width number) :
    ∃ digit < radix, char = Nat.digitChar digit := by
  induction width generalizing number with
  | zero => cases member
  | succ width ih =>
    rw [fixedDigits] at member
    rcases List.mem_append.mp member with front | last
    · exact ih front
    · exact ⟨_, Nat.mod_lt _ positive, List.mem_singleton.mp last⟩

/-- **A number** of fixed width is read back. -/
theorem u64FromStrRadix_fixedDigits {width number : Nat} (positive : 0 < radix)
    (most : radix ≤ 16) (some_digit : 0 < width) (fits : number < radix ^ width)
    (small : number < 2 ^ 64) :
    u64FromStrRadix radix (fixedDigits radix width number) = some number := by
  have read := readDigits_fixedDigits positive most fits small
  have length := @length_fixedDigits radix width number
  have members := @mem_fixedDigits radix width number
  unfold u64FromStrRadix
  split
  next empty =>
    rw [empty, List.length_nil] at length
    omega
  next rest signed =>
    obtain ⟨digit, below, same⟩ := members positive (by rw [signed]; exact List.mem_cons_self)
    have none : ∀ digit < 16, '+' ≠ Nat.digitChar digit := by decide
    exact absurd same (none digit (by omega))
  next => exact read

theorem length_utf8Bytes_narrow {text : Text} (narrow : ∀ char ∈ text, char.utf8Size = 1) :
    (utf8Bytes text).length = text.length := by
  induction text with
  | nil => rfl
  | cons char rest ih =>
    rw [utf8Bytes_cons, List.length_append, String.length_utf8EncodeChar,
      narrow char List.mem_cons_self, List.length_cons,
      ih fun other member => narrow other (List.mem_cons_of_mem _ member)]
    omega

/-- Digits take one byte each. -/
theorem length_utf8Bytes_fixedDigits {width number : Nat} (positive : 0 < radix)
    (most : radix ≤ 16) : (utf8Bytes (fixedDigits radix width number)).length = width := by
  have narrow : ∀ digit < 16, (Nat.digitChar digit).utf8Size = 1 := by decide
  rw [length_utf8Bytes_narrow, length_fixedDigits]
  intro char member
  obtain ⟨digit, below, rfl⟩ := mem_fixedDigits positive member
  exact narrow digit (by omega)

end

/-! ## Decimal numerals -/

theorem digit_le_nine {digit : Char} (is : digit.isDigit) : digit.toNat - '0'.toNat ≤ 9 := by
  simp only [Char.isDigit, Bool.and_eq_true, decide_eq_true_eq, UInt32.le_iff_toNat_le] at is
  have upper : digit.toNat ≤ 57 := is.2
  change digit.toNat - 48 ≤ 9
  omega

theorem toDigit_of_isDigit {digit : Char} (is : digit.isDigit) :
    toDigit 10 digit = some (digit.toNat - '0'.toNat) := by
  have small := digit_le_nine is
  unfold toDigit
  simp only [is, ↓reduceIte]
  exact Option.filter_eq_some_iff.mpr ⟨rfl, by simpa using Nat.lt_succ_of_le small⟩

theorem le_ofDigitChars (digits : Text) (start : Nat) :
    start ≤ Nat.ofDigitChars 10 digits start := by
  rw [Nat.ofDigitChars_eq_ofDigitChars_zero]
  have positive : 0 < 10 ^ digits.length := Nat.pow_pos (by omega)
  exact Nat.le_add_right_of_le (Nat.le_mul_of_pos_left start positive)

theorem readDigits_of_digits {digits : Text} (all : ∀ char ∈ digits, char.isDigit) {start : Nat}
    (small : start < 2 ^ 64) : readDigits 10 start digits =
      if Nat.ofDigitChars 10 digits start < 2 ^ 64 then
        some (Nat.ofDigitChars 10 digits start) else none := by
  induction digits generalizing start with
  | nil => rw [readDigits, Nat.ofDigitChars_nil, if_pos small]
  | cons digit rest ih =>
    have tail := fun char member => all char (List.mem_cons_of_mem digit member)
    rw [readDigits, toDigit_of_isDigit (all digit List.mem_cons_self), Nat.ofDigitChars_cons]
    dsimp only
    rw [Nat.mul_comm start 10]
    split_ifs with large fits fits
    · exact absurd ((le_ofDigitChars rest _).trans_lt fits) (Nat.not_lt.mpr large)
    · rfl
    · rw [ih tail (Nat.lt_of_not_le large), if_pos fits]
    · rw [ih tail (Nat.lt_of_not_le large), if_neg fits]

theorem u64FromStrRadix_of_digits {digits : Text} (nonempty : digits ≠ [])
    (all : ∀ char ∈ digits, char.isDigit) : u64FromStrRadix 10 digits =
      if Nat.ofDigitChars 10 digits 0 < 2 ^ 64 then
        some (Nat.ofDigitChars 10 digits 0) else none := by
  unfold u64FromStrRadix
  split
  · exact absurd rfl nonempty
  · exact absurd (all '+' List.mem_cons_self) (by decide)
  · exact readDigits_of_digits all (by omega)

theorem u64FromStrRadix_toDigits {number : Nat} (small : number < 2 ^ 64) :
    u64FromStrRadix 10 (Nat.toDigits 10 number) = some number := by
  rw [u64FromStrRadix_of_digits Nat.toDigits_ne_nil fun char member =>
    Text.isDigit_of_mem_decimal member, Nat.ofDigitChars_toDigits (by omega) (by omega),
    if_pos small]

end ZManager
