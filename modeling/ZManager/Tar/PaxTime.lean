import ZManager.Foundation.Text
import ZManager.Foundation.Utf8

/-! # PAX times of TAR archives

A PAX `mtime` record holds a time as decimal seconds with a sign and a fraction.
The fraction of a time before the epoch counts backwards in the record and
forwards in the timestamp, so that a second is borrowed on either way
(`pax_times_round_trip_iff`).
-/

namespace ZManager

variable {digits : Text} {nanoseconds : Nat}

/-- `ArchiveTimestamp`: seconds of the epoch and the nanoseconds that follow them. -/
structure TarTimestamp where
  seconds : Int
  nanoseconds : Nat
  deriving DecidableEq

variable {timestamp : TarTimestamp}

/-- The seconds are an `i64`, and the nanoseconds are less than a second. -/
structure TarTimestamp.Valid (timestamp : TarTimestamp) : Prop where
  lower : -2 ^ 63 ≤ timestamp.seconds
  upper : timestamp.seconds < 2 ^ 63
  nanoseconds : timestamp.nanoseconds < 10 ^ 9

/-- The time in nanoseconds of the epoch. -/
def TarTimestamp.toNanoseconds (timestamp : TarTimestamp) : Int :=
  timestamp.seconds * 10 ^ 9 + timestamp.nanoseconds

/-! ## Writing -/

/-- A signed number in decimal. -/
def formatInteger (number : Int) : Text :=
  if number < 0 then '-' :: Nat.toDigits 10 number.natAbs else Nat.toDigits 10 number.natAbs

/-- The text of a time. -/
def timestampToPaxValue (timestamp : TarTimestamp) : Text :=
  if 0 ≤ timestamp.seconds then
    formatInteger timestamp.seconds ++ '.' :: Text.padded 9 timestamp.nanoseconds
  else if timestamp.nanoseconds = 0 then formatInteger timestamp.seconds
  else
    -- the fraction counts back from the next second
    let whole := timestamp.seconds.natAbs - 1
    let fraction := 10 ^ 9 - timestamp.nanoseconds
    '-' :: Nat.toDigits 10 whole ++ '.' :: Text.padded 9 fraction

/-! ## Reading -/

/-- A minus sign, or a plus sign that is dropped. -/
def splitSign : Text → Bool × Text
  | '-' :: rest => (true, rest)
  | '+' :: rest => (false, rest)
  | text => (false, text)

/-- `split_once('.')`, with no fraction where there is no point. -/
def splitFraction (text : Text) : Text × Text :=
  (text.takeWhile (· != '.'), (text.dropWhile (· != '.')).drop 1)

/-- The value that `u32` arithmetic gives, unless it overflows. -/
def checkedU32 (value : Nat) : Option Nat := if value < 2 ^ 32 then some value else none

/-- One more digit of the fraction. -/
def pushDigit (nanoseconds : Nat) (digit : Char) : Option Nat := do
  let shifted ← checkedU32 (nanoseconds * 10)
  checkedU32 (shifted + (digit.toNat - '0'.toNat))

/-- Nine digits of the fraction, filled up with zeros. -/
def fractionNanoseconds (fraction : Text) : Option Nat := do
  let nanoseconds ← (fraction.take 9).foldlM pushDigit 0
  checkedU32 (nanoseconds * 10 ^ (9 - (fraction.take 9).length))

/-- The time that a text gives. -/
def parsePaxText (value : Text) : Option TarTimestamp := do
  let (negative, unsigned) := splitSign value
  let (whole, fraction) := splitFraction unsigned
  if whole.isEmpty || !whole.all Char.isDigit || !fraction.all Char.isDigit then none
  else
    let whole ← u64FromStrRadix 10 whole
    -- `i64::try_from`, before the sign is looked at
    if 2 ^ 63 ≤ whole then none
    else
      let nanoseconds ← fractionNanoseconds fraction
      if !negative then some ⟨whole, nanoseconds⟩
      else if nanoseconds = 0 then some ⟨-(whole : Int), 0⟩
      else some ⟨-(whole : Int) - 1, 10 ^ 9 - nanoseconds⟩

def parsePaxMtime (value : List UInt8) : Option TarTimestamp := (fromUtf8 value).bind parsePaxText

/-! ## What a decimal text stands for -/

/-- The text is a number with an optional sign, and a fraction behind an optional
point. -/
structure IsDecimal (value : Text) (negative : Bool) (whole fraction : Text) : Prop where
  written : ∃ sign point, value = sign ++ (whole ++ point) ∧
    (negative = true ∧ sign = ['-'] ∨ negative = false ∧ (sign = ['+'] ∨ sign = [])) ∧
    (point = '.' :: fraction ∨ point = [] ∧ fraction = [])
  nonempty : whole ≠ []
  digits : ∀ char ∈ whole, char.isDigit
  fractionDigits : ∀ char ∈ fraction, char.isDigit

/-- The number in nanoseconds, its fraction cut to nine digits. -/
def decimalNanoseconds (negative : Bool) (whole fraction : Text) : Int :=
  let magnitude : Nat := Nat.ofDigitChars 10 whole 0 * 10 ^ 9 +
    Nat.ofDigitChars 10 fraction 0 * 10 ^ 9 / 10 ^ fraction.length
  if negative then -(magnitude : Int) else magnitude

theorem ofDigitChars_lt (all : ∀ char ∈ digits, char.isDigit) :
    Nat.ofDigitChars 10 digits 0 < 10 ^ digits.length := by
  induction digits with
  | nil => exact Nat.one_pos
  | cons digit rest ih =>
    have small := digit_le_nine (all digit List.mem_cons_self)
    have tail := ih fun char member => all char (List.mem_cons_of_mem _ member)
    rw [Nat.ofDigitChars_cons, Nat.ofDigitChars_eq_ofDigitChars_zero, List.length_cons,
      Nat.pow_succ]
    have product : 10 ^ rest.length * (10 * 0 + (digit.toNat - '0'.toNat)) ≤
        10 ^ rest.length * 9 := Nat.mul_le_mul_left _ (by omega)
    omega

/-- The first digits of a number are its quotient. -/
theorem ofDigitChars_take (all : ∀ char ∈ digits, char.isDigit) (count : Nat) :
    Nat.ofDigitChars 10 (digits.take count) 0 =
      Nat.ofDigitChars 10 digits 0 / 10 ^ (digits.length - count) := by
  have split := Nat.ofDigitChars_append (b := 10) (l := digits.take count) (m :=
      digits.drop count) 0
  rw [List.take_append_drop, Nat.ofDigitChars_eq_ofDigitChars_zero (l :=
      digits.drop count)] at split
  have small : Nat.ofDigitChars 10 (digits.drop count) 0 < 10 ^ (digits.length - count) := by
    rw [← List.length_drop]
    exact ofDigitChars_lt fun char member => all char (List.mem_of_mem_drop member)
  rw [split, List.length_drop, Nat.mul_add_div (Nat.pow_pos (by omega)), Nat.div_eq_of_lt small,
    Nat.add_zero]

/-! ## Reading digits -/

theorem foldlM_pushDigit (all : ∀ char ∈ digits, char.isDigit) {start : Nat}
    (fits : Nat.ofDigitChars 10 digits start < 2 ^ 32) :
    digits.foldlM pushDigit start = some (Nat.ofDigitChars 10 digits start) := by
  induction digits generalizing start with
  | nil => rfl
  | cons digit rest ih =>
    rw [Nat.ofDigitChars_cons] at fits ⊢
    have first := (le_ofDigitChars rest _).trans_lt fits
    rw [List.foldlM_cons]
    have pushed : pushDigit start digit = some (10 * start + (digit.toNat - '0'.toNat)) := by
      unfold pushDigit checkedU32
      rw [if_pos (show start * 10 < 2 ^ 32 by omega)]
      change (if start * 10 + (digit.toNat - '0'.toNat) < 2 ^ 32 then _ else _) = _
      rw [Nat.mul_comm start 10, if_pos first]
    rw [pushed]
    exact ih (fun char member => all char (List.mem_cons_of_mem _ member)) fits

/-- The nine digits are the fraction in nanoseconds; `u32` is wide enough for them. -/
theorem fractionNanoseconds_eq {fraction : Text} (all : ∀ char ∈ fraction, char.isDigit) :
    fractionNanoseconds fraction =
        some (Nat.ofDigitChars 10 fraction 0 * 10 ^ 9 / 10 ^ fraction.length) ∧
      Nat.ofDigitChars 10 fraction 0 * 10 ^ 9 / 10 ^ fraction.length < 10 ^ 9 := by
  have front : ∀ char ∈ fraction.take 9, char.isDigit :=
    fun char member => all char (List.mem_of_mem_take member)
  have width : (fraction.take 9).length ≤ 9 := by
    rw [List.length_take]
    exact Nat.min_le_left _ _
  have small := ofDigitChars_lt front
  have most : 10 ^ (fraction.take 9).length ≤ 10 ^ 9 := Nat.pow_le_pow_right (by omega) width
  have filled : Nat.ofDigitChars 10 (fraction.take 9) 0 * 10 ^ (9 - (fraction.take 9).length) =
      Nat.ofDigitChars 10 fraction 0 * 10 ^ 9 / 10 ^ fraction.length := by
    rcases Nat.le_total fraction.length 9 with short | long
    · rw [List.take_of_length_le short, ← Nat.pow_sub_mul_pow 10 short, ← Nat.mul_assoc,
        Nat.mul_div_cancel _ (Nat.pow_pos (by omega))]
    · rw [ofDigitChars_take all, List.length_take_of_le long, Nat.sub_self, Nat.pow_zero,
        Nat.mul_one, ← Nat.pow_sub_mul_pow 10 long, Nat.mul_div_mul_right _ _ (by omega)]
  have below : Nat.ofDigitChars 10 (fraction.take 9) 0 * 10 ^ (9 - (fraction.take 9).length) <
      10 ^ 9 := by
    calc Nat.ofDigitChars 10 (fraction.take 9) 0 * 10 ^ (9 - (fraction.take 9).length)
        < 10 ^ (fraction.take 9).length * 10 ^ (9 - (fraction.take 9).length) :=
          Nat.mul_lt_mul_of_pos_right small (Nat.pow_pos (by omega))
      _ = 10 ^ 9 := by rw [← Nat.pow_add, Nat.add_sub_cancel' width]
  refine ⟨?_, filled ▸ below⟩
  unfold fractionNanoseconds
  rw [foldlM_pushDigit front (by omega)]
  change checkedU32 (Nat.ofDigitChars 10 (fraction.take 9) 0 *
    10 ^ (9 - (fraction.take 9).length)) = _
  rw [filled] at below ⊢
  exact if_pos (by omega)

/-! ## The timestamp of a decimal text -/

/-- The timestamp of a sign, whole seconds and nanoseconds. -/
def signedTimestamp (negative : Bool) (whole nanoseconds : Nat) : TarTimestamp :=
  if !negative then ⟨whole, nanoseconds⟩
  else if nanoseconds = 0 then ⟨-(whole : Int), 0⟩
  else ⟨-(whole : Int) - 1, 10 ^ 9 - nanoseconds⟩

theorem signedTimestamp_valid (negative : Bool) {whole : Nat} (fits : whole < 2 ^ 63)
    (small : nanoseconds < 10 ^ 9) : (signedTimestamp negative whole nanoseconds).Valid := by
  unfold signedTimestamp
  split_ifs
  · exact ⟨by dsimp only; omega, by dsimp only; omega, small⟩
  · exact ⟨by dsimp only; omega, by dsimp only; omega, by dsimp only; omega⟩
  · exact ⟨by dsimp only; omega, by dsimp only; omega, by dsimp only; omega⟩

theorem toNanoseconds_signedTimestamp (negative : Bool) {whole : Nat}
    (small : nanoseconds < 10 ^ 9) : (signedTimestamp negative whole nanoseconds).toNanoseconds =
      if negative then -((whole * 10 ^ 9 + nanoseconds : Nat) : Int)
      else ((whole * 10 ^ 9 + nanoseconds : Nat) : Int) := by
  unfold signedTimestamp TarTimestamp.toNanoseconds
  cases negative with
  | false => simp
  | true =>
    by_cases zero : nanoseconds = 0
    · simp only [zero, Bool.not_true, Bool.false_eq_true, ↓reduceIte]
      omega
    · simp only [Bool.not_true, Bool.false_eq_true, ↓reduceIte, zero]
      omega

/-! ## Sign, whole part and fraction of a text -/

/-- The sign is split off in front of a digit. -/
theorem splitSign_append {sign rest : Text} {first : Char} {negative : Bool}
    (signed : negative = true ∧ sign = ['-'] ∨ negative = false ∧ (sign = ['+'] ∨ sign = []))
    (digit : first.isDigit) : splitSign (sign ++ first :: rest) = (negative, first :: rest) := by
  rcases signed with ⟨rfl, rfl⟩ | ⟨rfl, rfl | rfl⟩
  · rfl
  · rfl
  · have minus : first ≠ '-' := by
      rintro rfl
      exact absurd digit (by decide)
    have plus : first ≠ '+' := by
      rintro rfl
      exact absurd digit (by decide)
    change splitSign (first :: rest) = _
    unfold splitSign
    split
    · rename_i same
      exact absurd (List.cons.inj same).1 minus
    · rename_i same
      exact absurd (List.cons.inj same).1 plus
    · rfl

/-- Every text is its sign and what remains. -/
theorem exists_splitSign (value : Text) : ∃ sign, value = sign ++ (splitSign value).2 ∧
    ((splitSign value).1 = true ∧ sign = ['-'] ∨
      (splitSign value).1 = false ∧ (sign = ['+'] ∨ sign = [])) := by
  unfold splitSign
  split
  · exact ⟨['-'], rfl, .inl ⟨rfl, rfl⟩⟩
  · exact ⟨['+'], rfl, .inr ⟨rfl, .inl rfl⟩⟩
  · exact ⟨[], rfl, .inr ⟨rfl, .inr rfl⟩⟩

/-- The first point ends the whole part. -/
theorem splitFraction_append {whole fraction point : Text}
    (all : ∀ char ∈ whole, char.isDigit)
    (pointed : point = '.' :: fraction ∨ point = [] ∧ fraction = []) :
    splitFraction (whole ++ point) = (whole, fraction) := by
  have plain : ∀ char ∈ whole, (char != '.') = true := by
    intro char member
    apply bne_iff_ne.mpr
    rintro rfl
    exact absurd (all '.' member) (by decide)
  unfold splitFraction
  rw [List.takeWhile_append_of_pos plain, List.dropWhile_append_of_pos plain]
  rcases pointed with rfl | ⟨rfl, rfl⟩
  · rw [List.takeWhile_cons_of_neg (by decide), List.dropWhile_cons_of_neg (by decide),
      List.append_nil]
    rfl
  · rw [List.takeWhile_nil, List.append_nil]
    rfl

theorem exists_splitFraction (text : Text) : ∃ point, text = (splitFraction text).1 ++ point ∧
    (point = '.' :: (splitFraction text).2 ∨ point = [] ∧ (splitFraction text).2 = []) := by
  refine ⟨text.dropWhile (· != '.'), List.takeWhile_append_dropWhile.symm, ?_⟩
  unfold splitFraction
  cases tail : text.dropWhile (· != '.') with
  | nil => exact .inr ⟨rfl, rfl⟩
  | cons first rest =>
    have some : text.dropWhile (· != '.') ≠ [] := by
      rw [tail]
      exact List.cons_ne_nil _ _
    have point := List.head_dropWhile_not (· != '.') some
    simp only [tail, List.head_cons, bne_eq_false_iff_eq] at point
    rw [point]
    exact .inl rfl

theorem parsePaxText_of_decimal {value whole fraction : Text} {negative : Bool}
    (is : IsDecimal value negative whole fraction) :
    parsePaxText value = if 2 ^ 63 ≤ Nat.ofDigitChars 10 whole 0 then none
      else some (signedTimestamp negative (Nat.ofDigitChars 10 whole 0)
        (Nat.ofDigitChars 10 fraction 0 * 10 ^ 9 / 10 ^ fraction.length)) := by
  obtain ⟨sign, point, rfl, signed, pointed⟩ := is.written
  have unsigned : splitSign (sign ++ (whole ++ point)) = (negative, whole ++ point) := by
    obtain ⟨first, rest, rfl⟩ := List.exists_cons_of_ne_nil is.nonempty
    exact splitSign_append signed (is.digits first List.mem_cons_self)
  have digits : (whole.isEmpty || !whole.all Char.isDigit || !fraction.all Char.isDigit) =
      false := by
    simp only [Bool.or_eq_false_iff, Bool.not_eq_false', List.all_eq_true]
    exact ⟨⟨by simpa using is.nonempty, is.digits⟩, is.fractionDigits⟩
  unfold parsePaxText
  simp only [unsigned, splitFraction_append is.digits pointed, digits, Bool.false_eq_true,
    ↓reduceIte, u64FromStrRadix_of_digits is.nonempty is.digits,
    (fractionNanoseconds_eq is.fractionDigits).1]
  by_cases fits : Nat.ofDigitChars 10 whole 0 < 2 ^ 64
  · rw [if_pos fits]
    by_cases wide : 2 ^ 63 ≤ Nat.ofDigitChars 10 whole 0
    · simp only [Option.bind_eq_bind, Option.bind_some, wide, ↓reduceIte]
    · simp only [Option.bind_eq_bind, Option.bind_some, wide, ↓reduceIte]
      unfold signedTimestamp
      split_ifs <;> rfl
  · rw [if_neg fits, if_pos (by omega)]
    rfl

/-- Only numbers are accepted. -/
theorem exists_isDecimal_of_parsePaxText {value : Text}
    (parsed : parsePaxText value = some timestamp) :
    ∃ negative whole fraction, IsDecimal value negative whole fraction := by
  obtain ⟨sign, split, signed⟩ := exists_splitSign value
  obtain ⟨point, unsigned, pointed⟩ := exists_splitFraction (splitSign value).2
  by_cases digits : ((splitFraction (splitSign value).2).1.isEmpty ||
      !(splitFraction (splitSign value).2).1.all Char.isDigit ||
      !(splitFraction (splitSign value).2).2.all Char.isDigit) = true
  · unfold parsePaxText at parsed
    simp [digits] at parsed
  · simp only [Bool.or_eq_true, Bool.not_eq_true', not_or, Bool.not_eq_false] at digits
    refine ⟨_, _, _, ⟨sign, point, unsigned ▸ split, signed, pointed⟩, ?_,
      List.all_eq_true.mp digits.1.2, List.all_eq_true.mp digits.2⟩
    intro empty
    exact digits.1.1 (List.isEmpty_iff.mpr empty)

/-! ## The texts that are written -/

section

variable {whole fraction : Text}

section

variable (nonempty : whole ≠ []) (all : ∀ char ∈ whole, char.isDigit)
include nonempty all

theorem isDecimal_unsigned (fractionAll : ∀ char ∈ fraction, char.isDigit) :
    IsDecimal (whole ++ '.' :: fraction) false whole fraction :=
  ⟨⟨[], '.' :: fraction, rfl, .inr ⟨rfl, .inr rfl⟩, .inl rfl⟩, nonempty, all, fractionAll⟩

theorem isDecimal_negative (fractionAll : ∀ char ∈ fraction, char.isDigit) :
    IsDecimal ('-' :: (whole ++ '.' :: fraction)) true whole fraction :=
  ⟨⟨['-'], '.' :: fraction, rfl, .inl ⟨rfl, rfl⟩, .inl rfl⟩, nonempty, all, fractionAll⟩

theorem isDecimal_negative_whole :
    IsDecimal ('-' :: whole) true whole [] :=
  ⟨⟨['-'], [], by rw [List.append_nil]; rfl, .inl ⟨rfl, rfl⟩, .inr ⟨rfl, rfl⟩⟩, nonempty, all,
    nofun⟩

end

end

theorem toDigits_ne_nil (number : Nat) : Nat.toDigits 10 number ≠ [] :=
  List.ne_nil_of_length_pos Nat.length_toDigits_pos

theorem padded_nanoseconds (small : nanoseconds < 10 ^ 9) :
    Nat.ofDigitChars 10 (Text.padded 9 nanoseconds) 0 * 10 ^ 9 /
      10 ^ (Text.padded 9 nanoseconds).length = nanoseconds := by
  rw [Text.ofDigitChars_padded, (Text.length_padded_eq_iff (by omega)).mpr small,
    Nat.mul_div_cancel _ (by omega)]

/-- What is read of a record that was written. -/
theorem parsePaxText_timestampToPaxValue (valid : timestamp.Valid) :
    parsePaxText (timestampToPaxValue timestamp) =
      if timestamp.seconds = -2 ^ 63 ∧ timestamp.nanoseconds = 0 then none
      else some timestamp := by
  obtain ⟨seconds, nanoseconds⟩ := timestamp
  obtain ⟨lower, upper, small⟩ := valid
  dsimp only at lower upper small ⊢
  unfold timestampToPaxValue
  dsimp only
  by_cases later : 0 ≤ seconds
  · have plain : formatInteger seconds = Nat.toDigits 10 seconds.natAbs :=
      if_neg (Int.not_lt.mpr later)
    rw [if_pos later, plain, parsePaxText_of_decimal (isDecimal_unsigned (toDigits_ne_nil _)
      (fun _ => Text.isDigit_of_mem_decimal) (fun _ => Text.isDigit_of_mem_padded)),
      Nat.ofDigitChars_ten_toDigits, padded_nanoseconds small, if_neg (by omega),
      if_neg (by omega)]
    have same : ((seconds.natAbs : Nat) : Int) = seconds := Int.natAbs_of_nonneg later
    simp [signedTimestamp, same]
  rw [if_neg later]
  by_cases round : nanoseconds = 0
  · subst round
    have signed : formatInteger seconds = '-' :: Nat.toDigits 10 seconds.natAbs :=
      if_pos (Int.not_le.mp later)
    rw [if_pos rfl, signed, parsePaxText_of_decimal (isDecimal_negative_whole (toDigits_ne_nil _)
      (fun _ => Text.isDigit_of_mem_decimal)), Nat.ofDigitChars_ten_toDigits]
    by_cases first : seconds = -2 ^ 63
    · rw [if_pos (by omega), if_pos ⟨first, rfl⟩]
    · rw [if_neg (by omega), if_neg (fun both => first both.1)]
      have back : -((seconds.natAbs : Nat) : Int) = seconds := by omega
      simp only [signedTimestamp, Bool.not_true, Bool.false_eq_true, ↓reduceIte, back,
        Nat.ofDigitChars_nil, Nat.zero_mul, Nat.zero_div]
  · have fraction : 10 ^ 9 - nanoseconds < 10 ^ 9 := by omega
    rw [if_neg round, List.cons_append, parsePaxText_of_decimal (isDecimal_negative (toDigits_ne_nil _)
      (fun _ => Text.isDigit_of_mem_decimal) (fun _ => Text.isDigit_of_mem_padded)),
      Nat.ofDigitChars_ten_toDigits, padded_nanoseconds fraction, if_neg (by omega),
      if_neg (fun both => round both.2)]
    have some : 10 ^ 9 - nanoseconds ≠ 0 := by omega
    have whole : -((seconds.natAbs - 1 : Nat) : Int) - 1 = seconds := by omega
    have rest : 10 ^ 9 - (10 ^ 9 - nanoseconds) = nanoseconds := by omega
    simp only [signedTimestamp, Bool.not_true, Bool.false_eq_true, ↓reduceIte, some, whole, rest]

/-- **PAX times.** A timestamp is read back as it was written exactly when it is not the first
second of the range, without a fraction; and what is read of any text is its value, cut to
nanoseconds, within the range. -/
theorem pax_times_round_trip_iff (timestamp : TarTimestamp) (value : List UInt8) :
    (timestamp.Valid →
      (parsePaxMtime (utf8Bytes (timestampToPaxValue timestamp)) = some timestamp ↔
        ¬ (timestamp.seconds = -2 ^ 63 ∧ timestamp.nanoseconds = 0))) ∧
    (parsePaxMtime value = some timestamp →
      timestamp.Valid ∧ ∃ text negative whole fraction, fromUtf8 value = some text ∧
        IsDecimal text negative whole fraction ∧
          timestamp.toNanoseconds = decimalNanoseconds negative whole fraction) := by
  constructor
  · intro valid
    unfold parsePaxMtime
    rw [fromUtf8_utf8Bytes, Option.bind_some, parsePaxText_timestampToPaxValue valid]
    split_ifs with first
    · exact ⟨nofun, fun other => absurd first other⟩
    · exact ⟨fun _ => first, fun _ => rfl⟩
  · intro parsed
    obtain ⟨text, decoded, parsed⟩ := Option.bind_eq_some_iff.mp parsed
    obtain ⟨negative, whole, fraction, is⟩ := exists_isDecimal_of_parsePaxText parsed
    have small := (fractionNanoseconds_eq is.fractionDigits).2
    rw [parsePaxText_of_decimal is] at parsed
    split_ifs at parsed with wide
    cases parsed
    refine ⟨signedTimestamp_valid negative (Nat.lt_of_not_le wide) small, text, negative, whole,
      fraction, decoded, is, ?_⟩
    rw [toNanoseconds_signedTimestamp negative small]
    rfl

/-- Half a second before the epoch comes back, and ten digits are cut to nine. -/
theorem half_second_round_trip :
    parsePaxMtime (utf8Bytes (timestampToPaxValue ⟨-1, 500000000⟩)) = some ⟨-1, 500000000⟩ ∧
      ∃ timestamp, parsePaxMtime (utf8Bytes "-1.2345678909".toList) = some timestamp ∧
        timestamp.Valid := by
  refine ⟨((pax_times_round_trip_iff ⟨-1, 500000000⟩ []).1 ⟨by decide, by decide, by decide⟩).mpr
    (by decide), ⟨-2, 765432110⟩, by decide +kernel, ?_⟩
  exact ((pax_times_round_trip_iff _ (utf8Bytes "-1.2345678909".toList)).2 (by decide +kernel)).1

/-- The first second of the range is written and not read. -/
theorem first_second_lost :
    timestampToPaxValue ⟨-2 ^ 63, 0⟩ = "-9223372036854775808".toList ∧
      parsePaxMtime (utf8Bytes "-9223372036854775808".toList) = none := by
  constructor <;> decide +kernel

end ZManager
