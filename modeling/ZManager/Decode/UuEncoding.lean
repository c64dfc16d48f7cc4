import ZManager.Decode.UuBlocks

/-! # Encoding as uuencoded and base64 text

A section is a `begin` line, the lines of a body and an end. Every line of a body is
decoded to the bytes it was encoded from.
-/

namespace ZManager

namespace Uu

/-! ## Characters -/

/-- What stands for zero: a blank, or a backtick where trailing blanks are lost. -/
inductive ZeroChar where
  | blank
  | backtick

def ZeroChar.byte : ZeroChar → UInt8
  | .blank => 0x20
  | .backtick => 0x60

/-- The character of a number below 64. -/
def uuChar (zero : ZeroChar) (number : Nat) : UInt8 :=
  if number = 0 then zero.byte else UInt8.ofNat (number + 0x20)

def base64Char (number : Nat) : UInt8 :=
  if number < 26 then UInt8.ofNat (number + 0x41)
  else if number < 52 then UInt8.ofNat (number - 26 + 0x61)
  else if number < 62 then UInt8.ofNat (number - 52 + 0x30)
  else if number = 62 then 0x2b
  else 0x2f

/-- Three bytes as four characters. -/
def group (char : Nat → UInt8) (a b c : UInt8) : List UInt8 :=
  [char (a.toNat / 4), char (a.toNat % 4 * 16 + b.toNat / 16),
    char (b.toNat % 16 * 4 + c.toNat / 64), char (c.toNat % 64)]

/-- The groups of a line; the last is filled up with zeros. -/
def uuGroups (zero : ZeroChar) : List UInt8 → List UInt8
  | [] => []
  | [a] => group (uuChar zero) a 0 0
  | [a, b] => group (uuChar zero) a b 0
  | a :: b :: c :: rest => group (uuChar zero) a b c ++ uuGroups zero rest

/-- The padded text of some bytes. -/
def base64 : List UInt8 → List UInt8
  | [] => []
  | [a] => (group base64Char a 0 0).take 2 ++ [0x3d, 0x3d]
  | [a, b] => (group base64Char a b 0).take 3 ++ [0x3d]
  | a :: b :: c :: rest => group base64Char a b c ++ base64 rest

theorem uuChar_spec (zero : ZeroChar) {number : Nat} (small : number < 64) :
    isUuChar (uuChar zero number) = true ∧ uuDecode (uuChar zero number) = number := by
  have each : ∀ index : Fin 64, isUuChar (uuChar zero index) = true ∧
      uuDecode (uuChar zero index) = index.val := by
    cases zero <;> decide +kernel
  exact each ⟨number, small⟩

theorem base64Char_spec {number : Nat} (small : number < 64) :
    isBase64Char (base64Char number) = true ∧ base64Value (base64Char number) = number ∧
      base64Char number ≠ 0x3d := by
  have each : ∀ index : Fin 64, isBase64Char (base64Char index) = true ∧
      base64Value (base64Char index) = index.val ∧ base64Char index ≠ 0x3d := by
    decide +kernel
  exact each ⟨number, small⟩

theorem ofNat_eq_of_mod {byte : UInt8} {number : Nat} (same : number % 256 = byte.toNat) :
    UInt8.ofNat number = byte := by
  rw [← UInt8.toNat_inj, UInt8.toNat_ofNat']
  exact same

section Unpacking

variable (a b c : UInt8)

theorem first_byte : UInt8.ofNat ((a.toNat / 4 * 2 ^ 18 +
    (a.toNat % 4 * 16 + b.toNat / 16) * 2 ^ 12) / 2 ^ 16) = a := by
  have belowA := a.toNat_lt
  have belowB := b.toNat_lt
  apply ofNat_eq_of_mod
  omega

theorem second_byte : UInt8.ofNat ((a.toNat / 4 * 2 ^ 18 +
    (a.toNat % 4 * 16 + b.toNat / 16) * 2 ^ 12 +
      (b.toNat % 16 * 4 + c.toNat / 64) * 2 ^ 6) / 2 ^ 8) = b := by
  have belowA := a.toNat_lt
  have belowB := b.toNat_lt
  have belowC := c.toNat_lt
  apply ofNat_eq_of_mod
  omega

theorem third_byte : UInt8.ofNat (a.toNat / 4 * 2 ^ 18 +
    (a.toNat % 4 * 16 + b.toNat / 16) * 2 ^ 12 +
      (b.toNat % 16 * 4 + c.toNat / 64) * 2 ^ 6 + c.toNat % 64) = c := by
  have belowA := a.toNat_lt
  have belowB := b.toNat_lt
  have belowC := c.toNat_lt
  apply ofNat_eq_of_mod
  omega

theorem sextets_lt : a.toNat / 4 < 64 ∧ a.toNat % 4 * 16 + b.toNat / 16 < 64 ∧
    b.toNat % 16 * 4 + c.toNat / 64 < 64 ∧ c.toNat % 64 < 64 := by
  have belowA := a.toNat_lt
  have belowB := b.toNat_lt
  have belowC := c.toNat_lt
  omega

end Unpacking

/-! ## Groups -/

/-- The groups of a line are decoded to its bytes. -/
theorem decodeUuGroups_uuGroups (zero : ZeroChar) (bytes : List UInt8) :
    decodeUuGroups bytes.length (uuGroups zero bytes) = (bytes, .ok ()) := by
  fun_induction uuGroups zero bytes with
  | case1 => rfl
  | case2 a =>
    obtain ⟨w, x, -, -⟩ := sextets_lt a 0 0
    obtain ⟨isW, ofW⟩ := uuChar_spec zero w
    obtain ⟨isX, ofX⟩ := uuChar_spec zero x
    simp only [group, decodeUuGroups, List.length_cons, List.length_nil, isW, isX, ofW, ofX,
      first_byte, Bool.not_true, Bool.or_self, Bool.false_eq_true, ↓reduceIte]
  | case3 a b =>
    obtain ⟨w, x, y, -⟩ := sextets_lt a b 0
    obtain ⟨isW, ofW⟩ := uuChar_spec zero w
    obtain ⟨isX, ofX⟩ := uuChar_spec zero x
    obtain ⟨isY, ofY⟩ := uuChar_spec zero y
    simp only [group, decodeUuGroups, List.length_cons, List.length_nil, isW, isX, isY, ofW, ofX,
      ofY, first_byte, second_byte, Bool.not_true, Bool.or_self, Bool.false_eq_true, ↓reduceIte,
      Nat.zero_add, Nat.one_ne_zero]
  | case4 a b c rest ih =>
    obtain ⟨w, x, y, z⟩ := sextets_lt a b c
    obtain ⟨isW, ofW⟩ := uuChar_spec zero w
    obtain ⟨isX, ofX⟩ := uuChar_spec zero x
    obtain ⟨isY, ofY⟩ := uuChar_spec zero y
    obtain ⟨isZ, ofZ⟩ := uuChar_spec zero z
    have more : rest.length + 1 + 1 ≠ 0 := by omega
    have more' : rest.length + 1 + 1 ≠ 1 := by omega
    simp only [group, List.cons_append, List.nil_append, decodeUuGroups, List.length_cons, isW,
      isX, isY, isZ, ofW, ofX, ofY, ofZ, first_byte, second_byte, third_byte, Bool.not_true,
      Bool.or_self, Bool.false_eq_true, ↓reduceIte, more, more', Nat.add_sub_cancel, ih]

/-- A padded text is decoded to its bytes, up to the padding. -/
theorem decodeBase64Groups_base64 (bytes : List UInt8) :
    ∃ left, decodeBase64Groups (base64 bytes) = (bytes, left) ∧
      left.head?.any (· ≠ 0x3d) = false := by
  fun_induction base64 bytes with
  | case1 => exact ⟨[], rfl, rfl⟩
  | case2 a =>
    obtain ⟨w, x, -, -⟩ := sextets_lt a 0 0
    obtain ⟨isW, ofW, -⟩ := base64Char_spec w
    obtain ⟨isX, ofX, -⟩ := base64Char_spec x
    refine ⟨[0x3d, 0x3d], ?_, rfl⟩
    simp only [group, List.take_succ_cons, List.take_zero, List.cons_append, List.nil_append,
      decodeBase64Groups, isW, isX, ofW, ofX, first_byte, Bool.not_true, Bool.or_self,
      Bool.false_eq_true, decide_true, Bool.true_or, ↓reduceIte]
  | case3 a b =>
    obtain ⟨w, x, y, -⟩ := sextets_lt a b 0
    obtain ⟨isW, ofW, -⟩ := base64Char_spec w
    obtain ⟨isX, ofX, -⟩ := base64Char_spec x
    obtain ⟨isY, ofY, noPad⟩ := base64Char_spec y
    refine ⟨[0x3d], ?_, rfl⟩
    simp only [group, List.take_succ_cons, List.take_zero, List.cons_append, List.nil_append,
      decodeBase64Groups, isW, isX, isY, ofW, ofX, ofY, noPad, first_byte, second_byte,
      Bool.not_true, Bool.or_self, Bool.false_eq_true, decide_true, decide_false, Bool.true_or,
      ↓reduceIte]
  | case4 a b c rest ih =>
    obtain ⟨left, decoded, padding⟩ := ih
    obtain ⟨w, x, y, z⟩ := sextets_lt a b c
    obtain ⟨isW, ofW, -⟩ := base64Char_spec w
    obtain ⟨isX, ofX, -⟩ := base64Char_spec x
    obtain ⟨isY, ofY, noPad⟩ := base64Char_spec y
    obtain ⟨isZ, ofZ, noPad'⟩ := base64Char_spec z
    refine ⟨left, ?_, padding⟩
    simp only [group, List.cons_append, List.nil_append, decodeBase64Groups, isW, isX, isY, isZ,
      ofW, ofX, ofY, ofZ, noPad, noPad', first_byte, second_byte, third_byte, Bool.not_true,
      Bool.or_self, Bool.false_eq_true, decide_false, ↓reduceIte, decoded]

/-! ## Lines -/

/-- The lines of a text, each with its end. -/
def unlines (lines : List (List UInt8)) : List UInt8 := lines.flatMap (· ++ [0x0a])

def isPrintable (byte : UInt8) : Bool := 0x20 ≤ byte && byte ≤ 0x7e

/-- A `begin` line: a keyword with its blank, three octal digits, a blank and a name. -/
structure Header (keyword : List UInt8) where
  owner : Fin 8
  users : Fin 8
  others : Fin 8
  name : List UInt8
  named : name ≠ []
  printable : ∀ byte ∈ name, isPrintable byte = true
  short : keyword.length + 4 + name.length < maxScan

def octalDigit (digit : Fin 8) : UInt8 := UInt8.ofNat (digit.val + 0x30)

def Header.mode {keyword : List UInt8} (header : Header keyword) : List UInt8 :=
  [octalDigit header.owner, octalDigit header.users, octalDigit header.others, 0x20]

def Header.line {keyword : List UInt8} (header : Header keyword) : List UInt8 :=
  keyword ++ header.mode ++ header.name

/-- What a line of uuencoded text holds. -/
structure UuPiece where
  bytes : List UInt8
  nonempty : 0 < bytes.length
  short : bytes.length ≤ 45

/-- The length of the piece and its groups. -/
def UuPiece.line (zero : ZeroChar) (piece : UuPiece) : List UInt8 :=
  uuChar zero piece.bytes.length :: uuGroups zero piece.bytes

/-- A padded text that is cut into lines. -/
structure Base64Body where
  payload : List UInt8
  lines : List (List UInt8)
  cut : lines.flatten = base64 payload
  aligned : ∀ line ∈ lines, line.length % 4 = 0
  short : ∀ line ∈ lines, line.length ≤ maxLine

/-- One encoded file of a text. -/
inductive Section where
  | uu (header : Header UuDecoder.beginUu) (zero : ZeroChar) (pieces : List UuPiece)
  | base64 (header : Header UuDecoder.beginBase64) (body : Base64Body)

/-- `end`, and `====`. -/
def endLine : List UInt8 := [0x65, 0x6e, 0x64]

def paddingLine : List UInt8 := [0x3d, 0x3d, 0x3d, 0x3d]

def Section.lines : Section → List (List UInt8)
  | .uu header zero pieces => header.line :: (pieces.map (·.line zero) ++ [[zero.byte], endLine])
  | .base64 header body => header.line :: (body.lines ++ [paddingLine])

def Section.payload : Section → List UInt8
  | .uu _ _ pieces => pieces.flatMap (·.bytes)
  | .base64 _ body => body.payload

/-- The text of some sections. -/
def encode (sections : List Section) : List UInt8 := unlines (sections.flatMap (·.lines))

def payload (sections : List Section) : List UInt8 := sections.flatMap (·.payload)

/-- What a decoder with a state and a scan holds when a line has been decoded. -/
def decodedTo (state : UuState) (scanned : Nat) (bytes : List UInt8) : UuDecoder :=
  ⟨[], state, [], 0, scanned, 0, bytes, 0, false⟩

theorem octalDigit_spec (digit : Fin 8) :
    0x30 ≤ octalDigit digit ∧ octalDigit digit ≤ 0x37 ∧ isPrintable (octalDigit digit) = true := by
  revert digit
  decide +kernel

section

variable {keyword : List UInt8} (header : Header keyword)

theorem Header.hasValidMode :
    UuDecoder.hasValidMode header.line keyword.length = true := by
  have mode : (header.line.drop keyword.length).take 4 = header.mode := by
    unfold line
    rw [List.append_assoc, List.drop_left]
    rfl
  obtain ⟨low, high, -⟩ := octalDigit_spec header.owner
  obtain ⟨low', high', -⟩ := octalDigit_spec header.users
  obtain ⟨low'', high'', -⟩ := octalDigit_spec header.others
  unfold UuDecoder.hasValidMode
  rw [mode]
  simp [Header.mode, low, high, low', high', low'', high'']

theorem Header.length_line :
    header.line.length = keyword.length + 4 + header.name.length := by
  unfold line
  rw [List.length_append, List.length_append]
  rfl

end

/-- The `begin` line of uuencoded text starts a body. -/
theorem lineEffect_beginUu (header : Header UuDecoder.beginUu) :
    UuDecoder.lineEffect .findHead 0 header.line = (.ok (), decodedTo .readUu 0 []) := by
  have some := List.length_pos_iff.mpr header.named
  have length := header.length_line
  have fits : ¬maxScan < 0 + header.line.length + 1 := by
    have short := header.short
    omega
  have found : 11 ≤ header.line.length ∧ UuDecoder.beginUu.isPrefixOf header.line = true := by
    refine ⟨?_, ?_⟩
    · rw [length]
      change 11 ≤ 6 + 4 + header.name.length
      omega
    · unfold Header.line
      rw [List.append_assoc]
      exact List.isPrefixOf_iff_prefix.mpr (List.prefix_append _ _)
  have valid := header.hasValidMode
  unfold UuDecoder.lineEffect UuDecoder.processLine UuDecoder.findHeader
  dsimp only
  rw [if_neg fits, if_pos found]
  exact if_pos valid

theorem lineEffect_beginBase64 (header : Header UuDecoder.beginBase64) :
    UuDecoder.lineEffect .findHead 0 header.line = (.ok (), decodedTo .readBase64 0 []) := by
  have some := List.length_pos_iff.mpr header.named
  have length := header.length_line
  have fits : ¬maxScan < 0 + header.line.length + 1 := by
    have short := header.short
    omega
  have other : ¬(11 ≤ header.line.length ∧ UuDecoder.beginUu.isPrefixOf header.line = true) :=
    fun found => absurd found.2 nofun
  have found : 18 ≤ header.line.length ∧ UuDecoder.beginBase64.isPrefixOf header.line = true := by
    refine ⟨?_, ?_⟩
    · rw [length]
      change 18 ≤ 13 + 4 + header.name.length
      omega
    · unfold Header.line
      rw [List.append_assoc]
      exact List.isPrefixOf_iff_prefix.mpr (List.prefix_append _ _)
  have valid := header.hasValidMode
  unfold UuDecoder.lineEffect UuDecoder.processLine UuDecoder.findHeader
  dsimp only
  rw [if_neg fits, if_neg other, if_pos found]
  exact if_pos valid

theorem length_le_uuGroups (zero : ZeroChar) (bytes : List UInt8) :
    bytes.length ≤ (uuGroups zero bytes).length ∧
      (uuGroups zero bytes).length ≤ bytes.length + bytes.length / 3 + 3 := by
  fun_induction uuGroups zero bytes with
  | case1 | case2 | case3 => simp [group]
  | case4 a b c rest ih =>
    simp only [group, List.length_append, List.length_cons, List.length_nil]
    omega

/-- A line of uuencoded text is decoded to its piece. -/
theorem lineEffect_piece (scanned : Nat) (zero : ZeroChar) (piece : UuPiece) :
    UuDecoder.lineEffect .readUu scanned (piece.line zero) =
      (.ok (), decodedTo .readUu scanned piece.bytes) := by
  obtain ⟨bytes, nonempty, short⟩ := piece
  obtain ⟨isChar, value⟩ := uuChar_spec zero (show bytes.length < 64 by omega)
  obtain ⟨long, -⟩ := length_le_uuGroups zero bytes
  unfold UuDecoder.lineEffect UuDecoder.processLine UuDecoder.decodeUuLine UuPiece.line
  dsimp only
  rw [isChar, value, decodeUuGroups_uuGroups, if_neg (by decide), if_neg (by omega),
    if_neg (by omega)]
  rfl

theorem lineEffect_zero (scanned : Nat) (zero : ZeroChar) :
    UuDecoder.lineEffect .readUu scanned [zero.byte] = (.ok (), decodedTo .uuEnd scanned []) := by
  cases zero <;> rfl

theorem lineEffect_end (scanned : Nat) :
    UuDecoder.lineEffect .uuEnd scanned endLine = (.ok (), decodedTo .findHead scanned []) := rfl

/-- A line of base64 text is decoded to its bytes. -/
theorem lineEffect_base64 (scanned : Nat) (bytes : List UInt8) :
    UuDecoder.lineEffect .readBase64 scanned (base64 bytes) =
      (.ok (), decodedTo .readBase64 scanned bytes) := by
  have body : [0x3d, 0x3d, 0x3d].isPrefixOf (base64 bytes) = false := by
    have other {text : List UInt8} {first : UInt8} (noPad : first ≠ 0x3d) :
        [0x3d, 0x3d, 0x3d].isPrefixOf (first :: text) = false := by
      have differ : (0x3d == first) = false := beq_eq_false_iff_ne.mpr noPad.symm
      simp [List.isPrefixOf, differ]
    fun_cases base64 bytes with
    | case1 => rfl
    | case2 a => exact other (base64Char_spec (sextets_lt a 0 0).1).2.2
    | case3 a b => exact other (base64Char_spec (sextets_lt a b 0).1).2.2
    | case4 a b c rest => exact other (base64Char_spec (sextets_lt a b c).1).2.2
  obtain ⟨left, decoded, padding⟩ := decodeBase64Groups_base64 bytes
  unfold UuDecoder.lineEffect UuDecoder.processLine UuDecoder.decodeBase64Line
  dsimp only
  rw [body, decoded]
  dsimp only
  rw [padding]
  rfl

theorem lineEffect_padding (scanned : Nat) :
    UuDecoder.lineEffect .readBase64 scanned paddingLine =
      (.ok (), decodedTo .findHead scanned []) := rfl

/-! ## Cuts -/

theorem base64_cut_of_one_group {bytes front back : List UInt8}
    (text : front ++ back = base64 bytes) (aligned : front.length % 4 = 0)
    (four : (base64 bytes).length = 4) :
    ∃ one two, bytes = one ++ two ∧ front = base64 one ∧ back = base64 two := by
  cases front with
  | nil => exact ⟨[], bytes, rfl, rfl, text⟩
  | cons byte others =>
    have lengths := congrArg List.length text
    rw [List.length_append, four] at lengths
    have ended : back = [] := List.length_eq_zero_iff.mp (by
      rw [List.length_cons] at aligned lengths
      omega)
    subst ended
    exact ⟨bytes, [], (List.append_nil _).symm, (List.append_nil _).symm.trans text, rfl⟩

/-- A text that is cut between two groups is the text of two parts. -/
theorem base64_cut {bytes front back : List UInt8} (text : front ++ back = base64 bytes)
    (aligned : front.length % 4 = 0) :
    ∃ one two, bytes = one ++ two ∧ front = base64 one ∧ back = base64 two := by
  fun_induction base64 bytes generalizing front with
  | case1 =>
    obtain ⟨rfl, rfl⟩ := List.append_eq_nil_iff.mp text
    exact ⟨[], [], rfl, rfl, rfl⟩
  | case2 a => exact @base64_cut_of_one_group [a] front back text aligned rfl
  | case3 a b => exact @base64_cut_of_one_group [a, b] front back text aligned rfl
  | case4 a b c rest ih =>
    match front, aligned, text with
    | [], _, text => exact ⟨[], a :: b :: c :: rest, rfl, rfl, text⟩
    | w :: x :: y :: z :: others, aligned, text =>
      obtain ⟨first, text⟩ := List.append_inj (show [w, x, y, z] ++ (others ++ back) =
        group base64Char a b c ++ base64 rest from text) rfl
      obtain ⟨one, two, rfl, rfl, rfl⟩ := @ih others text (by
        rw [List.length_cons, List.length_cons, List.length_cons, List.length_cons] at aligned
        omega)
      exact ⟨a :: b :: c :: one, two, rfl, congrArg (· ++ base64 one) first, rfl⟩

/-! ## Texts -/

theorem isPrintable_of_isUuChar {byte : UInt8} (isChar : isUuChar byte = true) :
    isPrintable byte = true := by
  unfold isUuChar at isChar
  unfold isPrintable
  simp only [Bool.and_eq_true, decide_eq_true_eq, UInt8.le_iff_toNat_le] at isChar ⊢
  refine ⟨isChar.1, isChar.2.trans ?_⟩
  decide

theorem isPrintable_group {char : Nat → UInt8}
    (printable : ∀ number, number < 64 → isPrintable (char number) = true) (a b c : UInt8) :
    ∀ byte ∈ group char a b c, isPrintable byte = true := by
  obtain ⟨w, x, y, z⟩ := sextets_lt a b c
  simp [group, printable _ w, printable _ x, printable _ y, printable _ z]

theorem isPrintable_uuChar (zero : ZeroChar) (number : Nat) (small : number < 64) :
    isPrintable (uuChar zero number) = true :=
  isPrintable_of_isUuChar (uuChar_spec zero small).1

theorem isPrintable_base64Char (number : Nat) (small : number < 64) :
    isPrintable (base64Char number) = true := by
  have each : ∀ index : Fin 64, isPrintable (base64Char index) = true := by decide +kernel
  exact each ⟨number, small⟩

theorem isPrintable_uuGroups (zero : ZeroChar) (bytes : List UInt8) :
    ∀ byte ∈ uuGroups zero bytes, isPrintable byte = true := by
  have grouped := isPrintable_group (isPrintable_uuChar zero)
  fun_induction uuGroups zero bytes with
  | case1 => nofun
  | case2 a => exact grouped a 0 0
  | case3 a b => exact grouped a b 0
  | case4 a b c rest ih => exact List.forall_mem_append.mpr ⟨grouped a b c, ih⟩

theorem isPrintable_base64 (bytes : List UInt8) :
    ∀ byte ∈ base64 bytes, isPrintable byte = true := by
  have grouped := isPrintable_group isPrintable_base64Char
  fun_induction base64 bytes with
  | case1 => nofun
  | case2 a =>
    exact List.forall_mem_append.mpr
      ⟨fun byte member => grouped a 0 0 byte (List.mem_of_mem_take member), by decide +kernel⟩
  | case3 a b =>
    exact List.forall_mem_append.mpr
      ⟨fun byte member => grouped a b 0 byte (List.mem_of_mem_take member), by decide +kernel⟩
  | case4 a b c rest ih => exact List.forall_mem_append.mpr ⟨grouped a b c, ih⟩

/-- A line that the decoder can find. -/
structure IsLine (line : List UInt8) : Prop where
  printable : ∀ byte ∈ line, isPrintable byte = true
  short : line.length ≤ maxLine

theorem Header.isLine {keyword : List UInt8} (header : Header keyword)
    (printable : ∀ byte ∈ keyword, isPrintable byte = true) : IsLine header.line where
  printable := by
    refine List.forall_mem_append.mpr ⟨List.forall_mem_append.mpr ⟨printable, ?_⟩,
      header.printable⟩
    simp [mode, (octalDigit_spec _).2.2]
    decide
  short := by
    have short := header.short
    rw [header.length_line]
    exact Nat.le_of_lt short

theorem UuPiece.isLine (zero : ZeroChar) (piece : UuPiece) : IsLine (piece.line zero) where
  printable := by
    have short := piece.short
    exact List.forall_mem_cons.mpr ⟨isPrintable_uuChar zero _ (by omega),
      isPrintable_uuGroups zero piece.bytes⟩
  short := by
    have short := piece.short
    obtain ⟨-, length⟩ := length_le_uuGroups zero piece.bytes
    unfold UuPiece.line maxLine
    rw [List.length_cons]
    omega

theorem Base64Body.isLine (body : Base64Body) : ∀ line ∈ body.lines, IsLine line := by
  intro line member
  refine ⟨fun byte inside => ?_, body.short line member⟩
  apply isPrintable_base64 body.payload
  rw [← body.cut]
  exact List.mem_flatten.mpr ⟨line, member, inside⟩

theorem Section.isLine (part : Section) : ∀ line ∈ part.lines, IsLine line := by
  cases part with
  | uu header zero pieces =>
    refine List.forall_mem_cons.mpr ⟨header.isLine (by decide +kernel),
      List.forall_mem_append.mpr ⟨?_, ?_⟩⟩
    · intro line member
      obtain ⟨piece, -, rfl⟩ := List.mem_map.mp member
      exact piece.isLine zero
    · cases zero <;>
        exact List.forall_mem_cons.mpr ⟨⟨by decide +kernel, by decide +kernel⟩,
          List.forall_mem_cons.mpr ⟨⟨by decide +kernel, by decide +kernel⟩, nofun⟩⟩
  | base64 header body =>
    exact List.forall_mem_cons.mpr ⟨header.isLine (by decide +kernel),
      List.forall_mem_append.mpr ⟨body.isLine,
        List.forall_mem_cons.mpr ⟨⟨by decide +kernel, by decide +kernel⟩, nofun⟩⟩⟩

end Uu

end ZManager
