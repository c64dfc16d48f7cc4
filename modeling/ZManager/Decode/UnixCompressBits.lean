import Mathlib.Data.Nat.Digits.Defs
import ZManager.Decode.UnixCompressSafety

/-! # The bits that the decoder for Unix compress streams has read ahead

Between two codes the bit buffer should hold the bits that are read and not consumed, and nothing
above them. A reset code drops the rest of its last byte from the count only. The bytes skipped
behind it shift the dropped bits out, and where no byte is skipped they stay in the buffer.
-/

namespace ZManager

namespace UnixCompress

/-! ## Bytes that arrive -/

/-- The next bytes of the inner reader and what it answers behind them, unless it stops before.
A read that was interrupted is made again. -/
def arriving : Nat → List InnerRead → Option (List UInt8 × List InnerRead)
  | 0, inner => some ([], inner)
  | _ + 1, [] | _ + 1, .endOfData :: _ | _ + 1, .failed _ :: _ => none
  | count + 1, .interrupted :: rest => arriving (count + 1) rest
  | count + 1, .byte value :: rest =>
    (arriving count rest).map fun (bytes, behind) => (value :: bytes, behind)

/-- How many bytes the next `n` bits need. -/
def Input.missing (input : Input) (n : Nat) : Nat := (n - input.bitsAvail + 7) / 8

def Input.pushBytes (input : Input) (bytes : List UInt8) : Input :=
  bytes.foldl Input.pushByte input

/-- The bits read ahead and those of more bytes, lowest first, as a number. -/
def Input.value (input : Input) (bytes : List UInt8) : Nat :=
  input.bitBuffer.toNat + 2 ^ input.bitsAvail * Nat.ofDigits 256 (bytes.map UInt8.toNat)

/-- No bit is set behind those that are read ahead. -/
def Input.Clean (input : Input) : Prop := input.bitBuffer.toNat < 2 ^ input.bitsAvail

instance (input : Input) : Decidable input.Clean :=
  inferInstanceAs (Decidable (_ < _))

theorem length_of_arriving {count : Nat} {inner behind : List InnerRead} {bytes : List UInt8}
    (arrives : arriving count inner = some (bytes, behind)) : bytes.length = count := by
  induction count, inner using arriving.induct generalizing bytes with
  | case1 inner =>
    unfold arriving at arrives
    cases arrives
    rfl
  | case2 count => cases arrives
  | case3 count rest => cases arrives
  | case4 count source rest => cases arrives
  | case5 count rest ih => exact ih arrives
  | case6 count value rest ih =>
    unfold arriving at arrives
    obtain ⟨⟨others, last⟩, found, same⟩ := Option.map_eq_some_iff.mp arrives
    cases same
    exact congrArg (· + 1) (ih found)

/-! ## Bits that are read ahead -/

section

variable {input : Input} {n : Nat}

variable {bytes : List UInt8}

@[simp] theorem Input.bitsAvail_pushBytes (input : Input) (bytes : List UInt8) :
    (input.pushBytes bytes).bitsAvail = input.bitsAvail + 8 * bytes.length := by
  induction bytes generalizing input with
  | nil => rfl
  | cons byte bytes ih =>
    change ((input.pushByte byte).pushBytes bytes).bitsAvail = _
    rw [ih]
    change input.bitsAvail + 8 + _ = _
    rw [List.length_cons]
    omega

@[simp] theorem Input.bytesInSection_pushBytes (input : Input) (bytes : List UInt8) :
    (input.pushBytes bytes).bytesInSection = input.bytesInSection + bytes.length := by
  induction bytes generalizing input with
  | nil => rfl
  | cons byte bytes ih =>
    change ((input.pushByte byte).pushBytes bytes).bytesInSection = _
    rw [ih]
    change input.bytesInSection + 1 + _ = _
    rw [List.length_cons]
    omega

/-- A byte is put above the bits that are there. -/
theorem Input.Clean.toNat_pushByte (clean : input.Clean) (room : input.bitsAvail ≤ 24)
    (byte : UInt8) : (input.pushByte byte).bitBuffer.toNat =
      input.bitBuffer.toNat + 2 ^ input.bitsAvail * byte.toNat := by
  have shift : (UInt32.ofNat input.bitsAvail).toNat = input.bitsAvail :=
    UInt32.toNat_ofNat_of_lt' (by change _ < 2 ^ 32; omega)
  have high : 2 ^ input.bitsAvail * byte.toNat < 2 ^ 32 := by
    calc 2 ^ input.bitsAvail * byte.toNat
        < 2 ^ input.bitsAvail * 2 ^ 8 :=
          Nat.mul_lt_mul_of_pos_left byte.toNat_lt (Nat.two_pow_pos _)
      _ = 2 ^ (input.bitsAvail + 8) := (Nat.pow_add ..).symm
      _ ≤ 2 ^ 32 := Nat.pow_le_pow_right (by decide) (by omega)
  change (input.bitBuffer ||| byte.toUInt32 <<< UInt32.ofNat input.bitsAvail).toNat = _
  rw [UInt32.toNat_or, UInt32.toNat_shiftLeft, shift, UInt8.toNat_toUInt32,
    Nat.mod_eq_of_lt (by omega : input.bitsAvail < 32), Nat.shiftLeft_eq,
    Nat.mul_comm byte.toNat, Nat.mod_eq_of_lt high, Nat.or_comm, Nat.add_comm]
  exact (Nat.two_pow_add_eq_or_of_lt clean byte.toNat).symm

theorem Input.Clean.pushByte (clean : input.Clean) (room : input.bitsAvail ≤ 24) (byte : UInt8) :
    (input.pushByte byte).Clean := by
  unfold Input.Clean
  rw [clean.toNat_pushByte room byte]
  change _ < 2 ^ (input.bitsAvail + 8)
  have small : byte.toNat < 2 ^ 8 := byte.toNat_lt
  have below : input.bitBuffer.toNat < 2 ^ input.bitsAvail := clean
  rw [Nat.pow_add]
  calc input.bitBuffer.toNat + 2 ^ input.bitsAvail * byte.toNat
      < 2 ^ input.bitsAvail * (byte.toNat + 1) := by rw [Nat.mul_succ]; omega
    _ ≤ 2 ^ input.bitsAvail * 2 ^ 8 := Nat.mul_le_mul_left _ small

theorem Input.Clean.toNat_pushBytes (clean : input.Clean)
    (room : input.bitsAvail + 8 * bytes.length ≤ 32) :
    (input.pushBytes bytes).bitBuffer.toNat = input.value bytes := by
  induction bytes generalizing input with
  | nil =>
    change input.bitBuffer.toNat = _ + _ * 0
    rw [Nat.mul_zero, Nat.add_zero]
  | cons byte bytes ih =>
    rw [List.length_cons] at room
    have left : (input.pushByte byte).bitsAvail + 8 * bytes.length ≤ 32 := by
      change input.bitsAvail + 8 + _ ≤ 32
      omega
    have pushed := ih (clean.pushByte (by omega) byte) left
    change ((input.pushByte byte).pushBytes bytes).bitBuffer.toNat = _
    rw [pushed]
    unfold Input.value
    rw [clean.toNat_pushByte (by omega) byte, List.map_cons, Nat.ofDigits_cons]
    change _ + 2 ^ (input.bitsAvail + 8) * _ = _
    rw [Nat.pow_add, Nat.mul_add, Nat.mul_assoc, Nat.add_assoc]

/-- A refill takes the bytes that are missing. -/
theorem refill_of_arriving (inner : List InnerRead) {behind : List InnerRead}
    {bytes : List UInt8}
    (arrives : arriving (input.missing n) inner = some (bytes, behind)) :
    refill n inner input = (true, { input.pushBytes bytes with inner := behind }) := by
  induction inner generalizing input bytes with
  | nil =>
    unfold Input.missing at arrives
    unfold refill
    cases needed : (n - input.bitsAvail + 7) / 8 with
    | zero =>
      rw [needed] at arrives
      cases arrives
      rw [if_neg (by omega)]
      rfl
    | succ count =>
      rw [needed] at arrives
      cases arrives
  | cons read rest ih =>
    unfold refill
    by_cases short : input.bitsAvail < n
    · have some_ : input.missing n = (n - (input.bitsAvail + 8) + 7) / 8 + 1 := by
        unfold Input.missing
        omega
      rw [if_pos short]
      cases read with
      | endOfData =>
        rw [some_] at arrives
        cases arrives
      | failed source =>
        rw [some_] at arrives
        cases arrives
      | interrupted =>
        rw [some_] at arrives
        unfold arriving at arrives
        rw [← some_] at arrives
        exact ih arrives
      | byte value =>
        rw [some_] at arrives
        unfold arriving at arrives
        obtain ⟨⟨others, last⟩, found, same⟩ := Option.map_eq_some_iff.mp arrives
        cases same
        exact @ih (input.pushByte value) others found
    · have none_ : input.missing n = 0 := by
        unfold Input.missing
        omega
      rw [none_] at arrives
      cases arrives
      rw [if_neg short]
      rfl

theorem Input.Clean.pushBytes (clean : input.Clean)
    (room : input.bitsAvail + 8 * bytes.length ≤ 32) : (input.pushBytes bytes).Clean := by
  induction bytes generalizing input with
  | nil => exact clean
  | cons byte bytes ih =>
    rw [List.length_cons] at room
    refine ih (clean.pushByte (by omega) byte) ?_
    change input.bitsAvail + 8 + _ ≤ 32
    omega

theorem refill_of_not_arriving {inner : List InnerRead}
    (ends : arriving (input.missing n) inner = none) : (refill n inner input).1 = false := by
  induction inner generalizing input with
  | nil =>
    unfold Input.missing at ends
    unfold refill
    rw [if_pos (by
      by_contra enough
      rw [show (n - input.bitsAvail + 7) / 8 = 0 by omega] at ends
      cases ends)]
  | cons read rest ih =>
    by_cases short : input.bitsAvail < n
    · have some_ : input.missing n = (n - (input.bitsAvail + 8) + 7) / 8 + 1 := by
        unfold Input.missing
        omega
      unfold refill
      rw [if_pos short]
      rw [some_] at ends
      cases read with
      | endOfData => rfl
      | failed source => rfl
      | interrupted =>
        unfold arriving at ends
        rw [← some_] at ends
        exact ih ends
      | byte value =>
        unfold arriving at ends
        exact @ih (input.pushByte value) (Option.map_eq_none_iff.mp ends)
    · rw [show input.missing n = 0 by unfold Input.missing; omega] at ends
      cases ends

/-- A refill that fails keeps the bytes that came. -/
theorem Input.Clean.refill (clean : input.Clean) (width : n ≤ 16) (inner : List InnerRead) :
    (refill n inner input).2.Clean := by
  induction inner generalizing input with
  | nil =>
    unfold UnixCompress.refill
    split
    · exact clean
    · exact clean
  | cons read rest ih =>
    unfold UnixCompress.refill
    split
    next short =>
      cases read with
      | endOfData => exact clean
      | failed source => exact clean
      | interrupted => exact ih clean
      | byte value => exact ih (clean.pushByte (by omega) value)
    next enough => exact clean

/-- Where nothing arrives nothing changes. -/
theorem refill_of_none {inner : List InnerRead} (ends : arriving 1 inner = none) :
    ∃ behind, refill 8 inner { input with bitsAvail := 0 } =
      (false, { input with inner := behind, bitsAvail := 0 }) := by
  induction inner with
  | nil => exact ⟨_, rfl⟩
  | cons read rest ih =>
    unfold refill
    rw [if_pos (by decide : 0 < 8)]
    cases read with
    | endOfData => exact ⟨_, rfl⟩
    | failed source => exact ⟨_, rfl⟩
    | interrupted => exact ih ends
    | byte value =>
      rw [arriving, arriving] at ends
      cases ends

/-- What is left when a code is fetched. -/
structure Fetched (n : Nat) (input : Input) (bytes : List UInt8) (behind : List InnerRead)
    (after : Input) : Prop where
  inner : after.inner = behind
  buffer : after.bitBuffer.toNat = input.value bytes / 2 ^ n
  few : after.bitsAvail < 8
  bytesInSection : after.bytesInSection = input.bytesInSection + input.missing n
  clean : after.Clean

/-- A fetch takes the lowest bits of the buffer with the bytes that were missing. -/
theorem getbits_of_arriving (clean : input.Clean) (width : n ≤ 16) (short : input.bitsAvail < n)
    {behind : List InnerRead}
    (arrives : arriving (input.missing n) input.inner = some (bytes, behind)) :
    ∃ after, input.getbits n = (.ok (some (input.value bytes % 2 ^ n)), after) ∧
      Fetched n input bytes behind after := by
  have length : bytes.length = input.missing n := length_of_arriving arrives
  have enough : n ≤ input.bitsAvail + 8 * bytes.length ∧
      input.bitsAvail + 8 * bytes.length < n + 8 := by
    rw [length]
    unfold Input.missing
    omega
  have room : input.bitsAvail + 8 * bytes.length ≤ 32 := by omega
  have buffer := clean.toNat_pushBytes room
  have whole : input.value bytes < 2 ^ (input.bitsAvail + 8 * bytes.length) := by
    have pushed : (input.pushBytes bytes).Clean := clean.pushBytes room
    unfold Input.Clean at pushed
    rwa [buffer, Input.bitsAvail_pushBytes] at pushed
  have shift : (UInt32.ofNat n).toNat % 32 = n := by
    rw [UInt32.toNat_ofNat_of_lt' (by change _ < 2 ^ 32; omega), Nat.mod_eq_of_lt (by omega)]
  have shifted : ((input.pushBytes bytes).bitBuffer >>> UInt32.ofNat n).toNat =
      input.value bytes / 2 ^ n := by
    rw [UInt32.toNat_shiftRight, shift, buffer, Nat.shiftRight_eq_div_pow]
  have ones : (UInt32.ofNat (2 ^ n - 1)).toNat = 2 ^ n - 1 := by
    have small : 2 ^ n ≤ 2 ^ 16 := Nat.pow_le_pow_right (by decide) width
    exact UInt32.toNat_ofNat_of_lt' (by change _ < 2 ^ 32; omega)
  unfold Input.getbits
  rw [refill_of_arriving input.inner arrives]
  dsimp only
  rw [mask_eq n width]
  dsimp only
  rw [UInt32.toNat_and, ones, Nat.and_two_pow_sub_one_eq_mod, buffer]
  refine ⟨_, rfl, rfl, shifted, ?_, ?_, ?_⟩
  · change (input.pushBytes bytes).bitsAvail - n < 8
    rw [Input.bitsAvail_pushBytes]
    omega
  · change (input.pushBytes bytes).bytesInSection = _
    rw [Input.bytesInSection_pushBytes, length]
  · unfold Input.Clean
    dsimp only
    rw [shifted, Input.bitsAvail_pushBytes]
    apply Nat.div_lt_of_lt_mul
    rwa [← Nat.pow_add, Nat.add_sub_cancel' enough.1]

theorem getbits_of_not_arriving (clean : input.Clean) (width : n ≤ 16)
    (ends : arriving (input.missing n) input.inner = none) :
    ∃ after, input.getbits n = (.ok none, after) ∧ after.Clean := by
  have failed := refill_of_not_arriving ends
  have kept := clean.refill width input.inner
  unfold Input.getbits
  generalize refill n input.inner input = result at failed kept
  obtain ⟨answer, after⟩ := result
  cases failed
  exact ⟨after, rfl, kept⟩

theorem Input.Clean.getbits (clean : input.Clean) (width : n ≤ 16)
    (short : input.bitsAvail < n) : (input.getbits n).2.Clean := by
  cases arrives : arriving (input.missing n) input.inner with
  | none =>
    obtain ⟨after, fetch, kept⟩ := getbits_of_not_arriving clean width arrives
    rw [fetch]
    exact kept
  | some found =>
    obtain ⟨after, fetch, fetched⟩ := getbits_of_arriving clean width short arrives
    rw [fetch]
    exact fetched.clean

theorem Input.Clean.skip (clean : input.Clean) (few : input.bitsAvail < 8) (count : Nat) :
    (input.skip count).2.Clean := by
  induction count generalizing input with
  | zero => exact clean
  | succ count ih =>
    unfold Input.skip
    cases arrives : arriving (input.missing 8) input.inner with
    | none =>
      obtain ⟨after, fetch, kept⟩ := getbits_of_not_arriving clean (by decide) arrives
      rw [fetch]
      exact kept
    | some found =>
      obtain ⟨bytes, behind⟩ := found
      obtain ⟨after, fetch, fetched⟩ := getbits_of_arriving clean (by decide) few arrives
      rw [fetch]
      exact ih fetched.clean fetched.few

/-- The bits that were dropped from the count are gone if there were none, or once a byte is
skipped. -/
theorem clean_skip_iff (small : input.bitBuffer.toNat < 2 ^ 8) (count : Nat) :
    (({ input with bitsAvail := 0 } : Input).skip count).2.Clean ↔
      input.bitBuffer.toNat = 0 ∨ count ≠ 0 ∧ (arriving 1 input.inner).isSome := by
  cases count with
  | zero =>
    rw [or_iff_left fun both => both.1 rfl]
    exact Nat.lt_one_iff
  | succ count =>
    rw [Input.skip]
    unfold Input.getbits
    cases arrives : arriving 1 input.inner with
    | none =>
      obtain ⟨behind, ended⟩ := @refill_of_none input _ arrives
      dsimp only
      rw [ended, or_iff_left fun both => nomatch both.2]
      exact Nat.lt_one_iff
    | some found =>
      obtain ⟨bytes, behind⟩ := found
      obtain ⟨byte, rfl⟩ := List.length_eq_one_iff.mp (length_of_arriving arrives)
      have one : ({ input with bitsAvail := 0 } : Input).missing 8 = 1 := by
        change (8 - 0 + 7) / 8 = 1
        rfl
      have pushed := @refill_of_arriving { input with bitsAvail := 0 } 8 input.inner behind [byte]
        (one ▸ arrives)
      have gone : (input.bitBuffer ||| byte.toUInt32 <<< UInt32.ofNat 0) >>> UInt32.ofNat 8 =
          0 := by
        apply UInt32.toNat.inj
        rw [UInt32.toNat_shiftRight, UInt32.toNat_or, UInt32.toNat_shiftLeft,
          UInt8.toNat_toUInt32]
        change ((_ ||| byte.toNat <<< 0 % 2 ^ 32) >>> 8) = 0
        have less : byte.toNat < 2 ^ 8 := byte.toNat_lt
        rw [Nat.shiftLeft_zero, Nat.mod_eq_of_lt (by omega), Nat.shiftRight_eq_div_pow]
        exact Nat.div_eq_of_lt (Nat.or_lt_two_pow small less)
      dsimp only
      rw [pushed]
      refine iff_of_true ?_ (.inr ⟨nofun, rfl⟩)
      apply Input.Clean.skip
      · change ((input.bitBuffer ||| byte.toUInt32 <<< UInt32.ofNat 0) >>> UInt32.ofNat 8).toNat < 1
        rw [gone]
        exact Nat.one_pos
      · exact Nat.zero_lt_succ 7

end

/-! ## Fetches -/

end UnixCompress

open UnixCompress

namespace UnixCompressReader

/-- The decoders that the rounds of `next_code` fetch a code from. -/
def roundFetches : (rounds : Nat) → UnixCompressReader → List UnixCompressReader
  | 0, _ => []
  | rounds + 1, reader =>
    reader :: match reader.nextCodeRound with
      | (.error _, _) | (.ok (some _), _) => []
      | (.ok none, reader) => roundFetches rounds reader

def codeFetches (reader : UnixCompressReader) : List UnixCompressReader :=
  roundFetches (reader.input.inner.length + 1) reader

def fillFetches : (rounds : Nat) → UnixCompressReader → List UnixCompressReader
  | 0, _ => []
  | rounds + 1, reader =>
    if reader.out.length < outBlockSize ∧ reader.endOfStream = false then
      match reader.stack with
      | byte :: stack => fillFetches rounds { reader with stack := stack, out := reader.out ++
          [byte] }
      | [] =>
        reader.codeFetches ++ match reader.nextCode with
          | (.error _, _) => []
          | (.ok true, reader) => fillFetches rounds reader
          | (.ok false, reader) => fillFetches rounds { reader with endOfStream := true }
    else []

def blockFetches (reader : UnixCompressReader) : List UnixCompressReader :=
  fillFetches (2 * outBlockSize + 3) { reader with out := [] }

def readFetches : (rounds : Nat) → UnixCompressReader → List UnixCompressReader
  | 0, _ => []
  | rounds + 1, reader =>
    if reader.outPos < reader.out.length then []
    else if reader.endOfStream then []
    else
      reader.blockFetches ++ match reader.fillOutBlock with
        | (.error _, _) => []
        | (.ok (), reader) => readFetches rounds reader

def readsFetches (reader : UnixCompressReader) : List Nat → List UnixCompressReader
  | [] => []
  | bufferLength :: rest =>
    readFetches 2 reader ++ (reader.read bufferLength).2.readsFetches rest

/-- The decoders that codes are fetched from when a stream is opened and read, also after reads
that failed. -/
def fetches (inner : List InnerRead) (bufferLengths : List Nat) : List UnixCompressReader :=
  match readHeader inner with
  | (.error _, _) => []
  | (.ok status, input) =>
    let opened : UnixCompressReader := { input := input, status := status }
    opened.codeFetches ++ match opened.nextCode with
      | (.error _, _) => []
      | (.ok _, reader) => reader.readsFetches bufferLengths

/-- A reset code is followed by a byte that is skipped, or leaves no bit set in its own last
byte. -/
def ShedsBits (reader : UnixCompressReader) : Prop :=
  ∀ bytes behind,
    arriving (reader.input.missing reader.status.bits) reader.input.inner =
      some (bytes, behind) →
    reader.status.useResetCode = true →
    reader.input.value bytes % 2 ^ reader.status.bits = 256 →
    reader.input.value bytes / 2 ^ reader.status.bits = 0 ∨
      ¬ reader.status.bits ∣
        reader.input.bytesInSection + reader.input.missing reader.status.bits ∧
      (arriving 1 behind).isSome

/-! ## What a round leaves -/

section

variable {reader : UnixCompressReader}

variable {next : UnixCompressReader} {list : List UnixCompressReader}

/-- Decoding a code leaves the bits as they are. -/
theorem clean_decodeCode (clean : reader.input.Clean) (code : Nat) :
    (reader.decodeCode code).2.input.Clean := by
  unfold decodeCode
  dsimp only
  split
  · exact clean
  split
  · exact clean
  split
  · exact clean
  split
  · exact clean
  split
  · exact clean
  dsimp only
  split
  · exact clean
  · exact clean

/-- No byte is skipped when the section is a multiple of the code width. -/
theorem skipBytes_ne_zero_iff {bits : Nat} (some_ : 0 < bits) (count : Nat) :
    (bits - count % bits) % bits ≠ 0 ↔ ¬ bits ∣ count := by
  have less := Nat.mod_lt count some_
  rw [Nat.dvd_iff_mod_eq_zero]
  by_cases multiple : count % bits = 0
  · rw [multiple, Nat.sub_zero, Nat.mod_self]
  · rw [Nat.mod_eq_of_lt (by omega)]
    omega

/-- A round leaves bits behind those read ahead exactly where a reset does not shed them. -/
theorem clean_nextCodeRound_iff (wf : reader.Wf) (clean : reader.input.Clean) :
    reader.nextCodeRound.2.input.Clean ↔ reader.ShedsBits := by
  have width := wf.status.bits_le
  have wide := wf.status.wide
  cases arrives : arriving (reader.input.missing reader.status.bits) reader.input.inner with
  | none =>
    obtain ⟨after, fetch, kept⟩ := getbits_of_not_arriving clean width arrives
    refine iff_of_true ?_ fun bytes behind found => ?_
    · unfold nextCodeRound
      rw [fetch]
      exact kept
    · rw [arrives] at found
      cases found
  | some found =>
    obtain ⟨bytes, behind⟩ := found
    obtain ⟨after, fetch, fetched⟩ := getbits_of_arriving clean width wf.few arrives
    have sheds : reader.ShedsBits ↔ (reader.status.useResetCode = true →
        reader.input.value bytes % 2 ^ reader.status.bits = 256 →
        reader.input.value bytes / 2 ^ reader.status.bits = 0 ∨
          ¬ reader.status.bits ∣
            reader.input.bytesInSection + reader.input.missing reader.status.bits ∧
          (arriving 1 behind).isSome) := by
      unfold ShedsBits
      rw [arrives]
      constructor
      · exact fun all => all bytes behind rfl
      · rintro one _ _ ⟨⟩
        exact one
    rw [sheds]
    unfold nextCodeRound
    rw [fetch]
    dsimp only
    by_cases reset : reader.input.value bytes % 2 ^ reader.status.bits = 256 ∧
        reader.status.useResetCode = true
    · rw [if_pos reset, ← fetched.buffer, ← fetched.inner, ← fetched.bytesInSection,
        ← skipBytes_ne_zero_iff (by omega : 0 < reader.status.bits) after.bytesInSection]
      have small : after.bitBuffer.toNat < 2 ^ 8 :=
        Nat.lt_trans fetched.clean (Nat.pow_lt_pow_right (by decide) fetched.few)
      have skipped := clean_skip_iff small
        ((reader.status.bits - after.bytesInSection % reader.status.bits) % reader.status.bits)
      rw [forall_prop_of_true reset.2, forall_prop_of_true reset.1, ← skipped]
      unfold resetDictionary
      dsimp only
      split
      next result => rw [result]
      next result => rw [result]
      next result =>
        rw [result]
        exact Iff.rfl
    · rw [if_neg reset]
      refine iff_of_true ?_ fun mode code => absurd ⟨code, mode⟩ reset
      have decoded := @clean_decodeCode { reader with
        input := after
        codes := reader.codes ++ [reader.input.value bytes % 2 ^ reader.status.bits] }
        fetched.clean (reader.input.value bytes % 2 ^ reader.status.bits)
      split
      next result =>
        rw [result] at decoded
        exact decoded
      next result =>
        rw [result] at decoded
        exact decoded

/-! ## Runs -/

/-- The fetches between two decoders: from each the next one is left by a round. -/
inductive Visits : UnixCompressReader → List UnixCompressReader → UnixCompressReader → Prop
  | none {reader next : UnixCompressReader} (input : next.input = reader.input)
      (status : next.status = reader.status) : Visits reader [] next
  | fetch {reader first next : UnixCompressReader} {rest : List UnixCompressReader}
      (input : first.input = reader.input) (status : first.status = reader.status)
      (empty : first.stack = []) (visits : Visits first.nextCodeRound.2 rest next) :
      Visits reader (first :: rest) next

theorem Visits.refl (reader : UnixCompressReader) : Visits reader [] reader := .none rfl rfl

theorem Visits.of_same {one two : UnixCompressReader} (visits : Visits two list next)
    (input : two.input = one.input) (status : two.status = one.status) : Visits one list next := by
  cases visits with
  | none input' status' => exact .none (input'.trans input) (status'.trans status)
  | fetch input' status' empty visits =>
    exact .fetch (input'.trans input) (status'.trans status) empty visits

theorem Visits.append {one two three : UnixCompressReader}
    {first second : List UnixCompressReader} (visits : Visits one first two)
    (more : Visits two second three) : Visits one (first ++ second) three := by
  induction visits with
  | none input status => exact more.of_same input status
  | fetch input status empty visits ih => exact .fetch input status empty (ih more)

/-- In a run from a decoder whose buffer is clean, every fetch finds the buffer clean exactly
where every fetch but the last sheds its bits. -/
theorem Visits.clean_iff (visits : Visits reader list next) (wf : reader.Wf)
    (clean : reader.input.Clean) :
    (∀ fetch ∈ list, fetch.input.Clean) ↔ ∀ fetch ∈ list.dropLast, fetch.ShedsBits := by
  induction visits with
  | none input status => exact iff_of_true nofun nofun
  | @fetch reader first next rest input status empty visits ih =>
    have wf' : first.Wf := ⟨status ▸ wf.status, by rw [input, status]; exact wf.few⟩
    have clean' : first.input.Clean := input ▸ clean
    have step := clean_nextCodeRound_iff wf' clean'
    have round : first.nextCodeRound.2.Wf := (round_nextCodeRound wf' empty).wf wf'
    cases rest with
    | nil => exact iff_of_true (by simpa using clean') nofun
    | cons second rest =>
      rw [List.dropLast_cons_cons, @List.forall_mem_cons _ _ first,
        @List.forall_mem_cons _ _ first, and_iff_right clean']
      by_cases sheds : first.ShedsBits
      · rw [and_iff_right sheds]
        exact ih round (step.mpr sheds)
      · refine iff_of_false (fun all => sheds (step.mp ?_)) fun both => sheds both.1
        cases visits with
        | fetch same status empty visits => exact same ▸ all second List.mem_cons_self

theorem visits_nextCodeRounds (wf : reader.Wf) (empty : reader.stack = []) (rounds : Nat) :
    Visits reader (roundFetches rounds reader) (nextCodeRounds rounds reader).2 := by
  induction rounds generalizing reader with
  | zero => exact .refl reader
  | succ rounds ih =>
    have round := round_nextCodeRound wf empty
    unfold roundFetches nextCodeRounds
    apply Visits.fetch rfl rfl empty
    split
    next result =>
      rw [result]
      exact .refl _
    next result =>
      rw [result]
      exact .refl _
    next between result =>
      rw [result] at round ⊢
      have wf' := round.wf wf
      cases round with
      | reset suffix consumed few mode => exact ih wf' empty

theorem visits_nextCode (wf : reader.Wf) (empty : reader.stack = []) :
    Visits reader reader.codeFetches reader.nextCode.2 :=
  visits_nextCodeRounds wf empty _

theorem visits_fillRounds (wf : reader.Wf) (rounds : Nat) :
    Visits reader (fillFetches rounds reader) (fillRounds rounds reader).2 := by
  induction rounds generalizing reader with
  | zero => exact .refl reader
  | succ rounds ih =>
    unfold fillFetches fillRounds
    by_cases room : reader.out.length < outBlockSize ∧ reader.endOfStream = false
    · rw [if_pos room, if_pos room]
      cases top : reader.stack with
      | cons byte stack =>
        have popped : ({ reader with stack := stack, out := reader.out ++ [byte] } :
            UnixCompressReader).Wf := ⟨wf.status, wf.few⟩
        exact (ih popped).of_same rfl rfl
      | nil =>
        have visits := visits_nextCode wf top
        have wf' := (next_nextCode wf top).wf wf
        cases result : reader.nextCode with
        | mk answer after =>
          rw [result] at visits wf'
          cases answer with
          | error fault => exact visits.append (.refl after)
          | ok more =>
            cases more with
            | true => exact visits.append (ih wf')
            | false =>
              have ended : ({ after with endOfStream := true } : UnixCompressReader).Wf :=
                ⟨wf'.status, wf'.few⟩
              exact visits.append ((ih ended).of_same rfl rfl)
    · rw [if_neg room, if_neg room]
      exact .none rfl rfl

theorem visits_fillOutBlock (wf : reader.Wf) :
    Visits reader reader.blockFetches reader.fillOutBlock.2 :=
  (@visits_fillRounds { reader with out := [] } ⟨wf.status, wf.few⟩ _).of_same rfl rfl

theorem visits_readRounds (wf : reader.Wf) (rounds bufferLength : Nat) :
    Visits reader (readFetches rounds reader) (readRounds rounds reader bufferLength).2 := by
  induction rounds generalizing reader with
  | zero => exact .refl reader
  | succ rounds ih =>
    unfold readFetches readRounds
    by_cases left : reader.outPos < reader.out.length
    · rw [if_pos left, if_pos left]
      exact .none rfl rfl
    · rw [if_neg left, if_neg left]
      by_cases atEnd : reader.endOfStream = true
      · rw [if_pos atEnd, if_pos atEnd]
        exact .refl reader
      · rw [if_neg atEnd, if_neg atEnd]
        have visits := visits_fillOutBlock wf
        have wf' := (filled_fillOutBlock wf).wf ⟨wf.status, wf.few⟩
        cases result : reader.fillOutBlock with
        | mk answer after =>
          rw [result] at visits wf'
          cases answer with
          | error fault => exact visits.append (.refl after)
          | ok => exact visits.append (ih wf')

theorem visits_reads (wf : reader.Wf) (bufferLengths : List Nat) :
    ∃ next, Visits reader (reader.readsFetches bufferLengths) next := by
  induction bufferLengths generalizing reader with
  | nil => exact ⟨reader, .refl reader⟩
  | cons bufferLength rest ih =>
    obtain ⟨next, visits⟩ := ih ((answer_read wf bufferLength).wf wf)
    exact ⟨next, (visits_readRounds wf 2 bufferLength).append visits⟩

/-- An accepted header leaves a clean buffer. -/
theorem clean_readHeader {inner : List InnerRead} {status : Status} {input : Input}
    (header : readHeader inner = (.ok status, input)) : input.Clean := by
  have byte {input after : Input} {value : Nat} (clean : input.Clean) (few : input.bitsAvail < 8)
      (read : headerByte input = (.ok value, after)) : after.Clean ∧ after.bitsAvail < 8 := by
    have kept := clean.getbits (by decide) few
    have found := headerByte_cases few
    rw [read] at found
    unfold headerByte at read
    split at read
    next result => cases read
    next result => cases read
    next result =>
      rw [result] at kept
      cases read
      cases found with
      | found suffix few => exact ⟨kept, few⟩
  unfold readHeader at header
  split at header
  next result => cases header
  next first result =>
    have empty : ({ inner := inner } : Input).Clean := Nat.one_pos
    obtain ⟨clean, few⟩ := byte empty (Nat.zero_lt_succ 7) result
    split at header
    next result => cases header
    next second result =>
      obtain ⟨clean, few⟩ := byte clean few result
      split at header
      · cases header
      split at header
      next result => cases header
      next parameters result =>
        obtain ⟨clean, few⟩ := byte clean few result
        split at header
        · cases header
        split at header
        · cases header
        · cases header
          exact clean

/-- **The bit buffer of the decoder.** Over every run, each fetch finds the buffer without a bit
behind those read ahead exactly where every fetch but the last, if it is of a reset code, sheds
the bits that are dropped. -/
theorem fetches_clean_iff (inner : List InnerRead) (bufferLengths : List Nat) :
    (∀ reader ∈ fetches inner bufferLengths, reader.input.Clean) ↔
      ∀ reader ∈ (fetches inner bufferLengths).dropLast, reader.ShedsBits := by
  unfold fetches
  split
  next result => exact iff_of_true nofun nofun
  next status input header =>
    have wf := (Reaches.opened header).wf
    have visits := visits_nextCode wf rfl
    have wf' := (next_nextCode wf rfl).wf wf
    dsimp only
    split
    next result =>
      rw [List.append_nil]
      exact visits.clean_iff wf (clean_readHeader header)
    next result =>
      rw [result] at visits wf'
      obtain ⟨next, more⟩ := visits_reads wf' bufferLengths
      exact (visits.append more).clean_iff wf (clean_readHeader header)

/-- The literal `A` four times and a reset code, which end with the ninth byte and three bits
that are set, and two more literals. -/
def staleBits : List InnerRead :=
  [0x1f, 0x9d, 0x90, 0x41, 0x82, 0x04, 0x09, 0x02, 0xf0, 0x41, 0x84, 0x00].map .byte

theorem stale_bits_are_fetched : ¬ ∀ (inner : List InnerRead) (bufferLengths : List Nat),
    ∀ reader ∈ fetches inner bufferLengths, reader.input.Clean := by
  intro always
  have found : ((fetches staleBits [1]).all fun reader => decide reader.input.Clean) = false := by
    decide +kernel
  have all : ((fetches staleBits [1]).all fun reader => decide reader.input.Clean) = true :=
    List.all_eq_true.mpr fun reader member => decide_eq_true (always _ _ reader member)
  rw [found] at all
  cases all

end

end UnixCompressReader

end ZManager
