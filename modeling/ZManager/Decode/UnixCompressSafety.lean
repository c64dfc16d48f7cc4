import ZManager.Decode.UnixCompress

/-! # The decoder for Unix compress streams is safe

Every chain of the dictionary goes down, stale entries included, so an expansion
ends and fits the stack. The code width stays within sixteen bits.
-/

namespace ZManager

namespace UnixCompress

/-! ## Bits -/

/-- The inner reader only delivers bytes until the end of the data. -/
def OnlyBytes (inner : List InnerRead) : Prop := ∀ read ∈ inner, ∃ value, read = .byte value

/-- What a refill leaves. -/
structure Refilled (n : Nat) (inner : List InnerRead) (input : Input) (result : Bool × Input) :
    Prop where
  suffix : result.2.inner <:+ inner
  missing : result.1 = false → result.2.bitsAvail < n ∧ (OnlyBytes inner → result.2.inner = [])
  found : result.1 = true → n ≤ result.2.bitsAvail ∧
    (input.bitsAvail < n → result.2.bitsAvail < n + 8 ∧ result.2.inner.length < inner.length)

theorem refilled_refill (n : Nat) (inner : List InnerRead) (input : Input) :
    Refilled n inner input (refill n inner input) := by
  induction inner generalizing input with
  | nil =>
    unfold refill
    split
    next short => exact ⟨List.suffix_refl _, fun _ => ⟨short, fun _ => rfl⟩, nofun⟩
    next enough =>
      exact ⟨List.suffix_refl _, nofun, fun _ => ⟨Nat.not_lt.mp enough, (absurd · enough)⟩⟩
  | cons read rest ih =>
    unfold refill
    split
    next short =>
      have stopped (unlike : ∀ value, read ≠ .byte value) :
          Refilled n (read :: rest) input (false, { input with inner := rest }) :=
        ⟨List.suffix_cons _ _, fun _ => ⟨short, fun only =>
          absurd (only read (.head _)) fun ⟨value, same⟩ => unlike value same⟩, nofun⟩
      cases read with
      | endOfData => exact stopped nofun
      | failed source => exact stopped nofun
      | interrupted =>
        obtain ⟨suffix, missing, found⟩ := ih input
        refine ⟨suffix.trans (List.suffix_cons _ _), ?_, ?_⟩
        · exact fun none => ⟨(missing none).1, fun only => absurd (only _ (.head _)) nofun⟩
        · intro some
          obtain ⟨enough, bound⟩ := found some
          exact ⟨enough, fun short => ⟨(bound short).1, (bound short).2.trans (Nat.lt_succ_self _)⟩⟩
      | byte value =>
        obtain ⟨suffix, missing, found⟩ := ih (input.pushByte value)
        refine ⟨suffix.trans (List.suffix_cons _ _), ?_, ?_⟩
        · exact fun none => ⟨(missing none).1, fun only =>
            (missing none).2 fun read member => only read (.tail _ member)⟩
        · intro some
          obtain ⟨enough, bound⟩ := found some
          refine ⟨enough, fun _ => ⟨?_, Nat.lt_succ_of_le suffix.length_le⟩⟩
          by_cases again : (input.pushByte value).bitsAvail < n
          · exact (bound again).1
          · have kept : refill n rest (input.pushByte value) =
                (true, { input.pushByte value with inner := rest }) := by
              unfold refill
              rw [if_neg again]
            change (refill n rest (input.pushByte value)).2.bitsAvail < n + 8
            rw [kept]
            change input.bitsAvail + 8 < n + 8
            omega
    next enough =>
      exact ⟨List.suffix_refl _, nofun, fun _ => ⟨Nat.not_lt.mp enough, (absurd · enough)⟩⟩

theorem mask_eq : ∀ n ≤ 16, mask[n]? = some (UInt32.ofNat (2 ^ n - 1)) := by decide

/-- What `getbits` answers when fewer bits than asked for are read ahead. -/
inductive Bits (n : Nat) (input : Input) : Except Fault (Option Nat) × Input → Prop
  | missing {input' : Input} (suffix : input'.inner <:+ input.inner) (short : input'.bitsAvail < n)
      (atEnd : OnlyBytes input.inner → input'.inner = []) : Bits n input (.ok none, input')
  | found {input' : Input} {code : Nat} (suffix : input'.inner <:+ input.inner)
      (consumed : input'.inner.length < input.inner.length) (few : input'.bitsAvail < 8)
      (bound : code < 2 ^ n) : Bits n input (.ok (some code), input')

theorem bits_getbits {n : Nat} {input : Input} (width : n ≤ 16) (short : input.bitsAvail < n) :
    Bits n input (input.getbits n) := by
  have refilled := refilled_refill n input.inner input
  unfold Input.getbits
  split
  next input' result =>
    rw [result] at refilled
    obtain ⟨few, atEnd⟩ := refilled.missing rfl
    exact .missing refilled.suffix few atEnd
  next input' result =>
    rw [result] at refilled
    obtain ⟨enough, bound⟩ := refilled.found rfl
    obtain ⟨less, consumed⟩ := bound short
    dsimp only at enough less
    dsimp only
    rw [mask_eq n width]
    refine .found refilled.suffix consumed ?_ ?_
    · change input'.bitsAvail - n < 8
      omega
    · have small : 2 ^ n ≤ 2 ^ 16 := Nat.pow_le_pow_right (by decide) width
      have positive : 0 < 2 ^ n := Nat.two_pow_pos n
      have ones : (UInt32.ofNat (2 ^ n - 1)).toNat = 2 ^ n - 1 :=
        UInt32.toNat_ofNat_of_lt' (by change _ < 2 ^ 32; omega)
      rw [UInt32.toNat_and, ones]
      exact Nat.lt_of_le_of_lt Nat.and_le_right (by omega)

/-- What is left when bytes are skipped. -/
inductive Skipped (input : Input) : Except Fault Bool × Input → Prop
  | ended {input' : Input} (suffix : input'.inner <:+ input.inner) (few : input'.bitsAvail < 8)
      (atEnd : OnlyBytes input.inner → input'.inner = []) : Skipped input (.ok false, input')
  | skipped {input' : Input} (suffix : input'.inner <:+ input.inner) (few : input'.bitsAvail < 8) :
      Skipped input (.ok true, input')

theorem OnlyBytes.suffix {inner inner' : List InnerRead} (only : OnlyBytes inner)
    (suffix : inner' <:+ inner) : OnlyBytes inner' := fun read member =>
  only read (suffix.subset member)

theorem skipped_skip (count : Nat) {input : Input} (few : input.bitsAvail < 8) :
    Skipped input (input.skip count) := by
  induction count generalizing input with
  | zero => exact .skipped (List.suffix_refl _) few
  | succ count ih =>
    have bits := bits_getbits (by decide : 8 ≤ 16) few
    unfold Input.skip
    split
    next result => rw [result] at bits; cases bits
    next result =>
      rw [result] at bits
      cases bits with
      | missing suffix short atEnd => exact .ended suffix short atEnd
    next input' result =>
      rw [result] at bits
      cases bits with
      | found suffix consumed few bound =>
        generalize skipped : input'.skip count = answer
        have rest := ih few
        rw [skipped] at rest
        cases rest with
        | ended further few atEnd =>
          exact .ended (further.trans suffix) few fun only => atEnd (only.suffix suffix)
        | skipped further few => exact .skipped (further.trans suffix) few

/-! ## The dictionary -/

/-- The codes of a stream. -/
def Status.lzw (status : Status) : Lzw.Codes UInt8 where
  literals := 256
  literal := UInt8.ofNat
  first := if status.useResetCode then 257 else 256
  resetCode := if status.useResetCode then some 256 else none
  capacity := status.maxcode

def Status.table (status : Status) : Lzw.Table UInt8 where
  parent code := (status.prefixTable code).toNat
  symbol := status.suffixTable

def Status.spell (status : Status) (code : Nat) : List UInt8 :=
  status.table.spell status.lzw code

/-- The invariant, where the dictionary may be some codes ahead of the section. -/
structure Status.Fits (status : Status) (ahead : Nat) : Prop where
  maxcode : status.maxcode = 2 ^ status.maxcodeBits
  maxcodeBits : status.maxcodeBits ≤ 16
  wide : 9 ≤ status.bits
  narrow : status.bits ≤ max 10 status.maxcodeBits
  sectionEnd : status.sectionEndCode =
    if 10 ≤ status.bits ∧ status.bits = status.maxcodeBits then status.maxcode
    else 2 ^ status.bits - 1
  first : status.lzw.first ≤ status.freeEnt
  last : status.freeEnt ≤ max 257 status.maxcode
  within : status.freeEnt ≤ status.sectionEndCode + ahead
  descends : status.table.Descends 256
  old : ∀ oldcode ∈ status.oldcode,
    oldcode < 65536 ∧ (oldcode < status.freeEnt ∨ status.maxcode ≤ status.freeEnt)

/-- The invariant between two codes. -/
abbrev Status.Wf (status : Status) : Prop := status.Fits 0

namespace Status.Fits

variable {status : Status} {ahead : Nat}

theorem bits_le (wf : status.Wf) : status.bits ≤ 16 := by
  have narrow := wf.narrow
  have width := wf.maxcodeBits
  omega

theorem maxcode_le (wf : status.Wf) : status.maxcode ≤ 65536 := by
  rw [wf.maxcode]
  exact Nat.pow_le_pow_right (by decide) wf.maxcodeBits

theorem code_lt (wf : status.Wf) {code : Nat} (bound : code < 2 ^ status.bits) :
    code < 65536 :=
  Nat.lt_of_lt_of_le bound (Nat.pow_le_pow_right (by decide) wf.bits_le)

/-- A dictionary that is full has codes of the declared width, if that is wide enough. -/
theorem bits_of_full (wf : status.Wf) (declared : 10 ≤ status.maxcodeBits)
    (full : status.maxcode ≤ status.freeEnt) : status.bits = status.maxcodeBits := by
  have narrow := wf.narrow
  have within := wf.within
  rw [wf.sectionEnd] at within
  by_contra other
  rw [if_neg fun both => other both.2, Nat.add_zero] at within
  have less : status.bits + 1 ≤ status.maxcodeBits := by omega
  have power : 2 ^ (status.bits + 1) ≤ 2 ^ status.maxcodeBits :=
    Nat.pow_le_pow_right (by decide) less
  rw [Nat.pow_succ, ← wf.maxcode] at power
  have positive : 0 < 2 ^ status.bits := Nat.two_pow_pos _
  omega

end Status.Fits

/-- The expansion ends at the literal that begins the string, with the rest on the stack. -/
theorem Status.expand_eq {status : Status} (descends : status.table.Descends 256)
    {rounds code : Nat} (bound : code ≤ rounds) (inside : code < dictionarySize)
    {stack : List UInt8}
    (room : stack.length + (status.spell code).length ≤ stackCapacity) :
    ∃ root rest, root < 256 ∧ status.spell code = UInt8.ofNat root :: rest ∧
      status.expand rounds code stack = (.ok root, rest ++ stack) := by
  induction rounds generalizing code stack with
  | zero =>
    have small : code < 256 := by omega
    refine ⟨code, [], small, Lzw.Table.spell_literal _ small, ?_⟩
    unfold Status.expand
    rw [if_neg (by omega)]
    rfl
  | succ rounds ih =>
    by_cases behind : 256 ≤ code
    · have below : (status.prefixTable code).toNat < code := descends code behind
      have spelled : status.spell code = status.spell (status.prefixTable code).toNat ++
          [status.suffixTable code] :=
        (descends : status.table.Descends status.lzw.literals).spell_eq behind
      rw [spelled, List.length_append, List.length_singleton] at room
      have some : 0 < (status.spell (status.prefixTable code).toNat).length :=
        List.length_pos_iff.mpr (Lzw.Table.spell_ne_nil _ _)
      have pushed : pushStack stack (status.suffixTable code) =
          (.ok (), status.suffixTable code :: stack) := if_neg (by omega)
      obtain ⟨root, rest, literal, begins, expanded⟩ :=
        @ih (status.prefixTable code).toNat (by omega) (below.trans inside)
          (status.suffixTable code :: stack) (by rw [List.length_cons]; omega)
      refine ⟨root, rest ++ [status.suffixTable code], literal, ?_, ?_⟩
      · rw [spelled, begins]
        rfl
      · unfold Status.expand
        rw [if_pos behind, if_pos inside, pushed]
        dsimp only
        rw [expanded, List.append_assoc]
        rfl
    · have small : code < 256 := by omega
      refine ⟨code, [], small, Lzw.Table.spell_literal _ small, ?_⟩
      unfold Status.expand
      rw [if_neg behind]
      rfl

/-- The bytes of a code, bottom of the stack last. -/
def Status.expansion (status : Status) (code : Nat) : List UInt8 :=
  if status.freeEnt ≤ code then status.spell (status.oldcode.getD 0) ++ [status.finbyte]
  else status.spell code

/-- The dictionary with a new entry for an old code. -/
def Status.enter (status : Status) (oldcode : Nat) (finbyte : UInt8) : Status :=
  { status with
    prefixTable := fun code =>
      if code = status.freeEnt then UInt16.ofNat oldcode else status.prefixTable code
    suffixTable := fun code =>
      if code = status.freeEnt then finbyte else status.suffixTable code
    freeEnt := status.freeEnt + 1 }

/-- The dictionary behind a code that begins with a byte. -/
def Status.entered (status : Status) (finbyte : UInt8) : Status :=
  match status.oldcode with
  | some oldcode =>
    if status.freeEnt < status.maxcode then status.enter oldcode finbyte else status
  | none => status

def Status.afterCode (status : Status) (code : Nat) : Status :=
  { ({ status with finbyte := (status.expansion code).headD 0 }.entered
      ((status.expansion code).headD 0)).widen with oldcode := some code }

namespace Status.Fits

variable {status : Status}

theorem with_finbyte (wf : status.Wf) (finbyte : UInt8) :
    ({ status with finbyte := finbyte } : Status).Wf :=
  ⟨wf.maxcode, wf.maxcodeBits, wf.wide, wf.narrow, wf.sectionEnd, wf.first, wf.last, wf.within,
    wf.descends, wf.old⟩

theorem addEntry_eq (wf : status.Wf) (finbyte : UInt8) :
    status.addEntry finbyte = .ok (status.entered finbyte) := by
  unfold Status.addEntry Status.entered
  cases old : status.oldcode with
  | none => rfl
  | some oldcode =>
    dsimp only
    by_cases room : status.freeEnt < status.maxcode
    · have top := wf.maxcode_le
      have small := (wf.old oldcode old).1
      rw [if_pos room, if_pos room, if_pos (by unfold dictionarySize; omega)]
      simp only [if_pos small, Status.enter, old]
    · rw [if_neg room, if_neg room]

theorem table_enter {oldcode : Nat} (small : oldcode < 65536) (finbyte : UInt8) :
    (status.enter oldcode finbyte).table = status.table.set status.freeEnt oldcode finbyte := by
  have number : (UInt16.ofNat oldcode).toNat = oldcode := UInt16.toNat_ofNat_of_lt' small
  unfold Status.table Status.enter Lzw.Table.set
  dsimp only
  congr 1
  funext code
  split
  · exact number
  · rfl

/-- A new entry may put the dictionary ahead of the section by one code. -/
theorem entered (wf : status.Wf) (finbyte : UInt8) : (status.entered finbyte).Fits 1 := by
  have same : status.Fits 1 :=
    ⟨wf.maxcode, wf.maxcodeBits, wf.wide, wf.narrow, wf.sectionEnd, wf.first, wf.last,
      Nat.le_succ_of_le wf.within, wf.descends, wf.old⟩
  unfold Status.entered
  split
  next oldcode old =>
    split
    next room =>
      obtain ⟨small, below⟩ := wf.old oldcode old
      have lower : oldcode < status.freeEnt := by omega
      refine ⟨wf.maxcode, wf.maxcodeBits, wf.wide, wf.narrow, wf.sectionEnd,
        Nat.le_succ_of_le wf.first, ?_, Nat.succ_le_succ wf.within, ?_, ?_⟩
      · change status.freeEnt + 1 ≤ max 257 status.maxcode
        omega
      · rw [table_enter small]
        exact wf.descends.set lower finbyte
      · intro other same
        obtain ⟨small, below⟩ := wf.old other same
        refine ⟨small, .inl ?_⟩
        change other < status.freeEnt + 1
        omega
    · exact same
  · exact same

/-- The width grows when the dictionary passes the section. -/
theorem widen (fits : status.Fits 1) : status.widen.Wf := by
  unfold Status.widen
  have within := fits.within
  split
  next passed =>
    have last := fits.last
    have wide := fits.wide
    have narrow := fits.narrow
    have power : 2 ^ (status.bits + 1) = 2 * 2 ^ status.bits := by rw [Nat.pow_succ, Nat.mul_comm]
    have least : 2 ^ 9 ≤ 2 ^ status.bits := Nat.pow_le_pow_right (by decide) wide
    have sectionEnd : status.sectionEndCode = 2 ^ status.bits - 1 := by
      have formula := fits.sectionEnd
      split at formula
      next top =>
        have large : 2 ^ 10 ≤ status.maxcode := by
          rw [fits.maxcode, ← top.2]
          exact Nat.pow_le_pow_right (by decide) top.1
        omega
      · exact formula
    have free : status.freeEnt = 2 ^ status.bits := by omega
    have below : status.bits ≤ status.maxcodeBits := by
      have bound : 2 ^ status.bits ≤ 2 ^ status.maxcodeBits := by
        rw [← fits.maxcode]
        omega
      exact (Nat.pow_le_pow_iff_right (by decide)).mp bound
    have growing : status.bits = 9 ∨ status.bits < status.maxcodeBits := by
      by_contra stuck
      have formula := fits.sectionEnd
      have maxcode := fits.maxcode
      have equal : status.bits = status.maxcodeBits := by omega
      rw [if_pos (by omega), maxcode, ← equal] at formula
      omega
    refine ⟨fits.maxcode, fits.maxcodeBits, Nat.le_succ_of_le wide, ?_, ?_, fits.first, fits.last,
      ?_, fits.descends, fits.old⟩
    · change status.bits + 1 ≤ max 10 status.maxcodeBits
      omega
    · change (if status.bits + 1 = status.maxcodeBits then _ else _) = if 10 ≤ status.bits + 1 ∧
        status.bits + 1 = status.maxcodeBits then status.maxcode else 2 ^ (status.bits + 1) - 1
      by_cases top : status.bits + 1 = status.maxcodeBits
      · rw [if_pos top, if_pos ⟨by omega, top⟩]
      · rw [if_neg top, if_neg fun both => top both.2]
    · change status.freeEnt ≤ (if status.bits + 1 = status.maxcodeBits then status.maxcode
        else 2 ^ (status.bits + 1) - 1) + 0
      split
      next top =>
        rw [fits.maxcode, ← top]
        omega
      · omega
  next inside =>
    exact ⟨fits.maxcode, fits.maxcodeBits, fits.wide, fits.narrow, fits.sectionEnd, fits.first,
      fits.last, Nat.not_lt.mp inside, fits.descends, fits.old⟩

end Status.Fits

/-- A code that the decoder does not refuse. -/
def Status.Accepts (status : Status) (code : Nat) : Prop :=
  code < status.freeEnt ∨ (code = status.freeEnt ∧ status.oldcode ≠ none)

instance (status : Status) (code : Nat) : Decidable (status.Accepts code) :=
  inferInstanceAs (Decidable (_ ∨ _))

theorem Status.accepts_iff (status : Status) {code : Nat} : status.Accepts code ↔
    ¬(status.freeEnt < code ∨ (code = status.freeEnt ∧ status.oldcode = none)) := by
  unfold Status.Accepts
  by_cases old : status.oldcode = none
  · simp only [old, ne_eq, not_true_eq_false, and_false, or_false, and_true]
    omega
  · simp only [old, ne_eq, not_false_eq_true, and_true, and_false, or_false]
    omega

namespace Status.Fits

variable {status : Status}

theorem afterCode (wf : status.Wf) {code : Nat} (accepted : status.Accepts code)
    (bound : code < 65536) : (status.afterCode code).Wf := by
  have fresh := ((wf.with_finbyte ((status.expansion code).headD 0)).entered
    ((status.expansion code).headD 0)).widen
  refine ⟨fresh.maxcode, fresh.maxcodeBits, fresh.wide, fresh.narrow, fresh.sectionEnd,
    fresh.first, fresh.last, fresh.within, fresh.descends, ?_⟩
  intro other same
  have other : code = other := Option.some.inj same
  subst other
  refine ⟨bound, ?_⟩
  -- The width changes neither the next code nor the capacity.
  have widened : ∀ status : Status, status.widen.freeEnt = status.freeEnt ∧
      status.widen.maxcode = status.maxcode := by
    intro status
    unfold Status.widen
    split <;> exact ⟨rfl, rfl⟩
  unfold Status.afterCode
  dsimp only
  rw [(widened _).1, (widened _).2]
  unfold Status.entered
  dsimp only
  cases old : status.oldcode with
  | none =>
    rcases accepted with below | ⟨-, some⟩
    · exact .inl below
    · exact absurd old some
  | some oldcode =>
    dsimp only
    split
    next room =>
      refine .inl ?_
      change code < status.freeEnt + 1
      rcases accepted with below | ⟨next, -⟩ <;> omega
    next full => exact .inr (Nat.not_lt.mp full)

theorem reset (wf : status.Wf) : status.reset.Wf where
  maxcode := wf.maxcode
  maxcodeBits := wf.maxcodeBits
  wide := Nat.le_refl 9
  narrow := by
    change 9 ≤ max 10 status.maxcodeBits
    omega
  sectionEnd := (if_neg fun both => absurd both.1 (by decide : ¬10 ≤ 9)).symm
  first := by
    change (if status.useResetCode = true then 257 else 256) ≤ 257
    split <;> decide
  last := Nat.le_max_left 257 status.maxcode
  within := (by decide : 257 ≤ 2 ^ 9 - 1 + 0)
  descends := wf.descends
  old := nofun

/-- The chain that is expanded starts inside the tables. -/
theorem start_lt (wf : status.Wf) {code : Nat} (bound : code < 65536) :
    (if status.freeEnt ≤ code then status.oldcode.getD 0 else code) < dictionarySize := by
  split
  · cases old : status.oldcode with
    | none => exact (by decide : 0 < dictionarySize)
    | some oldcode => exact (wf.old oldcode old).1
  · exact bound

/-- An expansion is at most 65282 bytes long. -/
theorem length_expansion_le (wf : status.Wf) {code : Nat} (bound : code < 65536) :
    (status.expansion code).length ≤ 65282 := by
  have chain : ∀ code < 65536, (status.spell code).length ≤ 65281 := by
    intro code bound
    have descends : status.table.Descends status.lzw.literals := wf.descends
    have length := descends.length_spell_le code
    have literals : status.lzw.literals = 256 := rfl
    rw [literals] at length
    change (status.table.spell status.lzw code).length ≤ 65281
    omega
  have start := wf.start_lt bound
  unfold Status.expansion
  by_cases next : status.freeEnt ≤ code
  · rw [if_pos next] at start
    rw [if_pos next, List.length_append, List.length_singleton]
    exact Nat.succ_le_succ (chain _ start)
  · rw [if_neg next]
    exact Nat.le_succ_of_le (chain code bound)

end Status.Fits

end UnixCompress

open UnixCompress

namespace UnixCompressReader

variable {reader : UnixCompressReader}

variable {result : Except Fault Bool × UnixCompressReader}

/-- What decoding a code leaves. -/
def afterCode (reader : UnixCompressReader) (code : Nat) : UnixCompressReader :=
  let entered := { reader.status with
    finbyte := (reader.status.expansion code).headD 0 }.entered
      ((reader.status.expansion code).headD 0)
  { reader with
    stack := reader.status.expansion code
    input := if entered.sectionEndCode < entered.freeEnt then
      { reader.input with bytesInSection := 0 } else reader.input
    status := reader.status.afterCode code }

theorem decodeCode_eq (wf : reader.status.Wf) (empty : reader.stack = []) {code : Nat}
    (accepted : reader.status.Accepts code) (bound : code < 65536) :
    reader.decodeCode code = (.ok true, reader.afterCode code) := by
  have start := wf.start_lt bound
  unfold decodeCode
  dsimp only
  rw [if_neg (reader.status.accepts_iff.mp accepted)]
  -- The first byte of a code that is just being added is pushed before its chain.
  have pushed : (if reader.status.freeEnt ≤ code then pushStack reader.stack reader.status.finbyte
      else (.ok (), reader.stack)) =
      (.ok (), if reader.status.freeEnt ≤ code then [reader.status.finbyte] else []) := by
    rw [empty]
    split
    · exact if_neg (by decide)
    · rfl
  have spelled : reader.status.expansion code = reader.status.spell
      (if reader.status.freeEnt ≤ code then reader.status.oldcode.getD 0 else code) ++
        if reader.status.freeEnt ≤ code then [reader.status.finbyte] else [] := by
    unfold Status.expansion
    split
    · rfl
    · exact (List.append_nil _).symm
  have room : (if reader.status.freeEnt ≤ code then [reader.status.finbyte] else []).length +
      (reader.status.spell (if reader.status.freeEnt ≤ code then reader.status.oldcode.getD 0
        else code)).length ≤ stackCapacity := by
    have total := wf.length_expansion_le bound
    rw [spelled, List.length_append] at total
    unfold stackCapacity
    omega
  obtain ⟨root, rest, literal, begins, expanded⟩ :=
    Status.expand_eq wf.descends (Nat.le_of_lt start) start room
  rw [pushed]
  dsimp only
  rw [expanded]
  dsimp only
  rw [if_pos literal]
  rw [begins] at spelled room
  have top : pushStack (rest ++ if reader.status.freeEnt ≤ code then [reader.status.finbyte]
      else []) (UInt8.ofNat root) = (.ok (), reader.status.expansion code) := by
    rw [spelled]
    refine if_neg ?_
    rw [List.length_append]
    rw [List.length_cons] at room
    omega
  have first : (reader.status.expansion code).headD 0 = UInt8.ofNat root := by
    rw [spelled]
    rfl
  rw [top]
  dsimp only
  rw [(wf.with_finbyte (UInt8.ofNat root)).addEntry_eq]
  unfold afterCode Status.afterCode
  dsimp only
  rw [first]

/-- The invariant of a decoder between two codes. -/
structure Wf (reader : UnixCompressReader) : Prop where
  status : reader.status.Wf
  few : reader.input.bitsAvail < reader.status.bits

/-- Everything that a round of `next_code` can do. -/
inductive Round (reader : UnixCompressReader) :
    Except Fault (Option Bool) × UnixCompressReader → Prop
  | ended {input : Input} (suffix : input.inner <:+ reader.input.inner)
      (short : input.bitsAvail < reader.status.bits)
      (atEnd : OnlyBytes reader.input.inner → input.inner = []) :
      Round reader (.ok (some false), { reader with input := input })
  | endedInReset {input : Input} (suffix : input.inner <:+ reader.input.inner)
      (consumed : input.inner.length < reader.input.inner.length) (few : input.bitsAvail < 8)
      (atEnd : OnlyBytes reader.input.inner → input.inner = [])
      (mode : reader.status.useResetCode = true) :
      Round reader (.ok (some false),
        { reader with input := input, codes := reader.codes ++ [256] })
  | undefined {input : Input} {code : Nat} (suffix : input.inner <:+ reader.input.inner)
      (consumed : input.inner.length < reader.input.inner.length) (few : input.bitsAvail < 8)
      (plain : ¬(code = 256 ∧ reader.status.useResetCode = true))
      (refused : ¬reader.status.Accepts code) :
      Round reader (.error invalidCompressedData,
        { reader with input := input, codes := reader.codes ++ [code] })
  | reset {input : Input} (suffix : input.inner <:+ reader.input.inner)
      (consumed : input.inner.length < reader.input.inner.length) (few : input.bitsAvail < 8)
      (mode : reader.status.useResetCode = true) :
      Round reader (.ok none,
        { reader with
          input := input, status := reader.status.reset, codes := reader.codes ++ [256] })
  | decoded {input : Input} {code : Nat} (suffix : input.inner <:+ reader.input.inner)
      (consumed : input.inner.length < reader.input.inner.length) (few : input.bitsAvail < 8)
      (bound : code < 2 ^ reader.status.bits)
      (plain : ¬(code = 256 ∧ reader.status.useResetCode = true))
      (accepted : reader.status.Accepts code) :
      Round reader (.ok (some true), afterCode
        { reader with input := input, codes := reader.codes ++ [code] } code)

theorem round_nextCodeRound (wf : reader.Wf) (empty : reader.stack = []) :
    Round reader reader.nextCodeRound := by
  have bits := bits_getbits wf.status.bits_le wf.few
  unfold nextCodeRound
  split
  next result => rw [result] at bits; cases bits
  next result =>
    rw [result] at bits
    cases bits with
    | missing suffix short atEnd => exact .ended suffix short atEnd
  next code input result =>
    rw [result] at bits
    cases bits with
    | found suffix consumed few bound =>
      dsimp only
      split
      next reset =>
        obtain ⟨rfl, mode⟩ := reset
        unfold resetDictionary
        dsimp only
        generalize skip : Input.skip _ _ = answer
        have skipped : Skipped { input with bitsAvail := 0 } answer :=
          skip ▸ skipped_skip _ (Nat.zero_lt_succ 7)
        cases skipped with
        | ended further few atEnd =>
          exact .endedInReset (further.trans suffix)
            (Nat.lt_of_le_of_lt further.length_le consumed) few
            (fun only => atEnd (only.suffix suffix)) mode
        | skipped further few =>
          exact .reset (further.trans suffix)
            (Nat.lt_of_le_of_lt further.length_le consumed) few mode
      next plain =>
        by_cases accepted : reader.status.Accepts code
        · have decoded := @decodeCode_eq
            { reader with input := input, codes := reader.codes ++ [code] }
            wf.status empty _ accepted (wf.status.code_lt bound)
          rw [decoded]
          exact .decoded suffix consumed few bound plain accepted
        · have refused : ({ reader with
              input := input, codes := reader.codes ++ [code] } : UnixCompressReader).decodeCode
                code = (.error invalidCompressedData,
                  { reader with input := input, codes := reader.codes ++ [code] }) :=
            if_pos (not_not.mp (mt reader.status.accepts_iff.mpr accepted))
          rw [refused]
          exact .undefined suffix consumed few plain accepted

theorem Round.wf {answer : Except Fault (Option Bool)} {next : UnixCompressReader}
    (round : Round reader (answer, next)) (wf : reader.Wf) : next.Wf := by
  have wide := wf.status.wide
  cases round with
  | ended suffix short atEnd => exact ⟨wf.status, short⟩
  | endedInReset suffix consumed few atEnd mode => exact ⟨wf.status, by dsimp only; omega⟩
  | undefined suffix consumed few plain refused => exact ⟨wf.status, by dsimp only; omega⟩
  | reset suffix consumed few mode =>
    exact ⟨wf.status.reset, few.trans (Nat.lt_succ_self 8)⟩
  | @decoded input code suffix consumed few bound plain accepted =>
    have next := wf.status.afterCode accepted (wf.status.code_lt bound)
    have wider := next.wide
    refine ⟨next, ?_⟩
    unfold afterCode
    dsimp only
    split
    · exact Nat.lt_of_lt_of_le (few.trans (by decide : 8 < 9)) wider
    · exact Nat.lt_of_lt_of_le (few.trans (by decide : 8 < 9)) wider

/-- Resets, and then the answer to a code or the end. -/
inductive Next : UnixCompressReader → Except Fault Bool × UnixCompressReader → Prop
  | answer {reader next : UnixCompressReader} {more : Bool}
      (round : Round reader (.ok (some more), next)) : Next reader (.ok more, next)
  | fault {reader next : UnixCompressReader} {fault : Fault}
      (round : Round reader (.error fault, next)) : Next reader (.error fault, next)
  | again {reader between : UnixCompressReader} {result : Except Fault Bool × UnixCompressReader}
      (round : Round reader (.ok none, between)) (rest : Next between result) :
      Next reader result

theorem next_nextCodeRounds (wf : reader.Wf) (empty : reader.stack = []) {rounds : Nat}
    (enough : reader.input.inner.length < rounds) :
    Next reader (nextCodeRounds rounds reader) := by
  induction rounds generalizing reader with
  | zero => exact absurd enough (Nat.not_lt_zero _)
  | succ rounds ih =>
    have round := round_nextCodeRound wf empty
    unfold nextCodeRounds
    split
    next result => exact .fault (result ▸ round)
    next result => exact .answer (result ▸ round)
    next between result =>
      rw [result] at round
      have wf' := round.wf wf
      refine .again round ?_
      cases round with
      | reset suffix consumed few mode => exact ih wf' empty (by dsimp only; omega)

/-- A round of `next_code` answers, and its loop ends. -/
theorem next_nextCode (wf : reader.Wf) (empty : reader.stack = []) :
    Next reader reader.nextCode :=
  next_nextCodeRounds wf empty (Nat.lt_succ_self _)

theorem Next.wf (next : Next reader result) (wf : reader.Wf) : result.2.Wf := by
  induction next with
  | answer round => exact round.wf wf
  | fault round => exact round.wf wf
  | again round rest ih => exact ih (round.wf wf)

theorem Next.fault_eq (next : Next reader result) {fault : Fault}
    (refused : result.1 = .error fault) :
    fault = invalidCompressedData := by
  induction next with
  | answer round => cases refused
  | fault round =>
    cases refused
    cases round
    rfl
  | again round rest ih => exact ih refused

/-! ## Blocks -/

/-- Only the stack and what codes change is left by a code. -/
structure Coded (reader : UnixCompressReader) (result : Except Fault Bool × UnixCompressReader) :
    Prop where
  out : result.2.out = reader.out
  outPos : result.2.outPos = reader.outPos
  endOfStream : result.2.endOfStream = reader.endOfStream
  pushed : result.1 = .ok true → result.2.stack ≠ []
  kept : result.1 ≠ .ok true → result.2.stack = reader.stack
  length : reader.stack = [] → result.2.stack.length ≤ 65282

theorem Next.coded (next : Next reader result) (wf : reader.Wf) : Coded reader result := by
  induction next with
  | answer round =>
    cases round with
    | ended suffix short atEnd =>
      exact ⟨rfl, rfl, rfl, nofun, fun _ => rfl, fun empty => by simp [empty]⟩
    | endedInReset suffix consumed few atEnd mode =>
      exact ⟨rfl, rfl, rfl, nofun, fun _ => rfl, fun empty => by simp [empty]⟩
    | @decoded input code suffix consumed few bound plain accepted =>
      refine ⟨rfl, rfl, rfl, fun _ => ?_, fun other => absurd rfl other,
        fun _ => wf.status.length_expansion_le (wf.status.code_lt bound)⟩
      change UnixCompress.Status.expansion _ code ≠ []
      unfold UnixCompress.Status.expansion
      split
      · exact List.append_ne_nil_of_right_ne_nil _ (List.cons_ne_nil _ _)
      · exact Lzw.Table.spell_ne_nil _ _
  | fault round =>
    cases round with
    | undefined suffix consumed few plain refused =>
      exact ⟨rfl, rfl, rfl, nofun, fun _ => rfl, fun empty => by simp [empty]⟩
  | again round rest ih =>
    have coded := ih (round.wf wf)
    cases round with
    | reset suffix consumed few mode =>
      exact ⟨coded.out, coded.outPos, coded.endOfStream, coded.pushed, coded.kept,
        coded.length⟩

/-- Everything that filling a block can do. -/
inductive Filled : UnixCompressReader → Except Fault Unit × UnixCompressReader → Prop
  | done {reader : UnixCompressReader}
      (enough : ¬(reader.out.length < outBlockSize ∧ reader.endOfStream = false)) :
      Filled reader (.ok (), { reader with outPos := 0 })
  | pop {reader : UnixCompressReader} {result : Except Fault Unit × UnixCompressReader}
      {byte : UInt8} {stack : List UInt8} (top : reader.stack = byte :: stack)
      (rest : Filled { reader with stack := stack, out := reader.out ++ [byte] } result) :
      Filled reader result
  | fault {reader next : UnixCompressReader} {fault : Fault} (empty : reader.stack = [])
      (coded : Next reader (.error fault, next)) : Filled reader (.error fault, next)
  | more {reader next : UnixCompressReader} {result : Except Fault Unit × UnixCompressReader}
      (going : reader.endOfStream = false) (empty : reader.stack = [])
      (coded : Next reader (.ok true, next)) (rest : Filled next result) : Filled reader result
  | last {reader next : UnixCompressReader} (empty : reader.stack = [])
      (coded : Next reader (.ok false, next)) :
      Filled reader (.ok (), { next with endOfStream := true, outPos := 0 })

/-- The rounds that are left of a block. -/
def roundsLeft (reader : UnixCompressReader) : Nat :=
  2 * (outBlockSize - reader.out.length) + if reader.stack = [] then 1 else 0

theorem filled_fillRounds (wf : reader.Wf) {rounds : Nat} (enough :
    reader.roundsLeft + 1 ≤ rounds) :
    Filled reader (fillRounds (rounds + 1) reader) := by
  induction rounds generalizing reader with
  | zero => exact absurd enough (Nat.not_succ_le_zero _)
  | succ rounds ih =>
    unfold fillRounds
    split
    next room =>
      unfold roundsLeft at enough
      split
      next byte stack top =>
        have some : reader.stack ≠ [] := by
          rw [top]
          exact List.cons_ne_nil _ _
        rw [if_neg some] at enough
        refine .pop top (ih ⟨wf.status, wf.few⟩ ?_)
        unfold roundsLeft
        dsimp only
        rw [List.length_append, List.length_singleton]
        split <;> omega
      next empty =>
        rw [if_pos empty] at enough
        have next := next_nextCode wf empty
        split
        next result => exact .fault empty (result ▸ next)
        next after result =>
          rw [result] at next
          have coded := next.coded wf
          have out : after.out = reader.out := coded.out
          refine .more room.2 empty next (ih (next.wf wf) ?_)
          unfold roundsLeft
          rw [if_neg (coded.pushed rfl), out]
          omega
        next after result =>
          rw [result] at next
          have atEnd : ¬(({ after with endOfStream := true } : UnixCompressReader).out.length <
              outBlockSize ∧ ({ after with endOfStream := true } : UnixCompressReader).endOfStream
                = false) := fun both => absurd both.2 nofun
          unfold fillRounds
          rw [if_neg atEnd]
          exact @Filled.last _ after empty next
    next full => exact .done full

theorem filled_fillOutBlock (wf : reader.Wf) :
    Filled { reader with out := [] } reader.fillOutBlock := by
  refine @filled_fillRounds { reader with out := [] } ⟨wf.status, wf.few⟩ _ ?_
  unfold roundsLeft
  dsimp only
  rw [List.length_nil]
  split <;> omega

theorem Filled.wf {result : Except Fault Unit × UnixCompressReader}
    (filled : Filled reader result) (wf : reader.Wf) : result.2.Wf := by
  induction filled with
  | done enough => exact ⟨wf.status, wf.few⟩
  | pop top rest ih => exact ih ⟨wf.status, wf.few⟩
  | fault empty coded => exact coded.wf wf
  | more going empty coded rest ih => exact ih (coded.wf wf)
  | last empty coded => exact ⟨(coded.wf wf).status, (coded.wf wf).few⟩

/-- A block that is filled is not empty, or the stream has ended. -/
theorem Filled.outcome {result : Except Fault Unit × UnixCompressReader}
    (filled : Filled reader result) :
    (result.1 = .ok () ∧ result.2.outPos = 0 ∧
      (outBlockSize ≤ result.2.out.length ∨ result.2.endOfStream = true)) ∨
      result.1 = .error invalidCompressedData := by
  induction filled with
  | @done reader enough =>
    refine .inl ⟨rfl, rfl, ?_⟩
    by_cases atEnd : reader.endOfStream = true
    · exact .inr atEnd
    · exact .inl (Nat.not_lt.mp fun room => enough ⟨room, Bool.not_eq_true _ ▸ atEnd⟩)
  | pop top rest ih => exact ih
  | fault empty coded => exact .inr (congrArg Except.error (coded.fault_eq rfl))
  | more going empty coded rest ih => exact ih
  | last empty coded => exact .inl ⟨rfl, rfl, .inr rfl⟩

/-- Everything that `read` can do. -/
inductive Answer (reader : UnixCompressReader) (bufferLength : Nat) :
    Except Fault (List UInt8) × UnixCompressReader → Prop
  | deliver (left : reader.outPos < reader.out.length) :
      Answer reader bufferLength (.ok ((reader.out.drop reader.outPos).take bufferLength),
        { reader with
          outPos := reader.outPos + ((reader.out.drop reader.outPos).take bufferLength).length })
  | ended (none : ¬reader.outPos < reader.out.length) (atEnd : reader.endOfStream = true) :
      Answer reader bufferLength (.ok [], reader)
  | fault {next : UnixCompressReader} (none : ¬reader.outPos < reader.out.length)
      (filled : Filled { reader with out := [] } (.error invalidCompressedData, next)) :
      Answer reader bufferLength (.error invalidCompressedData, next)
  | filled {next : UnixCompressReader} (none : ¬reader.outPos < reader.out.length)
      (filled : Filled { reader with out := [] } (.ok (), next)) (some : next.out ≠ [])
      (start : next.outPos = 0) :
      Answer reader bufferLength (.ok (next.out.take bufferLength),
        { next with outPos := (next.out.take bufferLength).length })
  | finished {next : UnixCompressReader} (none : ¬reader.outPos < reader.out.length)
      (filled : Filled { reader with out := [] } (.ok (), next)) (empty : next.out = [])
      (atEnd : next.endOfStream = true) : Answer reader bufferLength (.ok [], next)

theorem answer_read (wf : reader.Wf) (bufferLength : Nat) :
    Answer reader bufferLength (reader.read bufferLength) := by
  have filled := filled_fillOutBlock wf
  unfold read readRounds
  split
  next left => exact .deliver left
  next none =>
    split
    next atEnd => exact .ended none atEnd
    next going =>
      split
      next fault next result =>
        rw [result] at filled
        rcases filled.outcome with ⟨fine, -⟩ | refused
        · cases fine
        · cases refused
          exact .fault none filled
      next next result =>
        rw [result] at filled
        rcases filled.outcome with ⟨-, start, ending⟩ | refused
        · dsimp only at start ending
          unfold readRounds
          simp only [start, List.drop_zero, Nat.zero_add]
          by_cases empty : next.out = []
          · have atEnd : next.endOfStream = true := by
              rw [empty] at ending
              exact ending.resolve_left (by decide)
            rw [if_neg (by rw [empty]; exact Nat.lt_irrefl 0), if_pos atEnd]
            exact .finished none filled empty atEnd
          · rw [if_pos (List.length_pos_iff.mpr empty)]
            exact .filled none filled empty start
        · cases refused

theorem Answer.wf {bufferLength : Nat} {result : Except Fault (List UInt8) × UnixCompressReader}
    (answer : Answer reader bufferLength result) (wf : reader.Wf) : result.2.Wf := by
  cases answer with
  | deliver left => exact ⟨wf.status, wf.few⟩
  | ended none atEnd => exact wf
  | fault none filled => exact filled.wf ⟨wf.status, wf.few⟩
  | filled none filled some start =>
    have next := filled.wf ⟨wf.status, wf.few⟩
    exact ⟨next.status, next.few⟩
  | finished none filled empty atEnd => exact filled.wf ⟨wf.status, wf.few⟩

/-! ## Opening -/

/-- What a byte of the header leaves. -/
inductive HeaderByte (input : Input) : Except Fault Nat × Input → Prop
  | missing {input' : Input} (atEnd : OnlyBytes input.inner → input'.inner = []) :
      HeaderByte input (.error truncated, input')
  | found {input' : Input} {byte : Nat} (suffix : input'.inner <:+ input.inner)
      (few : input'.bitsAvail < 8) : HeaderByte input (.ok byte, input')

theorem headerByte_cases {input : Input} (few : input.bitsAvail < 8) :
    HeaderByte input (headerByte input) := by
  have bits := bits_getbits (by decide : 8 ≤ 16) few
  unfold headerByte
  split
  next result => rw [result] at bits; cases bits
  next result =>
    rw [result] at bits
    cases bits with
    | missing suffix short atEnd => exact .missing atEnd
  next result =>
    rw [result] at bits
    cases bits with
    | found suffix consumed few bound => exact .found suffix few

/-- An accepted header starts the decoder with a declared width of at most 16 bits. -/
inductive Header (inner : List InnerRead) : Except Fault Status × Input → Prop
  | refused {fault : Fault} {input : Input}
      (known : fault = truncated ∨ fault = invalidData "not a compress stream" ∨
        fault = invalidData "invalid compress stream parameters" ∨
        fault = invalidCompressedData) : Header inner (.error fault, input)
  | accepted {parameters : Nat} {input : Input} (width : parameters &&& 0x1f ≤ 16)
      (suffix : input.inner <:+ inner) (few : input.bitsAvail < 8) :
      Header inner (.ok (initialStatus parameters), input)

theorem header_readHeader (inner : List InnerRead) : Header inner (readHeader inner) := by
  have first := @headerByte_cases { inner := inner } (Nat.zero_lt_succ 7)
  unfold readHeader
  split
  next result =>
    rw [result] at first
    cases first
    exact .refused (.inl rfl)
  next result =>
    rw [result] at first
    cases first with
    | found suffix few =>
      have second := headerByte_cases few
      split
      next result =>
        rw [result] at second
        cases second
        exact .refused (.inl rfl)
      next result =>
        rw [result] at second
        cases second with
        | found suffix' few =>
          have third := headerByte_cases few
          split
          · exact .refused (.inr (.inl rfl))
          split
          next result =>
            rw [result] at third
            cases third
            exact .refused (.inl rfl)
          next result =>
            rw [result] at third
            cases third with
            | found suffix'' few =>
              split
              · exact .refused (.inr (.inr (.inl rfl)))
              split
              · exact .refused (.inr (.inr (.inr rfl)))
              next width =>
                exact .accepted (Nat.not_lt.mp width) ((suffix''.trans suffix').trans suffix) few

theorem wf_initialStatus {parameters : Nat} (width : parameters &&& 0x1f ≤ 16) :
    (initialStatus parameters).Wf where
  maxcode := rfl
  maxcodeBits := width
  wide := Nat.le_refl 9
  narrow := by
    change 9 ≤ max 10 _
    omega
  sectionEnd := (if_neg fun both => absurd both.1 (by decide : ¬10 ≤ 9)).symm
  first := Nat.le_refl _
  last := by
    change (if _ then 257 else 256) ≤ max 257 _
    split <;> omega
  within := by
    change (if _ then 257 else 256) ≤ 2 ^ 9 - 1 + 0
    split <;> decide
  descends := fun code behind => Nat.lt_of_lt_of_le (by decide : 0 < 256) behind
  old := nofun

/-- The decoders that opening and reading come to, between the codes too. -/
inductive Reaches (inner : List InnerRead) : UnixCompressReader → Prop
  | opened {status : Status} {input : Input} (header : readHeader inner = (.ok status, input)) :
      Reaches inner { input := input, status := status }
  | coded {reader : UnixCompressReader} (before : Reaches inner reader)
      (empty : reader.stack = []) : Reaches inner reader.nextCode.2
  | popped {reader : UnixCompressReader} {byte : UInt8} {stack : List UInt8}
      (before : Reaches inner reader) (top : reader.stack = byte :: stack) :
      Reaches inner { reader with stack := stack, out := reader.out ++ [byte] }
  | read {reader : UnixCompressReader} (before : Reaches inner reader) (bufferLength : Nat) :
      Reaches inner (reader.read bufferLength).2

theorem Reaches.wf {inner : List InnerRead} (reached : Reaches inner reader) : reader.Wf := by
  induction reached with
  | opened header =>
    have accepted := header_readHeader inner
    rw [header] at accepted
    cases accepted with
    | accepted width suffix few =>
      exact ⟨wf_initialStatus width, few.trans (Nat.lt_succ_self 8)⟩
  | coded before empty ih => exact (next_nextCode ih empty).wf ih
  | popped before top ih => exact ⟨ih.status, ih.few⟩
  | read before bufferLength ih => exact (answer_read ih bufferLength).wf ih

/-- A decoder that is opened is reached. -/
theorem reaches_new {inner : List InnerRead} (opened : (new inner).1 = .ok ()) :
    Reaches inner (new inner).2 := by
  unfold new at opened ⊢
  split at opened
  next result => cases opened
  next status input header =>
    have coded := Reaches.coded (.opened header) rfl
    split at opened
    next result => cases opened
    next result =>
      rw [result] at coded
      exact coded

/-- Failures that would show that a bound of the decoder is wrong. -/
def BreaksBound (fault : Fault) : Prop :=
  fault = entryTooLong ∨ fault = .indexOutOfBounds ∨ fault = .runsOn

theorem not_breaksBound_invalid : ¬BreaksBound invalidCompressedData := by
  unfold BreaksBound
  decide

/-- **The decoder keeps its bounds.** Whatever the inner reader answers, no call comes
to an entry that is too long, to an index outside a table or the masks, or to a loop that
does not end. In every state the code width is at most 16 bits, and an expansion is
shorter than the stack. -/
theorem unix_compress_keeps_bounds (inner : List InnerRead) :
    (∀ fault, (new inner).1 = .error fault → ¬BreaksBound fault) ∧
      ∀ reader, Reaches inner reader →
        reader.status.bits ≤ 16 ∧
        (reader.stack = [] → (reader.nextCode.2.stack.length ≤ 65282 ∧
          ∀ fault, reader.nextCode.1 = .error fault → ¬BreaksBound fault)) ∧
        ∀ bufferLength fault, (reader.read bufferLength).1 = .error fault →
          ¬BreaksBound fault := by
  constructor
  · intro fault failed
    have header := header_readHeader inner
    unfold new at failed
    split at failed
    next result =>
      rw [result] at header
      cases failed
      cases header with
      | refused known =>
        unfold BreaksBound
        rcases known with rfl | rfl | rfl | rfl <;> decide
    next status input result =>
      have wf := (Reaches.opened result).wf
      have next := next_nextCode wf rfl
      split at failed
      next refused =>
        rw [refused] at next
        cases failed
        rw [next.fault_eq rfl]
        exact not_breaksBound_invalid
      next refused => cases failed
  · intro reader reached
    have wf := reached.wf
    refine ⟨wf.status.bits_le, ?_, ?_⟩
    · intro empty
      have next := next_nextCode wf empty
      refine ⟨(next.coded wf).length empty, ?_⟩
      intro fault failed
      rw [next.fault_eq failed]
      exact not_breaksBound_invalid
    · intro bufferLength fault failed
      have answer := answer_read wf bufferLength
      generalize reader.read bufferLength = result at answer failed
      cases answer with
      | deliver left => cases failed
      | ended none atEnd => cases failed
      | fault none filled =>
        cases failed
        exact not_breaksBound_invalid
      | filled none filled some start => cases failed
      | finished none filled empty atEnd => cases failed

/-- The literal `A` in codes of nine bits. -/
theorem literal_stream_keeps_bounds :
    (new ([0x1f, 0x9d, 0x10, 0x41, 0x00].map .byte)).2.status.bits ≤ 16 := by
  have opened : (new ([0x1f, 0x9d, 0x10, 0x41, 0x00].map .byte)).1 = .ok () := by
    decide +kernel
  exact ((unix_compress_keeps_bounds _).2 _ (reaches_new opened)).1

end UnixCompressReader

end ZManager
