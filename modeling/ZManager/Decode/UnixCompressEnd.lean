import ZManager.Decode.UnixCompressLzw

/-! # Where a Unix compress stream ends

The decoder asks the inner reader for bytes and takes every other answer for the end of
the data, a failure too. It does the same whatever answers without a byte stand behind
the bytes.
-/

namespace ZManager

namespace UnixCompress

/-- Answers without a byte. -/
def Silent (tail : List InnerRead) : Prop := ∀ value, .byte value ∉ tail

theorem Silent.tail {read : InnerRead} {tail : List InnerRead} (silent : Silent (read :: tail)) :
    Silent tail :=
  fun value member => silent value (List.mem_cons_of_mem read member)

def Input.followedBy (input : Input) (tail : List InnerRead) : Input :=
  { input with inner := input.inner ++ tail }

/-- The second result is the first, with answers without a byte left behind the source. -/
def Alike {α σ : Type} (followedBy : σ → List InnerRead → σ) (one two : α × σ) : Prop :=
  ∃ tail, Silent tail ∧ two = (one.1, followedBy one.2 tail)

variable {tail : List InnerRead}

theorem refill_of_few {n : Nat} {input : Input} (few : input.bitsAvail < n)
    (inner : List InnerRead) : refill n inner input =
      match inner with
      | [] => (false, { input with inner := [] })
      | .endOfData :: rest | .failed _ :: rest => (false, { input with inner := rest })
      | .interrupted :: rest => refill n rest input
      | .byte value :: rest => refill n rest (input.pushByte value) :=
  (refill.eq_def n inner input).trans (if_pos few)

theorem refill_of_enough {n : Nat} {input : Input} (enough : ¬input.bitsAvail < n)
    (inner : List InnerRead) : refill n inner input = (true, { input with inner := inner }) :=
  (refill.eq_def n inner input).trans (if_neg enough)

/-- Without enough bits, answers without a byte come to the same as none. -/
theorem refill_silent (silent : Silent tail) {n : Nat} {input : Input}
    (few : input.bitsAvail < n) :
    ∃ rest, Silent rest ∧ refill n tail input = (false, { input with inner := rest }) := by
  induction tail with
  | nil => exact ⟨[], silent, refill_of_few few []⟩
  | cons read tail ih =>
    rw [refill_of_few few]
    cases read with
    | byte value => exact absurd List.mem_cons_self (silent value)
    | endOfData => exact ⟨tail, silent.tail, rfl⟩
    | failed source => exact ⟨tail, silent.tail, rfl⟩
    | interrupted => exact ih silent.tail

theorem refill_append (silent : Silent tail) (n : Nat) (inner : List InnerRead) (input : Input)
    (any : List InnerRead) :
    Alike Input.followedBy (refill n inner input)
      (refill n (inner ++ tail) { input with inner := any }) := by
  induction inner generalizing input with
  | nil =>
    rw [List.nil_append]
    by_cases few : input.bitsAvail < n
    · obtain ⟨rest, silent', same⟩ := @refill_silent _ silent n { input with inner := any } few
      exact ⟨rest, silent', by rw [same, refill_of_few few]; rfl⟩
    · have enough : ¬({ input with inner := any } : Input).bitsAvail < n := few
      exact ⟨tail, silent, by rw [refill_of_enough enough, refill_of_enough few]; rfl⟩
  | cons read inner ih =>
    rw [List.cons_append]
    by_cases few : input.bitsAvail < n
    · have few' : ({ input with inner := any } : Input).bitsAvail < n := few
      rw [refill_of_few few, refill_of_few few']
      cases read with
      | byte value => exact ih (input.pushByte value)
      | endOfData => exact ⟨tail, silent, rfl⟩
      | failed source => exact ⟨tail, silent, rfl⟩
      | interrupted => exact ih input
    · have enough : ¬({ input with inner := any } : Input).bitsAvail < n := few
      exact ⟨tail, silent, by rw [refill_of_enough enough, refill_of_enough few]; rfl⟩

theorem Input.getbits_followedBy (silent : Silent tail) (input : Input) (n : Nat) :
    Alike followedBy (input.getbits n) ((input.followedBy tail).getbits n) := by
  obtain ⟨rest, silent', same⟩ := refill_append silent n input.inner input (input.inner ++ tail)
  have same : refill n (input.followedBy tail).inner (input.followedBy tail) =
      ((refill n input.inner input).1, (refill n input.inner input).2.followedBy rest) := same
  refine ⟨rest, silent', ?_⟩
  unfold getbits
  rw [same]
  rcases refill n input.inner input with ⟨filled, next⟩
  cases filled with
  | false => rfl
  | true =>
    dsimp only
    cases mask[n]? <;> rfl

theorem Input.skip_followedBy (silent : Silent tail) (count : Nat) (input : Input) :
    Alike followedBy (input.skip count) ((input.followedBy tail).skip count) := by
  induction count generalizing input tail with
  | zero => exact ⟨tail, silent, rfl⟩
  | succ count ih =>
    obtain ⟨rest, silent', same⟩ := input.getbits_followedBy silent 8
    unfold Input.skip
    rw [same]
    rcases input.getbits 8 with ⟨answer, next⟩
    cases answer with
    | error fault => exact ⟨rest, silent', rfl⟩
    | ok byte =>
      cases byte with
      | none => exact ⟨rest, silent', rfl⟩
      | some _ => exact ih silent' next

end UnixCompress

open UnixCompress

namespace UnixCompressReader

variable {one two : UnixCompressReader}

def followedBy (reader : UnixCompressReader) (tail : List InnerRead) : UnixCompressReader :=
  { reader with input := reader.input.followedBy tail }

variable {reader : UnixCompressReader} {tail : List InnerRead}

theorem decodeCode_followedBy (reader : UnixCompressReader) (tail : List InnerRead) (code : Nat) :
    (reader.followedBy tail).decodeCode code =
      ((reader.decodeCode code).1, (reader.decodeCode code).2.followedBy tail) := by
  unfold decodeCode followedBy
  dsimp only
  split
  · rfl
  · rcases (if reader.status.freeEnt ≤ code then pushStack reader.stack reader.status.finbyte
      else (.ok (), reader.stack)) with ⟨pushed, stack⟩
    cases pushed with
    | error fault => rfl
    | ok _ =>
      dsimp only
      rcases reader.status.expand dictionarySize (if reader.status.freeEnt ≤ code then
        reader.status.oldcode.getD 0 else code) stack with ⟨expanded, stack⟩
      cases expanded with
      | error fault => rfl
      | ok literal =>
        dsimp only
        rcases pushStack stack (if literal < 256 then UInt8.ofNat literal else 0) with
          ⟨topped, stack⟩
        cases topped with
        | error fault => rfl
        | ok _ =>
          dsimp only
          split
          · rfl
          · next status added =>
              dsimp only
              split <;> rfl

theorem resetDictionary_followedBy (silent : Silent tail) (reader : UnixCompressReader) :
    Alike followedBy reader.resetDictionary (reader.followedBy tail).resetDictionary := by
  unfold resetDictionary
  dsimp only
  obtain ⟨rest, silent', same⟩ := Input.skip_followedBy silent
    ((reader.status.bits - reader.input.bytesInSection % reader.status.bits) % reader.status.bits)
    { reader.input with bitsAvail := 0 }
  refine ⟨rest, silent', ?_⟩
  have same : Input.skip (((reader.followedBy tail).status.bits -
      (reader.followedBy tail).input.bytesInSection % (reader.followedBy tail).status.bits) %
        (reader.followedBy tail).status.bits)
      { (reader.followedBy tail).input with bitsAvail := 0 } = _ := same
  rw [same]
  rcases Input.skip _ { reader.input with bitsAvail := 0 } with ⟨answer, input⟩
  cases answer with
  | error fault => rfl
  | ok more => cases more <;> rfl

theorem nextCodeRound_followedBy (silent : Silent tail) (reader : UnixCompressReader) :
    Alike followedBy reader.nextCodeRound (reader.followedBy tail).nextCodeRound := by
  obtain ⟨rest, silent', same⟩ := reader.input.getbits_followedBy silent reader.status.bits
  have same : (reader.followedBy tail).input.getbits (reader.followedBy tail).status.bits = _ :=
      same
  unfold nextCodeRound
  rw [same]
  rcases reader.input.getbits reader.status.bits with ⟨answer, input⟩
  rcases answer with fault | code
  · exact ⟨rest, silent', rfl⟩
  rcases code with _ | code
  · exact ⟨rest, silent', rfl⟩
  · dsimp only
    by_cases reset : code = 256 ∧ reader.status.useResetCode = true
    · rw [if_pos reset, if_pos (show code = 256 ∧ (reader.followedBy tail).status.useResetCode =
        true from reset)]
      exact resetDictionary_followedBy silent'
        { reader with input := input, codes := reader.codes ++ [code] }
    · rw [if_neg reset, if_neg (show ¬(code = 256 ∧ (reader.followedBy tail).status.useResetCode =
        true) from reset)]
      refine ⟨rest, silent', ?_⟩
      have decoded := decodeCode_followedBy
        { reader with input := input, codes := reader.codes ++ [code] } rest code
      have decoded : decodeCode { reader.followedBy tail with
        input := input.followedBy rest, codes := (reader.followedBy tail).codes ++ [code] } code =
        _ := decoded
      rw [decoded]
      rcases decodeCode { reader with input := input, codes := reader.codes ++ [code] } code with
        ⟨decoded, next⟩
      cases decoded <;> rfl

/-- More rounds do not matter to a loop that ends. -/
theorem nextCodeRounds_followedBy (silent : Silent tail) {rounds : Nat} (more : Nat)
    (ends : (nextCodeRounds rounds reader).1 ≠ .error .runsOn) :
    Alike followedBy (nextCodeRounds rounds reader)
      (nextCodeRounds (rounds + more) (reader.followedBy tail)) := by
  induction rounds generalizing reader tail with
  | zero => exact absurd rfl ends
  | succ rounds ih =>
    obtain ⟨rest, silent', same⟩ := nextCodeRound_followedBy silent reader
    rw [Nat.add_right_comm]
    unfold nextCodeRounds at ends ⊢
    rw [same]
    generalize reader.nextCodeRound = result at ends ⊢
    obtain ⟨answer, next⟩ := result
    cases answer with
    | error fault => exact ⟨rest, silent', rfl⟩
    | ok more =>
      cases more with
      | some more => exact ⟨rest, silent', rfl⟩
      | none => exact ih silent' ends

theorem nextCode_followedBy (silent : Silent tail) (wf : reader.Wf) (empty : reader.stack = []) :
    Alike followedBy reader.nextCode (reader.followedBy tail).nextCode := by
  have next := next_nextCode wf empty
  have ends : reader.nextCode.1 ≠ .error .runsOn := fun failed => nomatch next.fault_eq failed
  unfold nextCode at ends ⊢
  have longer : (reader.followedBy tail).input.inner.length + 1 =
      reader.input.inner.length + 1 + tail.length := by
    change (reader.input.inner ++ tail).length + 1 = _
    rw [List.length_append, Nat.add_right_comm]
  rw [longer]
  exact nextCodeRounds_followedBy silent tail.length ends

theorem fillRounds_followedBy (silent : Silent tail) (wf : reader.Wf) (rounds : Nat) :
    Alike followedBy (fillRounds rounds reader) (fillRounds rounds (reader.followedBy tail)) := by
  induction rounds generalizing reader tail with
  | zero => exact ⟨tail, silent, rfl⟩
  | succ rounds ih =>
    unfold fillRounds
    by_cases room : reader.out.length < outBlockSize ∧ reader.endOfStream = false
    · rw [if_pos room, if_pos (show (reader.followedBy tail).out.length < outBlockSize ∧
        (reader.followedBy tail).endOfStream = false from room)]
      have top : (reader.followedBy tail).stack = reader.stack := rfl
      rw [top]
      cases stack : reader.stack with
      | cons byte rest =>
        have popped := @ih { reader with stack := rest, out := reader.out ++ [byte] }
        exact popped silent ⟨wf.status, wf.few⟩
      | nil =>
        have next := (next_nextCode wf stack).wf wf
        obtain ⟨rest, silent', same⟩ := nextCode_followedBy silent wf stack
        dsimp only
        rw [same]
        generalize reader.nextCode = result at next ⊢
        obtain ⟨answer, after⟩ := result
        cases answer with
        | error fault => exact ⟨rest, silent', rfl⟩
        | ok more =>
          cases more with
          | true => exact ih silent' next
          | false =>
            have ended := @ih { after with endOfStream := true }
            exact ended silent' ⟨next.status, next.few⟩
    · rw [if_neg room, if_neg (show ¬((reader.followedBy tail).out.length < outBlockSize ∧
        (reader.followedBy tail).endOfStream = false) from room)]
      exact ⟨tail, silent, rfl⟩

theorem readRounds_followedBy (silent : Silent tail) (wf : reader.Wf) (rounds bufferLength : Nat) :
    Alike followedBy (readRounds rounds reader bufferLength)
      (readRounds rounds (reader.followedBy tail) bufferLength) := by
  induction rounds generalizing reader tail with
  | zero => exact ⟨tail, silent, rfl⟩
  | succ rounds ih =>
    unfold readRounds
    by_cases left : reader.outPos < reader.out.length
    · rw [if_pos left, if_pos (show (reader.followedBy tail).outPos <
        (reader.followedBy tail).out.length from left)]
      exact ⟨tail, silent, rfl⟩
    rw [if_neg left, if_neg (show ¬(reader.followedBy tail).outPos <
      (reader.followedBy tail).out.length from left)]
    by_cases atEnd : reader.endOfStream = true
    · rw [if_pos atEnd, if_pos (show (reader.followedBy tail).endOfStream = true from atEnd)]
      exact ⟨tail, silent, rfl⟩
    rw [if_neg atEnd, if_neg (show ¬(reader.followedBy tail).endOfStream = true from atEnd)]
    have filled := (filled_fillOutBlock wf).wf ⟨wf.status, wf.few⟩
    obtain ⟨rest, silent', same⟩ := @fillRounds_followedBy { reader with out := [] } tail silent
      ⟨wf.status, wf.few⟩ (2 * outBlockSize + 3)
    have same : (reader.followedBy tail).fillOutBlock =
      (reader.fillOutBlock.1, reader.fillOutBlock.2.followedBy rest) := same
    rw [same]
    generalize reader.fillOutBlock = result at filled ⊢
    obtain ⟨answer, next⟩ := result
    cases answer with
    | error fault => exact ⟨rest, silent', rfl⟩
    | ok _ => exact ih silent' filled

/-! ## Opening and reading to the end -/

theorem headerByte_followedBy (silent : Silent tail) (input : Input) :
    Alike Input.followedBy (headerByte input) (headerByte (input.followedBy tail)) := by
  obtain ⟨rest, silent', same⟩ := input.getbits_followedBy silent 8
  refine ⟨rest, silent', ?_⟩
  unfold headerByte
  rw [same]
  rcases input.getbits 8 with ⟨answer, next⟩
  cases answer with
  | error fault => rfl
  | ok byte => cases byte <;> rfl

theorem readHeader_append (silent : Silent tail) (inner : List InnerRead) :
    Alike Input.followedBy (readHeader inner) (readHeader (inner ++ tail)) := by
  obtain ⟨rest, silent', same⟩ := headerByte_followedBy silent { inner := inner }
  have same : headerByte { inner := inner ++ tail } = _ := same
  unfold readHeader
  rw [same]
  rcases headerByte { inner := inner } with ⟨first, input⟩
  cases first with
  | error fault => exact ⟨rest, silent', rfl⟩
  | ok first =>
    obtain ⟨rest, silent', same⟩ := headerByte_followedBy silent' input
    dsimp only
    rw [same]
    rcases headerByte input with ⟨second, input⟩
    cases second with
    | error fault => exact ⟨rest, silent', rfl⟩
    | ok second =>
      dsimp only
      by_cases magic : first ≠ 0x1f ∨ second ≠ 0x9d
      · rw [if_pos magic, if_pos magic]
        exact ⟨rest, silent', rfl⟩
      rw [if_neg magic, if_neg magic]
      obtain ⟨rest, silent', same⟩ := headerByte_followedBy silent' input
      rw [same]
      rcases headerByte input with ⟨parameters, input⟩
      refine ⟨rest, silent', ?_⟩
      cases parameters with
      | error fault => rfl
      | ok parameters =>
        dsimp only
        split
        · rfl
        · split <;> rfl

theorem new_append (silent : Silent tail) (inner : List InnerRead) :
    Alike followedBy (new inner) (new (inner ++ tail)) := by
  obtain ⟨rest, silent', same⟩ := readHeader_append silent inner
  unfold new
  rw [same]
  cases header : readHeader inner with
  | mk answer input =>
    cases answer with
    | error fault => exact ⟨rest, silent', rfl⟩
    | ok status =>
      obtain ⟨rest, silent', same⟩ :=
        nextCode_followedBy silent' (Reaches.opened header).wf rfl
      have same : nextCode { input := input.followedBy _, status := status } = _ := same
      refine ⟨rest, silent', ?_⟩
      dsimp only
      rw [same]
      rcases nextCode { input := input, status := status } with ⟨answer, next⟩
      cases answer <;> rfl

/-- The second decoder is the first one, with answers without a byte behind its source. -/
def Longer (one two : UnixCompressReader) : Prop :=
  ∃ tail, Silent tail ∧ one.Wf ∧ two = one.followedBy tail

theorem Longer.read (longer : Longer one two) (size : Nat) :
    (two.read size).1 = (one.read size).1 ∧ Longer (one.read size).2 (two.read size).2 := by
  obtain ⟨tail, silent, wf, rfl⟩ := longer
  obtain ⟨rest, silent', same⟩ := readRounds_followedBy silent wf 2 size
  have same : (one.followedBy tail).read size =
    ((one.read size).1, (one.read size).2.followedBy rest) := same
  rw [same]
  exact ⟨rfl, rest, silent', (answer_read wf size).wf wf, rfl⟩

theorem Longer.reads_iff (longer : Longer one two) (sizes : Nat → Nat)
    (outcome : Except Fault (List UInt8)) (extracted : List Nat) :
    (∃ final, ReadsToEnd Reads sizes two outcome final ∧ extracted = final.codes) ↔
      ∃ final, ReadsToEnd Reads sizes one outcome final ∧ extracted = final.codes := by
  constructor
  · rintro ⟨final, reads, rfl⟩
    have alike : ∀ {two one : UnixCompressReader} {size answer next}, Longer one two →
        Reads two size answer next → ∃ next', Reads one size answer next' ∧ Longer next' next := by
      intro two one size answer next longer answered
      obtain ⟨same, kept⟩ := longer.read size
      rw [answered] at same kept
      exact ⟨(one.read size).2, Prod.ext same.symm rfl, kept⟩
    obtain ⟨final', reads', -, -, -, rfl⟩ := @ReadsToEnd.of_related _ _ _ Reads sizes two
      (fun two one => Longer one two) alike outcome final one longer reads
    exact ⟨final', reads', rfl⟩
  · rintro ⟨final, reads, rfl⟩
    have alike : ∀ {one two : UnixCompressReader} {size answer next}, Longer one two →
        Reads one size answer next → ∃ next', Reads two size answer next' ∧ Longer next next' := by
      intro one two size answer next longer answered
      obtain ⟨same, kept⟩ := longer.read size
      rw [answered] at same kept
      exact ⟨(two.read size).2, Prod.ext same rfl, kept⟩
    obtain ⟨final', reads', rest, -, -, same⟩ := @ReadsToEnd.of_related _ _ _ Reads sizes one
      Longer alike outcome final two longer reads
    exact ⟨final', reads', (congrArg codes same).symm⟩

/-- An opened decoder keeps its invariant. -/
theorem wf_new {inner : List InnerRead} (opened : (new inner).1 = .ok ()) : (new inner).2.Wf :=
  (reaches_new opened).wf

/-- **Answers without a byte are the end of the data**, whether they are failures or not. -/
theorem decodesTo_append_iff (silent : Silent tail) (inner : List InnerRead) (sizes : Nat → Nat)
    (outcome : Except Fault (List UInt8)) (extracted : List Nat) :
    DecodesTo (inner ++ tail) sizes outcome extracted ↔
      DecodesTo inner sizes outcome extracted := by
  obtain ⟨rest, silent', same⟩ := new_append silent inner
  unfold DecodesTo
  rw [same]
  cases opened : new inner with
  | mk answer reader =>
    cases answer with
    | error fault => exact Iff.rfl
    | ok _ =>
      have wf := wf_new (congrArg Prod.fst opened)
      rw [opened] at wf
      exact Longer.reads_iff ⟨rest, silent', wf, rfl⟩ sizes outcome extracted

/-- Bytes that the decoder refuses, whatever stands behind them: these codes are extracted
from them. -/
def Refused (bytes : List UInt8) (extracted : List Nat) : Prop :=
  match readHeader (bytes.map .byte) with
  | (.error _, _) => True
  | (.ok status, _) => ¬status.lzw.Every (Decodable status.lzw) extracted

/-- Reading comes to an outcome, and it is an error if and only if the bytes are refused. -/
theorem decodesTo_bytes (bytes : List UInt8) {sizes : Nat → Nat}
    (positive : ∀ index, 0 < sizes index) :
    (∃ outcome extracted, DecodesTo (bytes.map .byte) sizes outcome extracted) ∧
      ∀ outcome extracted, DecodesTo (bytes.map .byte) sizes outcome extracted →
        ((∃ fault, outcome = .error fault) ↔ Refused bytes extracted) := by
  cases header : readHeader (bytes.map .byte) with
  | mk answer input =>
    cases answer with
    | error fault =>
      have opened : new (bytes.map .byte) = (.error fault, { input := input }) := by
        unfold new
        rw [header]
      unfold DecodesTo Refused
      rw [opened, header]
      exact ⟨⟨_, _, rfl, rfl⟩, fun outcome _ failed => iff_of_true ⟨fault, failed.1⟩ trivial⟩
    | ok status =>
      refine ⟨exists_decodesTo header positive, fun outcome extracted decodes => ?_⟩
      unfold Refused
      rw [header]
      rcases outcome_of_decodesTo header positive decodes with
        ⟨produced, rfl, decodable, -⟩ | ⟨failed, undecodable⟩
      · exact iff_of_false nofun (not_not.mpr decodable)
      · refine iff_of_true ?_ undecodable
        cases outcome with
        | error fault => exact ⟨fault, rfl⟩
        | ok bytes => cases failed

end UnixCompressReader

end ZManager
