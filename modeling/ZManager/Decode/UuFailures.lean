import ZManager.Decode.UuChunking

/-! # A failing reader behind the chunks of a text

The decoder reads from chunks with a reader behind them that fails. Until it asks for
a chunk more than there are, it does the same whatever stands behind them.
-/

namespace ZManager

namespace UuDecoder

open Uu

/-! ## The decoder in front of a failure -/

section

variable (source : IoError)

/-- `readChunk`, where the inner reader fails behind its chunks. -/
def readChunkOr (decoder : UuDecoder) (produced : Nat) : FillOutcome :=
  if maxLine < decoder.input.length then
    .failed ⟨.invalidData, "invalid uuencode line length"⟩ decoder
  else
    match decoder.inner with
    | [] => .failed source decoder
    | chunk :: rest =>
      if chunk = [] then { decoder with inner := rest }.atEndOfStream produced
      else .more { decoder with inner := rest, input := decoder.input ++ chunk } produced

/-- `fillStep`, where the inner reader fails behind its chunks. -/
def fillStepOr (decoder : UuDecoder) (produced : Nat) : FillOutcome :=
  let decoder := decoder.compact
  if decoder.state = .ignore then .done { decoder with input := [] }
  else
    match locateLineEnd decoder.input 0 with
    | .invalid =>
      if decoder.state = .findHead ∧ (0 < decoder.total ∨ 0 < produced) then
        .done { decoder with state := .ignore, input := [] }
      else .failed insufficient decoder
    | .pending => decoder.readChunkOr source produced
    | .found contentEnd nlSize => decoder.takeLine produced contentEnd nlSize

end

/-- The decoder with more chunks behind its own. -/
def followedBy (decoder : UuDecoder) (more : List (List UInt8)) : UuDecoder :=
  { decoder with inner := decoder.inner ++ more }

def FillOutcome.followedBy (more : List (List UInt8)) : FillOutcome → FillOutcome
  | .more decoder produced => .more (decoder.followedBy more) produced
  | .done decoder => .done (decoder.followedBy more)
  | .failed source decoder => .failed source (decoder.followedBy more)

variable {decoder next : UuDecoder} {produced : Nat} {source : IoError}

theorem processLine_followedBy (decoder : UuDecoder) (more : List (List UInt8))
    (line : List UInt8) : (decoder.followedBy more).processLine line =
      ((decoder.processLine line).1, (decoder.processLine line).2.followedBy more) := by
  rw [processLine_eq, processLine_eq]
  rfl

theorem atEndOfStream_followedBy (decoder : UuDecoder) (more : List (List UInt8))
    (produced : Nat) : (decoder.followedBy more).atEndOfStream produced =
      (decoder.atEndOfStream produced).followedBy more := by
  have input : (decoder.followedBy more).input = decoder.input := rfl
  have state : (decoder.followedBy more).state = decoder.state := rfl
  unfold atEndOfStream
  rw [input, state]
  by_cases empty : decoder.input = []
  · rw [if_pos empty, if_pos empty]
    rfl
  rw [if_neg empty, if_neg empty]
  by_cases ending : decoder.state = .uuEnd
  · rw [if_pos ending, if_pos ending, processLine_followedBy]
    rcases decoder.processLine decoder.input with ⟨result, last⟩
    cases result <;> rfl
  rw [if_neg ending, if_neg ending]
  by_cases nothing : produced = 0
  · rw [if_pos nothing, if_pos nothing]
    rfl
  · rw [if_neg nothing, if_neg nothing]
    rfl

theorem takeLine_followedBy (decoder : UuDecoder) (more : List (List UInt8))
    (produced contentEnd nlSize : Nat) :
    (decoder.followedBy more).takeLine produced contentEnd nlSize =
      (decoder.takeLine produced contentEnd nlSize).followedBy more := by
  unfold takeLine
  by_cases cap : (decoder.state = .readUu ∨ decoder.state = .readBase64) ∧
      outBuffSize < decoder.out.length + (contentEnd + nlSize) * 2
  · have cap' : ((decoder.followedBy more).state = .readUu ∨
        (decoder.followedBy more).state = .readBase64) ∧
        outBuffSize < (decoder.followedBy more).out.length + (contentEnd + nlSize) * 2 := cap
    rw [if_pos cap, if_pos cap']
    rfl
  · have cap' : ¬(((decoder.followedBy more).state = .readUu ∨
        (decoder.followedBy more).state = .readBase64) ∧
        outBuffSize < (decoder.followedBy more).out.length + (contentEnd + nlSize) * 2) := cap
    rw [if_neg cap, if_neg cap']
    have processed := processLine_followedBy { decoder with pos := contentEnd + nlSize } more
      (decoder.input.take contentEnd)
    have processed : processLine { decoder.followedBy more with pos := contentEnd + nlSize }
        ((decoder.followedBy more).input.take contentEnd) = _ := processed
    rw [processed]
    rcases processLine { decoder with pos := contentEnd + nlSize } (decoder.input.take contentEnd)
      with ⟨result, last⟩
    cases result <;> rfl

/-- A round fails with the failure of the reader where it fails or finishes at the end of
the chunks, or it is the same whatever stands behind them. -/
def MeetsFailure (source : IoError) (decoder : UuDecoder) (produced : Nat) : Prop :=
  (∃ last, decoder.fillStepOr source produced = .failed source last ∧
      ((∃ failure next, decoder.fillStep produced = .failed failure next) ∨
        ∃ next, decoder.fillStep produced = .done next ∧ next.finished = true)) ∨
    (decoder.fillStepOr source produced = decoder.fillStep produced ∧
      ∀ more, (decoder.followedBy more).fillStep produced =
        (decoder.fillStep produced).followedBy more)

theorem meetsFailure (source : IoError) (decoder : UuDecoder) (produced : Nat) :
    MeetsFailure source decoder produced := by
  unfold MeetsFailure fillStepOr fillStep
  dsimp only
  by_cases ignored : decoder.compact.state = .ignore
  · rw [if_pos ignored, if_pos ignored]
    refine .inr ⟨rfl, fun more => ?_⟩
    exact if_pos (show (decoder.followedBy more).compact.state = .ignore from ignored)
  rw [if_neg ignored, if_neg ignored]
  have going (more : List (List UInt8)) : ¬(decoder.followedBy more).compact.state = .ignore :=
    ignored
  have input (more : List (List UInt8)) :
      (decoder.followedBy more).compact.input = decoder.compact.input := rfl
  cases located : locateLineEnd decoder.compact.input 0 with
  | invalid =>
    refine .inr ⟨rfl, fun more => ?_⟩
    rw [if_neg (going more), input, located]
    dsimp only
    by_cases behind : decoder.compact.state = .findHead ∧
        (0 < decoder.compact.total ∨ 0 < produced)
    · rw [if_pos behind, if_pos (show (decoder.followedBy more).compact.state = .findHead ∧
        (0 < (decoder.followedBy more).compact.total ∨ 0 < produced) from behind)]
      rfl
    · rw [if_neg behind, if_neg (show ¬((decoder.followedBy more).compact.state = .findHead ∧
        (0 < (decoder.followedBy more).compact.total ∨ 0 < produced)) from behind)]
      rfl
  | found contentEnd nlSize =>
    refine .inr ⟨rfl, fun more => ?_⟩
    rw [if_neg (going more), input, located]
    exact takeLine_followedBy decoder.compact more produced contentEnd nlSize
  | pending =>
    dsimp only
    unfold readChunkOr readChunk
    by_cases long : maxLine < decoder.compact.input.length
    · rw [if_pos long, if_pos long]
      refine .inr ⟨rfl, fun more => ?_⟩
      rw [if_neg (going more), input, located]
      dsimp only
      rw [if_pos long]
      rfl
    rw [if_neg long, if_neg long]
    cases inner : decoder.compact.inner with
    | nil =>
      refine .inl ⟨decoder.compact, rfl, ?_⟩
      rcases @atEndOfStream_cases decoder.compact produced ignored with
        ⟨last, done, ends, -⟩ | ⟨failure, last, failed, -⟩
      · exact .inr ⟨last, done, ends⟩
      · exact .inl ⟨failure, last, failed⟩
    | cons chunk rest =>
      refine .inr ⟨rfl, fun more => ?_⟩
      have longer : (decoder.followedBy more).compact.inner = chunk :: (rest ++ more) :=
        congrArg (· ++ more) inner
      rw [if_neg (going more), input, located]
      dsimp only
      rw [if_neg long, longer]
      dsimp only
      by_cases empty : chunk = []
      · rw [if_pos empty, if_pos empty]
        exact atEndOfStream_followedBy { decoder.compact with inner := rest } more produced
      · rw [if_neg empty, if_neg empty]
        rfl

/-! ## Refills -/

theorem unread_lt_of_more_or {produced' : Nat}
    (step : decoder.fillStepOr source produced = .more next produced') :
    next.unread < decoder.unread := by
  rcases meetsFailure source decoder produced with ⟨last, failed, -⟩ | ⟨same, -⟩
  · cases failed.symm.trans step
  · exact unread_lt_of_more (same.symm.trans step)

/-- `fillRounds`, where the inner reader fails behind its chunks. -/
def fillRoundsOr (source : IoError) (decoder : UuDecoder) (produced : Nat) :
    Except IoError Unit × UuDecoder :=
  match _step : decoder.fillStepOr source produced with
  | .done next => (.ok (), next)
  | .failed source next => (.error source, next)
  | .more next produced' => fillRoundsOr source next produced'
termination_by decoder.unread
decreasing_by exact unread_lt_of_more_or _step

def fillOr (source : IoError) (decoder : UuDecoder) : Except IoError Unit × UuDecoder :=
  fillRoundsOr source decoder.cleared 0

/-- `readRounds`, where the inner reader fails behind its chunks. -/
def readRoundsOr (source : IoError) (bufferLength : Nat) :
    Nat → UuDecoder → Option (Except IoError (List UInt8) × UuDecoder)
  | 0, decoder => decoder.answerNow bufferLength
  | refills + 1, decoder =>
    match decoder.answerNow bufferLength with
    | some answer => some answer
    | none =>
      match decoder.fillOr source with
      | (.error failure, next) => some (.error failure, next)
      | (.ok (), next) => readRoundsOr source bufferLength refills next

/-- `Returns`, where the inner reader fails behind its chunks. -/
def ReturnsOr (source : IoError) (decoder : UuDecoder) (bufferLength : Nat)
    (answer : Except IoError (List UInt8)) (next : UuDecoder) : Prop :=
  ∃ refills, readRoundsOr source bufferLength refills decoder = some (answer, next)

theorem fillRoundsOr_cases (source : IoError) (decoder : UuDecoder) (produced : Nat) :
    (∃ last, decoder.fillRoundsOr source produced = (.error source, last) ∧
      ((∃ failure next, decoder.fillRounds produced = (.error failure, next)) ∨
        ∃ next, decoder.fillRounds produced = (.ok (), next) ∧ next.finished = true)) ∨
      (decoder.fillRoundsOr source produced = decoder.fillRounds produced ∧
        ∀ more, (decoder.followedBy more).fillRounds produced =
          ((decoder.fillRounds produced).1, (decoder.fillRounds produced).2.followedBy more)) := by
  fun_induction fillRoundsOr source decoder produced with
  | case1 decoder produced next step =>
    rcases meetsFailure source decoder produced with ⟨last, failed, -⟩ | ⟨same, behind⟩
    · cases failed.symm.trans step
    · have step := same.symm.trans step
      rw [fillRounds_of_done step]
      refine .inr ⟨rfl, fun more => fillRounds_of_done ?_⟩
      rw [behind, step]
      rfl
  | case2 decoder produced failure next step =>
    rcases meetsFailure source decoder produced with
      ⟨last, failed, ⟨other, next, fails⟩ | ⟨next, done, ends⟩⟩ | ⟨same, behind⟩
    · cases failed.symm.trans step
      exact .inl ⟨_, rfl, .inl ⟨other, next, fillRounds_of_failed fails⟩⟩
    · cases failed.symm.trans step
      exact .inl ⟨_, rfl, .inr ⟨next, fillRounds_of_done done, ends⟩⟩
    · have step := same.symm.trans step
      rw [fillRounds_of_failed step]
      refine .inr ⟨rfl, fun more => fillRounds_of_failed ?_⟩
      rw [behind, step]
      rfl
  | case3 decoder produced next produced' step ih =>
    rcases meetsFailure source decoder produced with ⟨last, failed, -⟩ | ⟨same, behind⟩
    · cases failed.symm.trans step
    · have step := same.symm.trans step
      rw [fillRounds_of_more step]
      rcases ih with failed | ⟨same, behind'⟩
      · exact .inl failed
      · refine .inr ⟨same, fun more => ?_⟩
        rw [← behind']
        refine fillRounds_of_more ?_
        rw [behind, step]
        rfl

theorem answerNow_followedBy (decoder : UuDecoder) (more : List (List UInt8))
    (bufferLength : Nat) : (decoder.followedBy more).answerNow bufferLength =
      (decoder.answerNow bufferLength).map fun (answer, next) =>
        (answer, next.followedBy more) := by
  unfold answerNow
  by_cases left : decoder.outPos < decoder.out.length
  · rw [if_pos left, if_pos (show (decoder.followedBy more).outPos <
      (decoder.followedBy more).out.length from left)]
    rfl
  rw [if_neg left, if_neg (show ¬(decoder.followedBy more).outPos <
    (decoder.followedBy more).out.length from left)]
  by_cases ended : decoder.finished = true
  · rw [if_pos ended, if_pos (show (decoder.followedBy more).finished = true from ended)]
    rfl
  · rw [if_neg ended, if_neg (show ¬(decoder.followedBy more).finished = true from ended)]
    rfl

/-- A call of `read` fails with the failure of the reader where reading comes to an
outcome at the end of the chunks, or it is the same whatever stands behind them. -/
theorem readRoundsOr_cases (source : IoError) (bufferLength refills : Nat)
    (within : decoder.Within) :
    (∃ last, readRoundsOr source bufferLength refills decoder = some (.error source, last) ∧
      ∃ outcome, decoder.ToCome outcome) ∨
      (readRoundsOr source bufferLength refills decoder =
          readRounds bufferLength refills decoder ∧
        ∀ more, readRounds bufferLength refills (decoder.followedBy more) =
          (readRounds bufferLength refills decoder).map fun (answer, next) =>
            (answer, next.followedBy more)) := by
  induction refills generalizing decoder with
  | zero => exact .inr ⟨rfl, fun more => answerNow_followedBy decoder more bufferLength⟩
  | succ refills ih =>
    unfold readRoundsOr readRounds
    cases answered : decoder.answerNow bufferLength with
    | some answer =>
      refine .inr ⟨rfl, fun more => ?_⟩
      rw [answerNow_followedBy, answered]
      rfl
    | none =>
      have answered' (more : List (List UInt8)) :
          (decoder.followedBy more).answerNow bufferLength = none := by
        rw [answerNow_followedBy, answered]
        rfl
      obtain ⟨handed, going⟩ := of_answerNow_eq_none answered
      have start {next : UuDecoder} {result : Except IoError Unit}
          (filled : decoder.fill = (result, next)) : next.Within := by
        unfold Within
        rw [outPos_fill filled]
        exact Nat.zero_le _
      dsimp only
      rcases fillRoundsOr_cases source decoder.cleared 0 with
        ⟨last, failed, atEnd⟩ | ⟨same, behind⟩
      · have failed : decoder.fillOr source = (.error source, last) := failed
        rw [failed]
        refine .inl ⟨last, rfl, ?_⟩
        rcases atEnd with ⟨failure, next, fails⟩ | ⟨next, done, ends⟩
        · refine ⟨_, .error failure, ?_, rfl⟩
          rw [drained_of_handed_out handed within]
          exact .failed going fails
        · exact ⟨_, .of_fill within handed going done ⟨_, .finished ends, rfl⟩⟩
      · have same : decoder.fillOr source = decoder.fill := same
        have behind (more : List (List UInt8)) : (decoder.followedBy more).fill =
            (decoder.fill.1, decoder.fill.2.followedBy more) := behind more
        rw [same]
        simp only [answered', behind]
        rcases filled : decoder.fill with ⟨result, next⟩
        cases result with
        | error failure => exact .inr ⟨rfl, fun more => rfl⟩
        | ok _ =>
          rcases ih (start filled) with ⟨last, failed, outcome, toCome⟩ | same
          · exact .inl ⟨last, failed, _, .of_fill within handed going filled toCome⟩
          · exact .inr same

/-! ## Reading to the end -/

variable {sizes : Nat → Nat} {outcome : Except IoError (List UInt8)} {final : UuDecoder}

/-- A call in front of a failure is one at the end of the chunks. -/
theorem ReturnsOr.cases {size : Nat} {answer : Except IoError (List UInt8)}
    (within : decoder.Within) (returned : decoder.ReturnsOr source size answer next) :
    (answer = .error source ∧ ∃ outcome, decoder.ToCome outcome) ∨
      decoder.Returns size answer next ∧
        ∀ more, (decoder.followedBy more).Returns size answer (next.followedBy more) := by
  obtain ⟨refills, returned⟩ := returned
  rcases readRoundsOr_cases source size refills within with
    ⟨last, failed, comes⟩ | ⟨same, behind⟩
  · cases failed.symm.trans returned
    exact .inl ⟨rfl, comes⟩
  · refine .inr ⟨⟨refills, same.symm.trans returned⟩, fun more => ⟨refills, ?_⟩⟩
    rw [behind, ← same, returned]
    rfl

section

variable (positive : ∀ index, 0 < sizes index) (within : decoder.Within)
  (reads : ReadsToEnd (ReturnsOr source) sizes decoder outcome final)
include positive within reads

/-- A failure that the decoder meets is its outcome, and another outcome is the same
whatever stands behind the chunks. -/
theorem readsToEnd_of_failure :
    (∃ failure, outcome = .error failure) ∨
      ∀ more, ∃ final, ReadsToEnd Returns sizes (decoder.followedBy more) outcome final := by
  induction reads with
  | ended answer =>
    rcases answer.cases within with ⟨failed, -⟩ | ⟨-, behind⟩
    · cases failed
    · exact .inr fun more => ⟨_, .ended (behind more)⟩
  | failed answer => exact .inl ⟨_, rfl⟩
  | more answer some rest ih =>
    rcases answer.cases within with ⟨failed, -⟩ | ⟨returned, behind⟩
    · cases failed
    have continues := returned.continues (positive 0) within
    rcases ih (fun index => positive (index + 1)) continues.within with
      ⟨failure, rfl⟩ | further
    · exact .inl ⟨failure, rfl⟩
    · refine .inr fun more => ?_
      obtain ⟨final, reads⟩ := further more
      exact ⟨final, .more (behind more) some reads⟩

/-- Where the decoder comes to an outcome in front of a failure, it comes to one when the
data ends. -/
theorem exists_toCome_of_or :
    ∃ outcome, decoder.ToCome outcome := by
  induction reads with
  | ended answer =>
    rcases answer.cases within with ⟨-, comes⟩ | ⟨returned, -⟩
    · exact comes
    · exact ⟨_, (returned.continues (positive 0) within).ended rfl⟩
  | failed answer =>
    rcases answer.cases within with ⟨-, comes⟩ | ⟨returned, -⟩
    · exact comes
    · exact ⟨_, (returned.continues (positive 0) within).failed _ rfl⟩
  | more answer some rest ih =>
    rcases answer.cases within with ⟨-, comes⟩ | ⟨returned, -⟩
    · exact comes
    · have continues := returned.continues (positive 0) within
      obtain ⟨outcome, toCome⟩ := ih (fun index => positive (index + 1)) continues.within
      exact ⟨_, continues.delivered _ rfl some _ toCome⟩

end

/-- Where the decoder comes to an outcome when the data ends, it comes to one in front of
a failure. -/
theorem exists_readsToEnd_or (source : IoError) (positive : ∀ index, 0 < sizes index)
    (within : decoder.Within) (reads : ReadsToEnd Returns sizes decoder outcome final) :
    ∃ outcome final, ReadsToEnd (ReturnsOr source) sizes decoder outcome final := by
  have answers {decoder next : UuDecoder} {size : Nat} {answer : Except IoError (List UInt8)}
      (within : decoder.Within) (returned : decoder.Returns size answer next) :
      (∃ last, decoder.ReturnsOr source size (.error source) last) ∨
        decoder.ReturnsOr source size answer next := by
    obtain ⟨refills, returned⟩ := returned
    rcases readRoundsOr_cases source size refills within with ⟨last, failed, -⟩ | ⟨same, -⟩
    · exact .inl ⟨last, refills, failed⟩
    · exact .inr ⟨refills, same.trans returned⟩
  induction reads with
  | ended answer =>
    rcases answers within answer with ⟨last, failed⟩ | returned
    · exact ⟨_, last, .failed failed⟩
    · exact ⟨_, _, .ended returned⟩
  | failed answer =>
    rcases answers within answer with ⟨last, failed⟩ | returned
    · exact ⟨_, last, .failed failed⟩
    · exact ⟨_, _, .failed returned⟩
  | more answer some rest ih =>
    rcases answers within answer with ⟨last, failed⟩ | returned
    · exact ⟨_, last, .failed failed⟩
    · obtain ⟨outcome, final, reads⟩ := ih (fun index => positive (index + 1))
        (answer.continues (positive 0) within).within
      exact ⟨_, final, .more returned some reads⟩

/-- **In front of a failure** reading comes to an outcome if and only if no round before
an error meets garbage behind the payload. -/
theorem exists_readsToEnd_or_iff (source : IoError) (chunks : List (List UInt8))
    (positive : ∀ index, 0 < sizes index) :
    (∃ outcome final, ReadsToEnd (ReturnsOr source) sizes (new chunks) outcome final) ↔
      ClearBeforeError chunks := by
  have within : (new chunks).Within := Nat.le_refl 0
  rw [← exists_blocks_iff]
  constructor
  · rintro ⟨outcome, final, reads⟩
    obtain ⟨_, rest, blocks, -⟩ := exists_toCome_of_or positive within reads
    exact ⟨rest, blocks⟩
  · rintro ⟨outcome, blocks⟩
    obtain ⟨final, reads⟩ := (reads_new_iff positive outcome).mpr blocks
    exact exists_readsToEnd_or source positive within reads

end UuDecoder

end ZManager
