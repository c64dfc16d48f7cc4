import Mathlib.Data.Prod.Lex
import ZManager.Decode.Uu

/-! # When reading from the decoder ends

Each round of a refill consumes input, so a refill ends. A refill that neither
fails nor finishes the decoder leaves output to hand out, with one exception: in
the state `ignore` it leaves nothing, and `read` refills for ever.
-/

namespace ZManager

namespace UuDecoder

open Uu

section

variable {decoder next : UuDecoder} {produced produced' : Nat} {source : IoError}

/-- A round that goes on has consumed a line or read a chunk. -/
theorem unread_lt_of_more (step : decoder.fillStep produced = .more next produced') :
    next.unread < decoder.unread := by
  rw [← decoder.compact_unread]
  cases round_of_step step with
  | @chunk chunk rest usable inner =>
    have inner : decoder.compact.inner = chunk :: rest := inner
    have start : decoder.compact.pos = 0 := rfl
    unfold unread
    simp only [inner, start, List.length_append, List.flatten_cons, List.length_cons]
    omega
  | @line _ size _ usable some_byte inside advances =>
    obtain ⟨state, scanned, bytes, -, rfl⟩ := advances
    have start : decoder.compact.pos = 0 := rfl
    unfold unread
    simp only [start]
    omega

end

/-- The refill loop. -/
def fillRounds (decoder : UuDecoder) (produced : Nat) : Except IoError Unit × UuDecoder :=
  match _step : decoder.fillStep produced with
  | .done next => (.ok (), next)
  | .failed source next => (.error source, next)
  | .more next produced' => fillRounds next produced'
termination_by decoder.unread
decreasing_by exact unread_lt_of_more _step

/-- The decoder with its output cleared, as a refill starts. -/
def cleared (decoder : UuDecoder) : UuDecoder :=
  { decoder with out := [], outPos := 0 }

/-- Decodes the next output. -/
def fill (decoder : UuDecoder) : Except IoError Unit × UuDecoder :=
  fillRounds decoder.cleared 0

/-- Hands out as much of the output as the buffer holds. -/
def deliver (decoder : UuDecoder) (bufferLength : Nat) : List UInt8 × UuDecoder :=
  let bytes := (decoder.out.drop decoder.outPos).take bufferLength
  (bytes, { decoder with
    outPos := decoder.outPos + bytes.length, total := decoder.total + bytes.length })

/-- What `read` returns without a refill. -/
def answerNow (decoder : UuDecoder) (bufferLength : Nat) :
    Option (Except IoError (List UInt8) × UuDecoder) :=
  if decoder.outPos < decoder.out.length then
    some (.ok (decoder.deliver bufferLength).1, (decoder.deliver bufferLength).2)
  else if decoder.finished then some (.ok [], decoder)
  else none

/-- `read` with so many refills at most: `none` when it has not returned by then. -/
def readRounds (bufferLength : Nat) :
    Nat → UuDecoder → Option (Except IoError (List UInt8) × UuDecoder)
  | 0, decoder => decoder.answerNow bufferLength
  | refills + 1, decoder =>
    match decoder.answerNow bufferLength with
    | some answer => some answer
    | none =>
      match decoder.fill with
      | (.error source, next) => some (.error source, next)
      | (.ok (), next) => readRounds bufferLength refills next

/-- A call of `read` returns an answer and leaves a decoder. -/
def Returns (decoder : UuDecoder) (bufferLength : Nat) (answer : Except IoError (List UInt8))
    (next : UuDecoder) : Prop :=
  ∃ refills, readRounds bufferLength refills decoder = some (answer, next)

/-! ## Runs -/

/-- The places of a run: the loop of `read`, and the loop of a refill with the bytes
decoded in its rounds before. -/
inductive RunPlace where
  | read
  | refill (produced : Nat)

/-- The decoders that runs of calls on the inner chunks come to. -/
inductive Reaches (inner : List (List UInt8)) : UuDecoder → RunPlace → Prop
  | new : Reaches inner (.new inner) .read
  | deliver {decoder : UuDecoder} {bufferLength : Nat} (before : Reaches inner decoder .read)
      (left : decoder.outPos < decoder.out.length) (room : 0 < bufferLength) :
      Reaches inner (decoder.deliver bufferLength).2 .read
  | fill {decoder : UuDecoder} (before : Reaches inner decoder .read)
      (empty : decoder.out.length ≤ decoder.outPos) (unfinished : decoder.finished = false) :
      Reaches inner decoder.cleared (.refill 0)
  | more {decoder next : UuDecoder} {produced produced' : Nat}
      (before : Reaches inner decoder (.refill produced))
      (step : decoder.fillStep produced = .more next produced') :
      Reaches inner next (.refill produced')
  | done {decoder next : UuDecoder} {produced : Nat}
      (before : Reaches inner decoder (.refill produced))
      (step : decoder.fillStep produced = .done next) : Reaches inner next .read
  | failed {decoder next : UuDecoder} {produced : Nat} {source : IoError}
      (before : Reaches inner decoder (.refill produced))
      (step : decoder.fillStep produced = .failed source next) : Reaches inner next .read

/-- So many calls with buffers of the given sizes have each returned some bytes. -/
def AfterCalls (sizes : Nat → Nat) (start : UuDecoder) : Nat → UuDecoder → Prop
  | 0, decoder => decoder = start
  | count + 1, decoder => ∃ before bytes, AfterCalls sizes start count before ∧
      before.Returns (sizes count) (.ok bytes) decoder ∧ bytes ≠ []

/-- The answer ends a sequence of reads. -/
def EndsReading (answer : Except IoError (List UInt8)) : Prop :=
  match answer with
  | .ok bytes => bytes = []
  | .error _ => True

/-- Every call with a buffer that is not empty returns, and calls that are repeated
reach the end of the data or an error. -/
def Terminates (inner : List (List UInt8)) : Prop :=
  (∀ decoder, Reaches inner decoder .read → ∀ bufferLength, 0 < bufferLength →
      ∃ answer next, decoder.Returns bufferLength answer next) ∧
    ∀ sizes : Nat → Nat, (∀ index, 0 < sizes index) →
      ∃ count decoder answer next, AfterCalls sizes (.new inner) count decoder ∧
        decoder.Returns (sizes count) answer next ∧ EndsReading answer

/-- No refill meets garbage behind the payload. -/
def NeverMeetsGarbage (inner : List (List UInt8)) : Prop :=
  ∀ decoder produced, Reaches inner decoder (.refill produced) →
    ¬MeetsGarbage decoder produced

section

variable {inner : List (List UInt8)} {decoder next : UuDecoder} {produced : Nat}

variable {bufferLength : Nat}

/-- What a refill leaves is where `read` goes on. -/
theorem Reaches.fillRounds {result : Except IoError Unit}
    (reached : Reaches inner decoder (.refill produced))
    (done : fillRounds decoder produced = (result, next)) : Reaches inner next .read := by
  fun_induction UuDecoder.fillRounds decoder produced with
  | case1 decoder produced last step =>
    cases done
    exact .done reached step
  | case2 decoder produced source last step =>
    cases done
    exact .failed reached step
  | case3 decoder produced later produced' step ih => exact ih (.more reached step) done

/-- Without garbage the decoder never ignores its input. -/
theorem Reaches.usable {place : RunPlace} (clear : NeverMeetsGarbage inner)
    (reached : Reaches inner decoder place) : decoder.state ≠ .ignore := by
  induction reached with
  | new => exact UuState.noConfusion
  | deliver before left room ih => exact ih
  | fill before empty unfinished ih => exact ih
  | @more decoder next produced produced' before step ih =>
    cases round_of_step step with
    | chunk usable inner => exact usable
    | line usable some_byte inside advances =>
      obtain ⟨state, scanned, bytes, proper, rfl⟩ := advances
      exact proper
  | @done decoder next produced before step ih =>
    cases round_of_step step with
    | ignored is => exact absurd is ih
    | garbage met => exact absurd met (clear decoder produced before)
    | finished usable ends proper => exact proper
    | full usable output => exact usable
  | @failed decoder next produced source before step ih =>
    cases round_of_step step with
    | failed usable proper => exact proper

/-- **A refill without garbage** finishes the decoder or leaves output, for which it
has consumed input. -/
theorem fillRounds_ok {limit : Nat} (clear : NeverMeetsGarbage inner)
    (reached : Reaches inner decoder (.refill produced)) (start : decoder.outPos = 0)
    (least : decoder.unread ≤ limit) (consumed : decoder.out ≠ [] → decoder.unread < limit)
    (done : fillRounds decoder produced = (.ok (), next)) :
    next.finished = true ∨ next.out ≠ [] ∧ next.outPos = 0 ∧ next.unread < limit := by
  fun_induction UuDecoder.fillRounds decoder produced with
  | case1 decoder produced last step =>
    cases done
    cases round_of_step step with
    | ignored is => exact absurd is (reached.usable clear)
    | garbage met => exact absurd met (clear decoder produced reached)
    | finished usable ends proper => exact .inl ends
    | full usable output =>
      refine .inr ⟨output, start, ?_⟩
      rw [decoder.compact_unread]
      exact consumed output
  | case2 decoder produced source last step => cases done
  | case3 decoder produced later produced' step ih =>
    have less := unread_lt_of_more step
    refine ih (.more reached step) ?_ (by omega) (fun _ => by omega) done
    cases round_of_step step with
    | chunk usable inner => exact start
    | line usable some_byte inside advances =>
      obtain ⟨state, scanned, bytes, proper, rfl⟩ := advances
      exact start

/-- What is left to do: whether the decoder must still refill, the input, the
output. -/
def rank (decoder : UuDecoder) : Nat ×ₗ (Nat ×ₗ Nat) :=
  toLex (if decoder.finished then 0 else 1,
    toLex (decoder.unread, decoder.out.length - decoder.outPos))

theorem Returns.of_answerNow {answer : Except IoError (List UInt8) × UuDecoder}
    (now : decoder.answerNow bufferLength = some answer) :
    decoder.Returns bufferLength answer.1 answer.2 :=
  ⟨0, now⟩

theorem Returns.of_fill {answer : Except IoError (List UInt8)} {last : UuDecoder}
    (none : decoder.answerNow bufferLength = none) (filled : decoder.fill = (.ok (), next))
    (returns : next.Returns bufferLength answer last) :
    decoder.Returns bufferLength answer last := by
  obtain ⟨refills, returned⟩ := returns
  refine ⟨refills + 1, ?_⟩
  unfold readRounds
  simp only [none, filled]
  exact returned

/-- Output that is left is handed out. -/
theorem deliver_returns (left : decoder.outPos < decoder.out.length) (room : 0 < bufferLength) :
    ∃ bytes, bytes ≠ [] ∧
      decoder.Returns bufferLength (.ok bytes) (decoder.deliver bufferLength).2 ∧
      (decoder.deliver bufferLength).2.rank < decoder.rank := by
  have some_byte : 0 < ((decoder.out.drop decoder.outPos).take bufferLength).length := by
    rw [List.length_take, List.length_drop]
    omega
  refine ⟨(decoder.deliver bufferLength).1, List.length_pos_iff.mp some_byte, ⟨0, ?_⟩, ?_⟩
  · unfold readRounds answerNow
    rw [if_pos left]
  · unfold rank
    rw [Prod.Lex.toLex_lt_toLex]
    refine .inr ⟨rfl, Prod.Lex.toLex_lt_toLex.mpr (.inr ⟨rfl, ?_⟩)⟩
    change decoder.out.length -
      (decoder.outPos + ((decoder.out.drop decoder.outPos).take bufferLength).length) <
        decoder.out.length - decoder.outPos
    omega

/-- **Every call returns** when no garbage is met: with the end, with an error, or
with some bytes and less left to do. -/
theorem Reaches.returns (clear : NeverMeetsGarbage inner) (reached : Reaches inner decoder .read)
    (room : 0 < bufferLength) :
    ∃ answer next, decoder.Returns bufferLength answer next ∧
      (EndsReading answer ∨ (∃ bytes, answer = .ok bytes ∧ bytes ≠ []) ∧
        Reaches inner next .read ∧ next.rank < decoder.rank) := by
  by_cases left : decoder.outPos < decoder.out.length
  · obtain ⟨bytes, nonempty, returns, less⟩ := deliver_returns left room
    exact ⟨_, _, returns, .inr ⟨⟨bytes, rfl, nonempty⟩, .deliver reached left room, less⟩⟩
  cases ended : decoder.finished with
  | true =>
    refine ⟨.ok [], decoder, ⟨0, ?_⟩, .inl rfl⟩
    unfold readRounds answerNow
    rw [if_neg left, if_pos ended]
  | false =>
    have none : decoder.answerNow bufferLength = none := by
      unfold answerNow
      rw [if_neg left, ended]
      rfl
    have refilling := Reaches.fill reached (Nat.le_of_not_lt left) ended
    rcases filled : decoder.fill with ⟨result, last⟩
    have later := refilling.fillRounds filled
    cases result with
    | error source =>
      refine ⟨.error source, last, ⟨1, ?_⟩, .inl trivial⟩
      unfold readRounds
      simp only [none, filled]
    | ok _ =>
      have outcome := @fillRounds_ok inner decoder.cleared last 0 decoder.unread clear
        refilling rfl (Nat.le_refl _) (fun output => absurd rfl output) filled
      have onward : last.rank < decoder.rank := by
        unfold rank
        rw [Prod.Lex.toLex_lt_toLex, ended]
        rcases outcome with finished | ⟨-, -, less⟩
        · rw [finished]
          exact .inl Nat.zero_lt_one
        · cases last.finished with
          | true => exact .inl Nat.zero_lt_one
          | false => exact .inr ⟨rfl, Prod.Lex.toLex_lt_toLex.mpr (.inl less)⟩
      by_cases output : last.outPos < last.out.length
      · obtain ⟨bytes, nonempty, returns, less⟩ := deliver_returns output room
        exact ⟨_, _, .of_fill none filled returns,
          .inr ⟨⟨bytes, rfl, nonempty⟩, .deliver later output room, less.trans onward⟩⟩
      · have finished : last.finished = true := by
          rcases outcome with finished | ⟨nonempty, start, -⟩
          · exact finished
          · rw [start] at output
            exact absurd (List.length_pos_iff.mpr nonempty) output
        refine ⟨.ok [], last, .of_fill none filled ⟨0, ?_⟩, .inl rfl⟩
        unfold readRounds answerNow
        rw [if_neg output, if_pos finished]

/-- Repeated calls come to an end. -/
theorem Reaches.ends {sizes : Nat → Nat} {start : UuDecoder} {count : Nat}
    (clear : NeverMeetsGarbage inner) (room : ∀ index, 0 < sizes index)
    (reached : Reaches inner decoder .read) (after : AfterCalls sizes start count decoder) :
    ∃ count decoder answer next, AfterCalls sizes start count decoder ∧
      decoder.Returns (sizes count) answer next ∧ EndsReading answer := by
  generalize measured : decoder.rank = rank
  induction rank using WellFoundedLT.induction generalizing decoder count with
  | _ rank ih =>
    obtain ⟨answer, next, returns, ends | ⟨⟨bytes, rfl, nonempty⟩, onward, less⟩⟩ :=
      reached.returns clear (room count)
    · exact ⟨count, decoder, answer, next, after, returns, ends⟩
    · rw [measured] at less
      have further : AfterCalls sizes start (count + 1) next :=
        ⟨decoder, bytes, after, returns, nonempty⟩
      exact ih next.rank less onward further rfl

/-! ## The ignored rest -/

/-- A decoder that ignores its input and has nothing left refills for ever. -/
theorem not_returns_of_ignore (ignored : decoder.state = .ignore)
    (empty : decoder.out.length ≤ decoder.outPos) (unfinished : decoder.finished = false) :
    ∀ answer next, ¬decoder.Returns bufferLength answer next := by
  rintro answer next ⟨refills, returned⟩
  have none : ∀ later : UuDecoder, later.out.length ≤ later.outPos → later.finished = false →
      later.answerNow bufferLength = none := by
    intro later empty unfinished
    unfold answerNow
    rw [if_neg (Nat.not_lt.mpr empty), unfinished]
    rfl
  induction refills generalizing decoder with
  | zero =>
    unfold readRounds at returned
    rw [none decoder empty unfinished] at returned
    cases returned
  | succ refills ih =>
    have step : decoder.cleared.fillStep 0 =
        .done { decoder.cleared.compact with input := [] } := by
      unfold fillStep
      exact if_pos ignored
    have filled : decoder.fill = (.ok (), { decoder.cleared.compact with input := [] }) := by
      unfold fill UuDecoder.fillRounds
      split
      · next _ same => rw [step] at same; cases same; rfl
      · next _ same => rw [step] at same; cases same
      · next _ same => rw [step] at same; cases same
    unfold readRounds at returned
    simp only [none decoder empty unfinished, filled] at returned
    exact ih (by exact ignored) (by exact Nat.le_refl _) (by exact unfinished) returned

/-- A refill has not finished the decoder while it goes on. -/
theorem Reaches.unfinished {place : RunPlace} (reached : Reaches inner decoder place) :
    ∀ produced, place = .refill produced → decoder.finished = false := by
  induction reached with
  | new => rintro _ ⟨⟩
  | deliver before left room ih => rintro _ ⟨⟩
  | fill before empty unfinished ih => exact fun _ _ => unfinished
  | @more decoder next produced produced' before step ih =>
    intro _ _
    have unfinished := ih produced rfl
    cases round_of_step step with
    | chunk usable inner => exact unfinished
    | line usable some_byte inside advances =>
      obtain ⟨state, scanned, bytes, proper, rfl⟩ := advances
      exact unfinished
  | done before step ih => rintro _ ⟨⟩
  | failed before step ih => rintro _ ⟨⟩

/-- The round that meets garbage ignores it from then on. -/
theorem fillStep_of_garbage (met : MeetsGarbage decoder produced) :
    decoder.fillStep produced = .done { decoder.compact with state := .ignore, input := [] } := by
  obtain ⟨searching, decoded, invalid⟩ := met
  have usable : ¬decoder.compact.state = .ignore := by
    rw [show decoder.compact.state = .findHead from searching]
    exact UuState.noConfusion
  have located : locateLineEnd decoder.compact.input 0 = .invalid := invalid
  have behind : decoder.compact.state = .findHead ∧
      (0 < decoder.compact.total ∨ 0 < produced) := ⟨searching, decoded⟩
  unfold fillStep
  simp only
  rw [if_neg usable, located]
  exact if_pos behind

/-- Garbage behind the payload leads to a call that does not return. -/
theorem exists_not_returning (reached : Reaches inner decoder (.refill produced))
    (met : MeetsGarbage decoder produced) :
    ∃ stuck, Reaches inner stuck .read ∧
      ∀ bufferLength answer next, ¬stuck.Returns bufferLength answer next := by
  have step := fillStep_of_garbage met
  have unfinished := reached.unfinished produced rfl
  have there := Reaches.done reached step
  by_cases left : decoder.outPos < decoder.out.length
  · -- one call with room for all of the output leaves nothing to hand out
    have emptied := Reaches.deliver there (by exact left)
      (show 0 < decoder.out.length by omega)
    refine ⟨_, emptied, fun bufferLength => not_returns_of_ignore rfl ?_ unfinished⟩
    change decoder.out.length ≤
      decoder.outPos + ((decoder.out.drop decoder.outPos).take decoder.out.length).length
    rw [List.length_take, List.length_drop]
    omega
  · exact ⟨_, there, fun bufferLength =>
      not_returns_of_ignore rfl (by exact Nat.le_of_not_lt left) unfinished⟩

/-- **When the decoder terminates.** Every call of `read` returns, and repeated calls
reach the end or an error, if and only if no refill that searches for a further
header behind decoded bytes meets a byte that is neither printable nor a line
end. -/
theorem uu_decoder_terminates_iff (inner : List (List UInt8)) :
    Terminates inner ↔ NeverMeetsGarbage inner := by
  constructor
  · rintro ⟨returning, -⟩ decoder produced reached met
    obtain ⟨stuck, there, never⟩ := exists_not_returning reached met
    obtain ⟨answer, next, returns⟩ := returning stuck there 1 Nat.zero_lt_one
    exact never 1 answer next returns
  · intro clear
    refine ⟨?_, fun sizes room => @Reaches.ends inner _ sizes _ 0 clear room .new rfl⟩
    intro decoder reached bufferLength room
    obtain ⟨answer, next, returns, -⟩ := reached.returns clear room
    exact ⟨answer, next, returns⟩

end

/-! ## Garbage behind a payload -/

/-- `begin 644 a`, one line with the byte `a`, an empty line, `end` and a zero byte. -/
def garbageText : List UInt8 :=
  [0x62, 0x65, 0x67, 0x69, 0x6e, 0x20, 0x36, 0x34, 0x34, 0x20, 0x61, 0x0a,
    0x21, 0x38, 0x30, 0x0a, 0x20, 0x0a, 0x65, 0x6e, 0x64, 0x0a, 0x00]

/-- So many rounds of a refill that go on. -/
def roundsFrom : Nat → UuDecoder → Nat → Option (UuDecoder × Nat)
  | 0, decoder, produced => some (decoder, produced)
  | rounds + 1, decoder, produced =>
    match decoder.fillStep produced with
    | .more next produced' => roundsFrom rounds next produced'
    | _ => none

theorem Reaches.roundsFrom {inner : List (List UInt8)} {decoder : UuDecoder} {produced : Nat}
    {rounds : Nat} {last : UuDecoder × Nat} (reached : Reaches inner decoder (.refill produced))
    (ran : UuDecoder.roundsFrom rounds decoder produced = some last) :
    Reaches inner last.1 (.refill last.2) := by
  induction rounds generalizing decoder produced with
  | zero =>
    cases ran
    exact reached
  | succ rounds ih =>
    unfold UuDecoder.roundsFrom at ran
    cases step : decoder.fillStep produced with
    | more next produced' =>
      rw [step] at ran
      exact ih (.more reached step) ran
    | done next =>
      rw [step] at ran
      cases ran
    | failed source next =>
      rw [step] at ran
      cases ran

/-- The chunk, the header, a line, the empty line and the end line are followed by a
byte that no text has: the second call does not return. -/
theorem uu_decoder_loops_on_garbage : ¬Terminates [garbageText] := by
  have refilling := Reaches.fill (@Reaches.new [garbageText]) (Nat.le_refl _) rfl
  have ran : ∃ last, roundsFrom 5 (UuDecoder.new [garbageText]).cleared 0 = some last ∧
      MeetsGarbage last.1 last.2 := by
    refine ⟨_, rfl, ?_⟩
    decide +kernel
  obtain ⟨last, done, met⟩ := ran
  rintro ⟨returning, -⟩
  obtain ⟨stuck, there, never⟩ := exists_not_returning (refilling.roundsFrom done) met
  obtain ⟨answer, next, returns⟩ := returning stuck there 1 Nat.zero_lt_one
  exact never 1 answer next returns

end UuDecoder

end ZManager
