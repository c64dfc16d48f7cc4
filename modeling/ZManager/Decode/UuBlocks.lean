import ZManager.Decode.UuTermination
import ZManager.Foundation.ReadToEnd

/-! # Reading the decoder block by block

What is read to the end does not depend on the sizes of the buffers: it is the
outputs of the refills, one after the other. A line changes the state, the scan and
the output by its own content alone.
-/

namespace ZManager

namespace UuDecoder

open Uu

variable {decoder next : UuDecoder}

variable {outcome answer : Except IoError (List UInt8)} {bufferLength : Nat} {sizes : Nat → Nat}

/-! ## Lines -/

/-- What a line does, for a decoder that has nothing but a state and a scan. -/
def lineEffect (state : UuState) (scanned : Nat) (line : List UInt8) :
    Except IoError Unit × UuDecoder :=
  processLine ⟨[], state, [], 0, scanned, 0, [], 0, false⟩ line

/-- The decoder after a line with the given effect. -/
def afterEffect (decoder effect : UuDecoder) : UuDecoder :=
  { decoder with
    state := effect.state, scanned := effect.scanned, out := decoder.out ++ effect.out }

theorem processLine_eq (decoder : UuDecoder) (line : List UInt8) :
    decoder.processLine line =
      ((lineEffect decoder.state decoder.scanned line).1,
        decoder.afterEffect (lineEffect decoder.state decoder.scanned line).2) := by
  obtain ⟨inner, state, input, pos, scanned, total, out, outPos, finished⟩ := decoder
  unfold lineEffect afterEffect processLine
  cases state with
  | findHead =>
    dsimp only
    unfold findHeader
    dsimp only
    generalize (if 11 ≤ line.length ∧ beginUu.isPrefixOf line then some 6
      else if 18 ≤ line.length ∧ beginBase64.isPrefixOf line then some 13 else none) = offset
    cases offset with
    | none => split_ifs <;> simp
    | some offset =>
      dsimp only
      split_ifs <;> simp
  | readUu =>
    dsimp only
    unfold decodeUuLine
    cases line with
    | nil => simp
    | cons first body =>
      dsimp only
      split_ifs <;> simp
  | uuEnd =>
    dsimp only
    unfold expectEndLine
    split_ifs <;> simp
  | readBase64 =>
    dsimp only
    unfold decodeBase64Line
    dsimp only
    split_ifs <;> simp
  | ignore => simp

/-! ## Blocks -/

/-- The decoder when its output has been handed out. -/
def drained (decoder : UuDecoder) : UuDecoder :=
  { decoder with
    outPos := decoder.out.length
    total := decoder.total + (decoder.out.length - decoder.outPos) }

/-- Refilling a decoder whose output is handed out, until it has finished, comes to an
outcome. -/
inductive Blocks : UuDecoder → Except IoError (List UInt8) → Prop
  | finished {decoder : UuDecoder} (ended : decoder.finished = true) : Blocks decoder (.ok [])
  | failed {decoder next : UuDecoder} {source : IoError} (going : decoder.finished = false)
      (filled : decoder.fill = (.error source, next)) : Blocks decoder (.error source)
  | more {decoder next : UuDecoder} {outcome : Except IoError (List UInt8)}
      (going : decoder.finished = false) (filled : decoder.fill = (.ok (), next))
      (rest : Blocks next.drained outcome) : Blocks decoder (outcome.map (next.out ++ ·))

theorem Blocks.unique {outcome' : Except IoError (List UInt8)} (one : Blocks decoder outcome)
    (two : Blocks decoder outcome') : outcome = outcome' := by
  induction one generalizing outcome' with
  | finished ended =>
    cases two with
    | finished _ => rfl
    | failed going _ => exact absurd (ended.symm.trans going) nofun
    | more going _ _ => exact absurd (ended.symm.trans going) nofun
  | failed going filled =>
    cases two with
    | finished ended => exact absurd (ended.symm.trans going) nofun
    | failed _ filled' =>
      cases filled.symm.trans filled'
      rfl
    | more _ filled' _ => cases filled.symm.trans filled'
  | more going filled rest ih =>
    cases two with
    | finished ended => exact absurd (ended.symm.trans going) nofun
    | failed _ filled' => cases filled.symm.trans filled'
    | more _ filled' rest' =>
      cases filled.symm.trans filled'
      rw [ih rest']

/-- What is still to come: the output that is left, and the blocks behind it. -/
def ToCome (decoder : UuDecoder) (outcome : Except IoError (List UInt8)) : Prop :=
  ∃ rest, Blocks decoder.drained rest ∧
    outcome = rest.map (decoder.out.drop decoder.outPos ++ ·)

theorem drained_deliver (left : decoder.outPos < decoder.out.length) (bufferLength : Nat) :
    (decoder.deliver bufferLength).2.drained = decoder.drained := by
  unfold deliver drained
  dsimp only
  have length : ((decoder.out.drop decoder.outPos).take bufferLength).length ≤
      decoder.out.length - decoder.outPos := by
    rw [List.length_take, List.length_drop]
    exact Nat.min_le_right _ _
  congr 1
  omega

theorem drop_deliver (decoder : UuDecoder) (bufferLength : Nat) :
    (decoder.deliver bufferLength).1 ++
        (decoder.deliver bufferLength).2.out.drop (decoder.deliver bufferLength).2.outPos =
      decoder.out.drop decoder.outPos := by
  unfold deliver
  dsimp only
  rw [← List.drop_drop]
  exact take_append_drop_length_take _ _

theorem drained_of_handed_out (handed : ¬decoder.outPos < decoder.out.length)
    (within : decoder.outPos ≤ decoder.out.length) : decoder.drained = decoder := by
  have same : decoder.outPos = decoder.out.length := by omega
  unfold drained
  rw [← same, Nat.sub_self, Nat.add_zero]

/-- The decoder that a round of a refill leaves. -/
def FillOutcome.leaves : FillOutcome → UuDecoder
  | .more decoder _ | .done decoder | .failed _ decoder => decoder

theorem outPos_atEndOfStream (decoder : UuDecoder) (produced : Nat) :
    (decoder.atEndOfStream produced).leaves.outPos = decoder.outPos := by
  unfold atEndOfStream
  split_ifs
  · rfl
  · rw [processLine_eq]
    cases (lineEffect decoder.state decoder.scanned decoder.input).1 <;> rfl
  · rfl
  · rfl

theorem outPos_readChunk (decoder : UuDecoder) (produced : Nat) :
    (decoder.readChunk produced).leaves.outPos = decoder.outPos := by
  unfold readChunk
  split
  · rfl
  · split
    · exact decoder.outPos_atEndOfStream produced
    next chunk rest inner =>
      split
      · exact outPos_atEndOfStream { decoder with inner := rest } produced
      · rfl

theorem outPos_takeLine (decoder : UuDecoder) (produced contentEnd nlSize : Nat) :
    (decoder.takeLine produced contentEnd nlSize).leaves.outPos = decoder.outPos := by
  unfold takeLine
  split
  · rfl
  · rw [processLine_eq]
    cases (lineEffect _ _ _).1 <;> rfl

/-- A round keeps the place in the output. -/
theorem outPos_fillStep (decoder : UuDecoder) (produced : Nat) :
    (decoder.fillStep produced).leaves.outPos = decoder.outPos := by
  unfold fillStep
  dsimp only
  by_cases ignored : decoder.compact.state = .ignore
  · rw [if_pos ignored]
    rfl
  rw [if_neg ignored]
  cases locateLineEnd decoder.compact.input 0 with
  | found contentEnd nlSize => exact decoder.compact.outPos_takeLine produced contentEnd nlSize
  | pending => exact decoder.compact.outPos_readChunk produced
  | invalid =>
    dsimp only
    split <;> rfl

theorem outPos_fillRounds (decoder : UuDecoder) (produced : Nat) :
    (decoder.fillRounds produced).2.outPos = decoder.outPos := by
  fun_induction fillRounds decoder produced with
  | case1 decoder produced last step =>
    have kept := decoder.outPos_fillStep produced
    rwa [step] at kept
  | case2 decoder produced source last step =>
    have kept := decoder.outPos_fillStep produced
    rwa [step] at kept
  | case3 decoder produced later produced' step ih =>
    have kept := decoder.outPos_fillStep produced
    rw [step] at kept
    exact ih.trans kept

theorem outPos_fill {result : Except IoError Unit} (filled : decoder.fill = (result, next)) :
    next.outPos = 0 := by
  have kept := decoder.cleared.outPos_fillRounds 0
  unfold fill at filled
  rwa [filled] at kept

/-! ## Reading -/

/-- The output is not handed out beyond its end. -/
def Within (decoder : UuDecoder) : Prop := decoder.outPos ≤ decoder.out.length

theorem ToCome.of_fill (within : decoder.Within) (handed : ¬decoder.outPos < decoder.out.length)
    (going : decoder.finished = false) (filled : decoder.fill = (.ok (), next))
    (toCome : next.ToCome outcome) :
    decoder.ToCome outcome := by
  obtain ⟨rest, blocks, rfl⟩ := toCome
  rw [outPos_fill filled, List.drop_zero]
  refine ⟨_, drained_of_handed_out handed within ▸ Blocks.more going filled blocks, ?_⟩
  rw [List.drop_of_length_le (Nat.not_lt.mp handed)]
  cases rest <;> rfl

/-- What comes is what an answer delivers and what comes behind it. -/
structure Continues (decoder : UuDecoder) (answer : Except IoError (List UInt8))
    (next : UuDecoder) : Prop where
  within : next.Within
  delivered : ∀ bytes, answer = .ok bytes → bytes ≠ [] → ∀ outcome, next.ToCome outcome →
    decoder.ToCome (outcome.map (bytes ++ ·))
  ended : answer = .ok [] → decoder.ToCome (.ok [])
  failed : ∀ source, answer = .error source → decoder.ToCome (.error source)

/-- An answer without a refill hands out or finds the decoder finished. -/
theorem continues_of_answerNow (room : 0 < bufferLength) (within : decoder.Within)
    (found : decoder.answerNow bufferLength = some (answer, next)) :
    decoder.Continues answer next := by
  unfold answerNow at found
  split_ifs at found with left ended
  · cases found
    have length : (decoder.deliver bufferLength).1.length =
        min bufferLength (decoder.out.length - decoder.outPos) := by
      unfold deliver
      rw [List.length_take, List.length_drop]
    refine ⟨?_, ?_, ?_, nofun⟩
    · change decoder.outPos + (decoder.deliver bufferLength).1.length ≤ decoder.out.length
      omega
    · intro bytes same some outcome toCome
      cases same
      obtain ⟨rest, blocks, rfl⟩ := toCome
      rw [drained_deliver left] at blocks
      refine ⟨rest, blocks, ?_⟩
      rw [map_append_append, decoder.drop_deliver bufferLength]
    · intro none
      have empty := congrArg List.length (Except.ok.inj none)
      rw [length, List.length_nil] at empty
      omega
  · cases found
    refine ⟨within, fun bytes none some => absurd (Except.ok.inj none).symm some, fun _ => ?_,
      nofun⟩
    rw [ToCome, drained_of_handed_out left within]
    refine ⟨.ok [], .finished ended, ?_⟩
    rw [List.drop_of_length_le (Nat.not_lt.mp left)]
    rfl

theorem of_answerNow_eq_none (none : decoder.answerNow bufferLength = none) :
    ¬decoder.outPos < decoder.out.length ∧ decoder.finished = false := by
  unfold answerNow at none
  split_ifs at none with left ended
  exact ⟨left, Bool.not_eq_true _ ▸ ended⟩

theorem Returns.continues (room : 0 < bufferLength) (within : decoder.Within)
    (returns : decoder.Returns bufferLength answer next) : decoder.Continues answer next := by
  obtain ⟨refills, returned⟩ := returns
  induction refills generalizing decoder with
  | zero => exact continues_of_answerNow room within returned
  | succ refills ih =>
    unfold readRounds at returned
    split at returned
    next found =>
      cases returned
      exact continues_of_answerNow room within found
    next none =>
      obtain ⟨handed, going⟩ := of_answerNow_eq_none none
      split at returned
      next source last filled =>
        cases returned
        have start : next.Within := by
          unfold Within
          rw [outPos_fill filled]
          exact Nat.zero_le _
        refine ⟨start, fun _ same => (by cases same), fun same => (by cases same),
          fun source' same => ?_⟩
        cases same
        rw [ToCome, drained_of_handed_out handed within]
        exact ⟨_, .failed going filled, rfl⟩
      next mid filled =>
        have start : mid.Within := by
          unfold Within
          rw [outPos_fill filled]
          exact Nat.zero_le _
        obtain ⟨within', delivered, ended, failed⟩ := ih start returned
        have filling {outcome} : mid.ToCome outcome → decoder.ToCome outcome :=
          ToCome.of_fill within handed going filled
        exact ⟨within', fun bytes same some outcome toCome =>
          filling (delivered bytes same some outcome toCome), fun same => filling (ended same),
          fun source same => filling (failed source same)⟩

/-- Reading to the end comes to what is to come. -/
theorem toCome_of_readsToEnd (positive : ∀ index, 0 < sizes index) {final : UuDecoder}
    (within : decoder.Within) (reads : ReadsToEnd Returns sizes decoder outcome final) :
    decoder.ToCome outcome := by
  induction reads with
  | ended answer => exact (answer.continues (positive 0) within).ended rfl
  | failed answer => exact (answer.continues (positive 0) within).failed _ rfl
  | more answer some rest ih =>
    have continues := answer.continues (positive 0) within
    exact continues.delivered _ rfl some _
      (ih (fun index => positive (index + 1)) continues.within)

/-- What is left of the output is handed out first. -/
theorem readsToEnd_of_drained {outcome : Except IoError (List UInt8)} (within : decoder.Within)
    (drained : ∀ {sizes : Nat → Nat}, (∀ index, 0 < sizes index) →
      ∃ final, ReadsToEnd Returns sizes decoder.drained outcome final)
    {sizes : Nat → Nat} (positive : ∀ index, 0 < sizes index) :
    ∃ final, ReadsToEnd Returns sizes decoder
      (outcome.map (decoder.out.drop decoder.outPos ++ ·)) final := by
  generalize bound : decoder.out.length - decoder.outPos = left
  induction left using Nat.strongRecOn generalizing decoder sizes with
  | _ count ih =>
    by_cases left : decoder.outPos < decoder.out.length
    · have answer : decoder.Returns (sizes 0) (.ok (decoder.deliver (sizes 0)).1)
          (decoder.deliver (sizes 0)).2 := Returns.of_answerNow (if_pos left)
      have continues := answer.continues (positive 0) within
      have length : (decoder.deliver (sizes 0)).1.length =
          min (sizes 0) (decoder.out.length - decoder.outPos) := by
        unfold deliver
        rw [List.length_take, List.length_drop]
      have room := positive 0
      have some : (decoder.deliver (sizes 0)).1 ≠ [] := by
        rw [← List.length_pos_iff, length]
        omega
      have less : (decoder.deliver (sizes 0)).2.out.length -
          (decoder.deliver (sizes 0)).2.outPos < count := by
        change decoder.out.length - (decoder.outPos + (decoder.deliver (sizes 0)).1.length) <
          count
        omega
      obtain ⟨final, rest⟩ := @ih _ less (decoder.deliver (sizes 0)).2 continues.within
        (by rwa [drained_deliver left]) (fun index => sizes (index + 1))
        (fun index => positive (index + 1)) rfl
      refine ⟨final, ?_⟩
      have reads := ReadsToEnd.more answer some rest
      rwa [map_append_append, decoder.drop_deliver (sizes 0)] at reads
    · obtain ⟨final, reads⟩ := drained positive
      rw [drained_of_handed_out left within] at reads
      refine ⟨final, ?_⟩
      rw [List.drop_of_length_le (Nat.not_lt.mp left)]
      cases outcome <;> exact reads

theorem readsToEnd_of_blocks (handed : ¬decoder.outPos < decoder.out.length)
    (blocks : Blocks decoder outcome) (positive : ∀ index, 0 < sizes index) :
    ∃ final, ReadsToEnd Returns sizes decoder outcome final := by
  have none {decoder : UuDecoder} (handed : ¬decoder.outPos < decoder.out.length)
      (going : decoder.finished = false) (bufferLength : Nat) :
      decoder.answerNow bufferLength = none := by
    unfold answerNow
    rw [if_neg handed, going]
    rfl
  induction blocks generalizing sizes with
  | @finished decoder ended =>
    have now : decoder.answerNow (sizes 0) = some (.ok [], decoder) := by
      unfold answerNow
      rw [if_neg handed, if_pos ended]
    exact ⟨decoder, .ended (Returns.of_answerNow now)⟩
  | @failed decoder next source going filled =>
    refine ⟨next, .failed ⟨1, ?_⟩⟩
    unfold readRounds
    simp only [none handed going, filled]
  | @more decoder next outcome going filled rest ih =>
    have start : next.outPos = 0 := outPos_fill filled
    have within : next.Within := by
      unfold Within
      rw [start]
      exact Nat.zero_le _
    obtain ⟨final, reads⟩ := readsToEnd_of_drained within
      (fun positive => ih (Nat.lt_irrefl _) positive) positive
    rw [start, List.drop_zero] at reads
    refine ⟨final, ?_⟩
    generalize outcome.map (next.out ++ ·) = result at reads
    cases reads with
    | ended answer => exact .ended (.of_fill (none handed going _) filled answer)
    | failed answer => exact .failed (.of_fill (none handed going _) filled answer)
    | more answer some rest =>
      exact .more (.of_fill (none handed going _) filled answer) some rest

/-- **Reading does not depend on the sizes of the buffers**: it comes to what the
refills of the decoder come to. -/
theorem reads_new_iff {inner : List (List UInt8)} (positive : ∀ index, 0 < sizes index)
    (outcome : Except IoError (List UInt8)) :
    (∃ final, ReadsToEnd Returns sizes (new inner) outcome final) ↔ Blocks (new inner) outcome := by
  constructor
  · rintro ⟨final, reads⟩
    have within : (new inner).Within := Nat.le_refl 0
    obtain ⟨rest, blocks, rfl⟩ := toCome_of_readsToEnd positive within reads
    cases rest <;> exact blocks
  · exact fun blocks => readsToEnd_of_blocks (Nat.lt_irrefl 0) blocks positive

end UuDecoder

end ZManager
