import Mathlib.Logic.Relation
import ZManager.Decode.UuBlocks

/-! # The rounds that reading comes to

Up to the first error, reading to the end is one sequence of rounds, whatever the
buffers: the rounds of a refill, and behind them those of the next refill, for which
the output has been handed out. Reading comes to an outcome unless a round meets
garbage behind the payload (`exists_blocks_iff`).
-/

namespace ZManager

namespace UuDecoder

open Uu

variable {decoder next : UuDecoder} {produced produced' : Nat}

variable {outcome : Except IoError (List UInt8)} {here there : UuDecoder × Nat}

/-- The round behind a round, as long as reading goes on. -/
inductive NextRound : UuDecoder × Nat → UuDecoder × Nat → Prop
  | more {decoder next : UuDecoder} {produced produced' : Nat}
      (step : decoder.fillStep produced = .more next produced') :
      NextRound (decoder, produced) (next, produced')
  | refill {decoder next : UuDecoder} {produced : Nat}
      (step : decoder.fillStep produced = .done next) (going : next.finished = false) :
      NextRound (decoder, produced) (next.drained.cleared, 0)

/-- Reading the chunks, to the end or to an error, comes to the round. -/
def ComesTo (inner : List (List UInt8)) (place : UuDecoder × Nat) : Prop :=
  Relation.ReflTransGen NextRound ((new inner).cleared, 0) place

/-- No round up to the first error meets garbage behind the payload. -/
def ClearBeforeError (inner : List (List UInt8)) : Prop :=
  ∀ decoder produced, ComesTo inner (decoder, produced) → ¬MeetsGarbage decoder produced

/-! ## Refills by their rounds -/

theorem fillRounds_of_done (step : decoder.fillStep produced = .done next) :
    decoder.fillRounds produced = (.ok (), next) := by
  unfold fillRounds
  split
  next _ same => cases step.symm.trans same; rfl
  next _ _ same => cases step.symm.trans same
  next _ _ same => cases step.symm.trans same

theorem fillRounds_of_failed {source : IoError}
    (step : decoder.fillStep produced = .failed source next) :
    decoder.fillRounds produced = (.error source, next) := by
  unfold fillRounds
  split
  next _ same => cases step.symm.trans same
  next _ _ same => cases step.symm.trans same; rfl
  next _ _ same => cases step.symm.trans same

theorem fillRounds_of_more (step : decoder.fillStep produced = .more next produced') :
    decoder.fillRounds produced = next.fillRounds produced' := by
  rw [fillRounds]
  split
  next _ same => cases step.symm.trans same
  next _ _ same => cases step.symm.trans same
  next _ _ same => cases step.symm.trans same; rfl

/-- A decoder that ignores its input goes on doing so. -/
theorem fill_of_ignore (ignored : decoder.state = .ignore) :
    decoder.fill = (.ok (), { decoder.cleared.compact with input := [] }) :=
  fillRounds_of_done (if_pos ignored)

theorem not_blocks_of_ignore (ignored : decoder.state = .ignore)
    (going : decoder.finished = false) :
    ¬Blocks decoder outcome := by
  intro blocks
  induction blocks with
  | finished ended => exact absurd (ended.symm.trans going) nofun
  | failed _ filled => cases (fill_of_ignore ignored).symm.trans filled
  | more _ filled _ ih =>
    cases (fill_of_ignore ignored).symm.trans filled
    exact ih ignored going

/-! ## What the rounds from a place on come to -/

/-- The rest of the refill, and the blocks behind it, come to an outcome. -/
def RoundsTo (decoder : UuDecoder) (produced : Nat) (outcome : Except IoError (List UInt8)) :
    Prop :=
  (∃ source next, decoder.fillRounds produced = (.error source, next) ∧
    outcome = .error source) ∨
  ∃ next rest, decoder.fillRounds produced = (.ok (), next) ∧ Blocks next.drained rest ∧
    outcome = rest.map (next.out ++ ·)

theorem blocks_iff_roundsTo (going : decoder.finished = false) :
    Blocks decoder outcome ↔ RoundsTo decoder.cleared 0 outcome := by
  constructor
  · intro blocks
    cases blocks with
    | finished ended => exact absurd (ended.symm.trans going) nofun
    | failed _ filled => exact .inl ⟨_, _, filled, rfl⟩
    | more _ filled rest => exact .inr ⟨_, _, filled, rest, rfl⟩
  · rintro (⟨source, next, filled, rfl⟩ | ⟨next, rest, filled, blocks, rfl⟩)
    · exact .failed going filled
    · exact .more going filled blocks

/-- From round to round only the bytes in front of the outcome change. -/
theorem NextRound.roundsTo (next : NextRound here there) :
    ∃ front : List UInt8, ∀ outcome, RoundsTo here.1 here.2 outcome ↔
      ∃ rest, RoundsTo there.1 there.2 rest ∧ outcome = rest.map (front ++ ·) := by
  cases next with
  | @more decoder next produced produced' step =>
    refine ⟨[], fun outcome => ?_⟩
    have same : RoundsTo decoder produced outcome ↔ RoundsTo next produced' outcome := by
      unfold RoundsTo
      rw [fillRounds_of_more step]
    have kept (rest : Except IoError (List UInt8)) : rest.map (([] : List UInt8) ++ ·) = rest := by
      cases rest <;> rfl
    simp only [kept, same, exists_eq_right']
  | @refill decoder next produced step going =>
    refine ⟨next.out, fun outcome => ?_⟩
    have drained : next.drained.finished = false := going
    constructor
    · rintro (⟨source, last, filled, -⟩ | ⟨last, rest, filled, blocks, rfl⟩)
      · cases (fillRounds_of_done step).symm.trans filled
      · cases (fillRounds_of_done step).symm.trans filled
        exact ⟨rest, (blocks_iff_roundsTo drained).mp blocks, rfl⟩
    · rintro ⟨rest, rounds, rfl⟩
      exact .inr ⟨next, rest, fillRounds_of_done step, (blocks_iff_roundsTo drained).mpr rounds,
        rfl⟩

/-- An error of the next round is one of this round. -/
theorem NextRound.fails {here there : UuDecoder × Nat} {source : IoError}
    (next : NextRound here there) (fails : RoundsTo there.1 there.2 (.error source)) :
    RoundsTo here.1 here.2 (.error source) := by
  obtain ⟨front, same⟩ := next.roundsTo
  exact (same _).mpr ⟨_, fails, rfl⟩

section

variable {inner : List (List UInt8)} {place : UuDecoder × Nat}

/-- Where reading comes to an outcome, so it does from every round that it comes to. -/
theorem ComesTo.exists_roundsTo (comes : ComesTo inner place)
    (blocks : Blocks (new inner) outcome) :
    ∃ rest, RoundsTo place.1 place.2 rest := by
  induction comes with
  | refl => exact ⟨outcome, (blocks_iff_roundsTo rfl).mp blocks⟩
  | tail _ next ih =>
    obtain ⟨before, rounds⟩ := ih
    obtain ⟨front, same⟩ := next.roundsTo
    obtain ⟨rest, rounds, -⟩ := (same before).mp rounds
    exact ⟨rest, rounds⟩

/-- An error that the rounds come to is the outcome of reading. -/
theorem ComesTo.blocks_error {source : IoError} (comes : ComesTo inner place)
    (fails : RoundsTo place.1 place.2 (.error source)) : Blocks (new inner) (.error source) := by
  induction comes with
  | refl => exact (blocks_iff_roundsTo rfl).mpr fails
  | tail _ next ih => exact ih (next.fails fails)

end

/-! ## When reading comes to an outcome -/

/-- A refill has not finished the decoder while it goes on. -/
theorem NextRound.unfinished (next : NextRound here there) (going : here.1.finished = false) :
    there.1.finished = false := by
  cases next with
  | @more decoder next produced produced' step =>
    cases round_of_step step with
    | chunk usable inner => exact going
    | line usable some_byte inside advances =>
      obtain ⟨state, scanned, bytes, -, rfl⟩ := advances
      exact going
  | refill step ends => exact ends

/-- The inner reader yields its chunks one after the other. -/
theorem NextRound.inner_suffix (next : NextRound here there) :
    there.1.inner <:+ here.1.inner := by
  cases next with
  | @more decoder next produced produced' step =>
    cases round_of_step step with
    | @chunk chunk rest usable inner =>
      dsimp only
      rw [inner]
      exact List.suffix_cons chunk rest
    | line usable some_byte inside advances =>
      obtain ⟨state, scanned, bytes, -, rfl⟩ := advances
      exact List.suffix_refl _
  | @refill decoder next produced step going =>
    cases round_of_step step with
    | finished usable ends proper => exact absurd (ends.symm.trans going) nofun
    | ignored is => exact List.suffix_refl _
    | garbage met => exact List.suffix_refl _
    | full usable output => exact List.suffix_refl _

/-- Without garbage the decoder never ignores its input. -/
theorem NextRound.usable (next : NextRound here there) (usable : here.1.state ≠ .ignore)
    (clear : ¬MeetsGarbage here.1 here.2) :
    there.1.state ≠ .ignore := by
  cases next with
  | @more decoder next produced produced' step =>
    cases round_of_step step with
    | chunk usable inner => exact usable
    | line usable some_byte inside advances =>
      obtain ⟨state, scanned, bytes, proper, rfl⟩ := advances
      exact proper
  | @refill decoder next produced step going =>
    cases round_of_step step with
    | ignored is => exact absurd is usable
    | garbage met => exact absurd met clear
    | finished usable ends proper => exact proper
    | full usable output => exact usable

/-- What is left to read, and whether there is output to hand out. -/
def roundsLeft (decoder : UuDecoder) : Nat :=
  2 * decoder.unread + if decoder.out = [] then 0 else 1

theorem NextRound.roundsLeft_lt (next : NextRound here there) (usable : here.1.state ≠ .ignore)
    (clear : ¬MeetsGarbage here.1 here.2) :
    there.1.roundsLeft < here.1.roundsLeft := by
  unfold roundsLeft
  cases next with
  | @more decoder next produced produced' step =>
    have less := unread_lt_of_more step
    dsimp only
    split_ifs <;> omega
  | @refill decoder next produced step going =>
    cases round_of_step step with
    | ignored is => exact absurd is usable
    | garbage met => exact absurd met clear
    | finished usable ends proper => exact absurd (ends.symm.trans going) nofun
    | full usable output =>
      have same : decoder.compact.drained.cleared.unread = decoder.unread := decoder.compact_unread
      have empty : decoder.compact.drained.cleared.out = [] := rfl
      dsimp only
      rw [same, if_pos empty, if_neg output]
      omega

/-- Reading has not finished at a round that it comes to. -/
theorem ComesTo.unfinished {inner : List (List UInt8)} {place : UuDecoder × Nat}
    (comes : ComesTo inner place) : place.1.finished = false := by
  induction comes with
  | refl => rfl
  | tail _ next ih => exact next.unfinished ih

theorem ComesTo.inner_suffix {inner : List (List UInt8)} {place : UuDecoder × Nat}
    (comes : ComesTo inner place) : place.1.inner <:+ inner := by
  induction comes with
  | refl => exact List.suffix_refl _
  | tail _ next ih => exact next.inner_suffix.trans ih

theorem exists_roundsTo {inner : List (List UInt8)} (clear : ClearBeforeError inner)
    (comes : ComesTo inner (decoder, produced)) (usable : decoder.state ≠ .ignore) :
    ∃ outcome, RoundsTo decoder produced outcome := by
  generalize measured : decoder.roundsLeft = left
  induction left using Nat.strongRecOn generalizing decoder produced with
  | _ left ih =>
    have further {there : UuDecoder × Nat} (next : NextRound (decoder, produced) there) :
        ∃ outcome, RoundsTo decoder produced outcome := by
      have here := clear decoder produced comes
      obtain ⟨rest, rounds⟩ := ih _ (measured ▸ next.roundsLeft_lt usable here)
        (comes.tail next) (next.usable usable here) rfl
      obtain ⟨front, same⟩ := next.roundsTo
      exact ⟨_, (same _).mpr ⟨rest, rounds, rfl⟩⟩
    cases step : decoder.fillStep produced with
    | failed source next => exact ⟨_, .inl ⟨source, next, fillRounds_of_failed step, rfl⟩⟩
    | more next produced' => exact further (.more step)
    | done next =>
      cases ended : next.finished with
      | true => exact ⟨_, .inr ⟨next, .ok [], fillRounds_of_done step, .finished ended, rfl⟩⟩
      | false => exact further (.refill step ended)

/-- **Reading comes to an outcome** if and only if no round before an error meets a byte
that no text has, behind decoded bytes and in search of a header. -/
theorem exists_blocks_iff (inner : List (List UInt8)) :
    (∃ outcome, Blocks (new inner) outcome) ↔ ClearBeforeError inner := by
  constructor
  · rintro ⟨outcome, blocks⟩ decoder produced comes met
    have going := comes.unfinished
    obtain ⟨rest, rounds⟩ := comes.exists_roundsTo blocks
    have filled := fillRounds_of_done (fillStep_of_garbage met)
    rcases rounds with ⟨source, next, failed, -⟩ | ⟨next, rest, filled', blocks, -⟩
    · cases filled.symm.trans failed
    · cases filled.symm.trans filled'
      exact not_blocks_of_ignore rfl (by exact going) blocks
  · intro clear
    obtain ⟨outcome, rounds⟩ := exists_roundsTo clear .refl UuState.noConfusion
    exact ⟨outcome, (blocks_iff_roundsTo rfl).mpr rounds⟩

end UuDecoder

end ZManager
