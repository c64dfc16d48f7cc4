import ZManager.Decode.UuBlocks

/-! # What the decoder keeps in memory

Whatever the text is, the decoder holds at most a buffer of decoded bytes and, of the text, a line
of the greatest length and one more read.
-/

namespace ZManager

namespace UuDecoder

open Uu

/-- The bytes that one read of the inner reader asks for. -/
def readSize : Nat := 32 * 1024

/-- The buffers of a decoder are within their bounds. -/
structure Bounded (decoder : UuDecoder) : Prop where
  output : decoder.out.length ≤ outBuffSize
  input : decoder.input.length ≤ maxLine + readSize
  reads : ∀ chunk ∈ decoder.inner, chunk.length ≤ readSize

theorem length_decodeUuGroups (count : Nat) (body : List UInt8) :
    (decodeUuGroups count body).1.length ≤ count := by
  fun_induction decodeUuGroups count body
  all_goals simp_all; try omega

theorem length_decodeBase64Groups (line : List UInt8) :
    (decodeBase64Groups line).1.length ≤ line.length := by
  fun_induction decodeBase64Groups line
  all_goals simp_all; try omega

/-- A line decodes to at most its own length, and only in a body. -/
theorem length_lineEffect (state : UuState) (scanned : Nat) (line : List UInt8) :
    (lineEffect state scanned line).2.out.length ≤
      if state = .readUu ∨ state = .readBase64 then line.length else 0 := by
  unfold lineEffect processLine
  cases state with
  | findHead =>
    dsimp only
    unfold findHeader
    dsimp only
    split
    · exact Nat.le_refl _
    · split
      · exact Nat.le_refl _
      · split <;> exact Nat.le_refl _
  | readUu =>
    dsimp only
    unfold decodeUuLine
    cases line with
    | nil => exact Nat.le_refl _
    | cons first body =>
      have decoded := length_decodeUuGroups (uuDecode first) body
      dsimp only
      split_ifs
      all_goals simp_all; try omega
  | uuEnd =>
    dsimp only
    unfold expectEndLine
    split <;> exact Nat.le_refl _
  | readBase64 =>
    have decoded := length_decodeBase64Groups line
    dsimp only
    unfold decodeBase64Line
    dsimp only
    split_ifs
    all_goals simp_all
  | ignore => exact Nat.zero_le _

namespace Bounded

variable {decoder : UuDecoder}

theorem atEndOfStream (bounded : decoder.Bounded) (produced : Nat) :
    (decoder.atEndOfStream produced).leaves.Bounded := by
  unfold UuDecoder.atEndOfStream
  split
  · exact ⟨bounded.output, bounded.input, bounded.reads⟩
  · split
    next ending =>
      have nothing := length_lineEffect decoder.state decoder.scanned decoder.input
      rw [ending, if_neg (by decide)] at nothing
      have ended : (decoder.afterEffect
          (lineEffect decoder.state decoder.scanned decoder.input).2).Bounded := by
        refine ⟨?_, bounded.input, bounded.reads⟩
        unfold afterEffect
        rw [List.length_append, ending]
        have output := bounded.output
        omega
      rw [processLine_eq]
      cases (lineEffect decoder.state decoder.scanned decoder.input).1 with
      | error source => exact ended
      | ok _ => exact ⟨ended.output, ended.input, ended.reads⟩
    next =>
      split
      · exact bounded
      · exact ⟨bounded.output, bounded.input, bounded.reads⟩

theorem readChunk (bounded : decoder.Bounded) (produced : Nat) :
    (decoder.readChunk produced).leaves.Bounded := by
  unfold UuDecoder.readChunk
  split
  · exact bounded
  next short =>
    split
    · exact bounded.atEndOfStream produced
    next chunk rest inner =>
      have reads := List.forall_mem_cons.mp (inner ▸ bounded.reads)
      have later : ({ decoder with inner := rest } : UuDecoder).Bounded :=
        ⟨bounded.output, bounded.input, reads.2⟩
      split
      · exact later.atEndOfStream produced
      · refine ⟨bounded.output, ?_, reads.2⟩
        change (decoder.input ++ chunk).length ≤ _
        rw [List.length_append]
        have one := reads.1
        omega

theorem takeLine (bounded : decoder.Bounded) (produced contentEnd nlSize : Nat) :
    (decoder.takeLine produced contentEnd nlSize).leaves.Bounded := by
  unfold UuDecoder.takeLine
  split
  · exact ⟨bounded.output, bounded.input, bounded.reads⟩
  next room =>
    have decoded := length_lineEffect decoder.state decoder.scanned (decoder.input.take contentEnd)
    have taken : (({ decoder with pos := contentEnd + nlSize } : UuDecoder).afterEffect (lineEffect
        decoder.state decoder.scanned (decoder.input.take contentEnd)).2).Bounded := by
      refine ⟨?_, bounded.input, bounded.reads⟩
      change (decoder.out ++ _).length ≤ _
      have output := bounded.output
      rw [List.length_append]
      rw [List.length_take] at decoded
      split at decoded
      next reading =>
        have fits := not_and.mp room reading
        omega
      next => omega
    rw [processLine_eq]
    cases (lineEffect decoder.state decoder.scanned (decoder.input.take contentEnd)).1 with
    | error source => exact taken
    | ok _ => exact taken

theorem fillStep (bounded : decoder.Bounded) {produced : Nat} {outcome : FillOutcome}
    (step : decoder.fillStep produced = outcome) : outcome.leaves.Bounded := by
  have compact : decoder.compact.Bounded := by
    refine ⟨bounded.output, ?_, bounded.reads⟩
    change (decoder.input.drop _).length ≤ _
    rw [List.length_drop]
    exact Nat.le_trans (Nat.sub_le _ _) bounded.input
  rw [← step]
  unfold UuDecoder.fillStep
  dsimp only
  split
  · exact ⟨compact.output, Nat.zero_le _, compact.reads⟩
  · split
    · split
      · exact ⟨compact.output, Nat.zero_le _, compact.reads⟩
      · exact compact
    · exact compact.readChunk produced
    · exact compact.takeLine produced _ _

end Bounded

/-- **The decoder's memory is bounded.** At every place of every run, also behind an error, the
decoded bytes and the text that is kept are bounded, whatever the text is. -/
theorem uu_decoder_bounded {inner : List (List UInt8)} {decoder : UuDecoder} {place : RunPlace}
    (reads : ∀ chunk ∈ inner, chunk.length ≤ readSize) (reached : Reaches inner decoder place) :
    decoder.Bounded := by
  induction reached with
  | new => exact ⟨Nat.zero_le _, Nat.zero_le _, reads⟩
  | deliver before left room ih => exact ⟨ih.output, ih.input, ih.reads⟩
  | fill before empty unfinished ih => exact ⟨Nat.zero_le _, ih.input, ih.reads⟩
  | more before step ih => exact ih.fillStep step
  | done before step ih => exact ih.fillStep step
  | failed before step ih => exact ih.fillStep step

/-- The refill that has decoded the byte of a text. -/
theorem uu_decoder_bounded_sample : ∃ decoder : UuDecoder, decoder.out = [0x61] ∧
    decoder.Bounded := by
  have refilling := Reaches.fill (@Reaches.new [garbageText]) (Nat.le_refl _) rfl
  have ran : ∃ last, roundsFrom 3 (new [garbageText]).cleared 0 = some last ∧
      last.1.out = [0x61] :=
    ⟨_, rfl, by decide +kernel⟩
  obtain ⟨last, done, out⟩ := ran
  exact ⟨last.1, out, uu_decoder_bounded (by decide) (refilling.roundsFrom done)⟩

end UuDecoder

end ZManager
