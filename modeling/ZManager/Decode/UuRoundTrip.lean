import ZManager.Decode.UuChunking
import ZManager.Decode.UuEncoding

/-! # Decoding what was encoded

Lines are decoded one after the other, over as many refills as the output needs. The
one exception is a line whose decoded bytes might not fit into the empty output: the
decoder takes it for the end.
-/

namespace ZManager

namespace Uu

variable {line text : List UInt8} {lines : List (List UInt8)}

theorem unlines_cons (line : List UInt8) (lines : List (List UInt8)) :
    unlines (line :: lines) = line ++ 0x0a :: unlines lines := by
  unfold unlines
  rw [List.flatMap_cons, List.append_assoc]
  rfl

/-- A printable line in front of a line feed is found. -/
theorem locateLineEnd_of_printable (printable : ∀ byte ∈ line, isPrintable byte = true)
    (text : List UInt8) (index : Nat) :
    locateLineEnd (line ++ 0x0a :: text) index = .found (index + line.length) 1 := by
  induction line generalizing index with
  | nil => rfl
  | cons byte rest ih =>
    obtain ⟨is, printable⟩ := List.forall_mem_cons.mp printable
    have byteIs : 0x20 ≤ byte ∧ byte ≤ 0x7e := by
      unfold isPrintable at is
      simpa using is
    have newline : byte ≠ 0x0a := by
      rintro rfl
      cases is
    have carriage : byte ≠ 0x0d := by
      rintro rfl
      cases is
    rw [List.cons_append, locateLineEnd, if_neg newline, if_neg carriage, if_pos byteIs,
      ih printable, List.length_cons]
    congr 1
    omega

theorem IsLine.unbroken (is : IsLine line) : ∀ byte ∈ line, isLineBreak byte = false := by
  intro byte member
  have printable := is.printable byte member
  unfold isLineBreak
  rw [Bool.or_eq_false_iff, decide_eq_false_iff_not, decide_eq_false_iff_not]
  constructor <;>
  · rintro rfl
    cases printable

theorem pendingLength_behind_break (before behind : List UInt8) {byte : UInt8}
    (ends : isLineBreak byte = true) :
    pendingLength (before ++ byte :: behind) = pendingLength behind := by
  unfold pendingLength
  rw [List.reverse_append, List.reverse_cons, List.append_assoc, List.takeWhile_append]
  split
  next all =>
    rw [List.singleton_append, List.takeWhile_cons_of_neg (by simp [ends]), List.append_nil, all]
  · rfl

/-- Wherever a text of lines is cut, the line that is not ended is not long. -/
theorem pendingLength_of_lines (are : ∀ line ∈ lines, IsLine line) {front : List UInt8}
    (cut : front <+: unlines lines) : pendingLength front ≤ maxLine := by
  induction lines generalizing front with
  | nil =>
    rw [List.prefix_nil.mp cut]
    exact Nat.zero_le _
  | cons line lines ih =>
    obtain ⟨is, are⟩ := List.forall_mem_cons.mp are
    rw [unlines_cons] at cut
    rcases List.prefix_or_prefix_of_prefix cut (List.prefix_append line _) with
      inside | ⟨behind, rfl⟩
    · rw [pendingLength_of_unbroken fun byte member => is.unbroken byte (inside.subset member)]
      exact inside.length_le.trans is.short
    · rcases behind with - | ⟨byte, behind⟩
      · rw [List.append_nil, pendingLength_of_unbroken is.unbroken]
        exact is.short
      · obtain ⟨rfl, later⟩ :=
          List.cons_prefix_cons.mp ((List.prefix_append_right_inj line).mp cut)
        rw [pendingLength_behind_break line behind rfl]
        exact ih are later

theorem not_mem_unlines (are : ∀ line ∈ lines, IsLine line) : 0x0d ∉ unlines lines := by
  intro member
  obtain ⟨line, inside, member⟩ := List.mem_flatMap.mp member
  rcases List.mem_append.mp member with member | member
  · exact absurd ((are line inside).unbroken _ member) (by decide)
  · exact absurd (List.mem_singleton.mp member) (by decide)

/-- However a text of lines is cut, it is cut well. -/
theorem smooth_of_lines {inner : List (List UInt8)} (are : ∀ line ∈ lines, IsLine line)
    (nonempty : ∀ chunk ∈ inner, chunk ≠ []) (text : inner.flatten = unlines lines) :
    Smooth [] inner where
  nonempty := nonempty
  whole := by
    rintro front back rfl - ⟨last, -⟩
    apply not_mem_unlines are
    rw [← text, List.flatten_append]
    exact List.mem_append_left _ (List.mem_of_getLast? last)
  short := by
    rintro front back rfl -
    apply pendingLength_of_lines are
    rw [← text, List.flatten_append]
    exact List.prefix_append _ _

/-! ## Room -/

/-- A line of a body that the empty output has room for. -/
def Fits (line : List UInt8) : Prop := (line.length + 1) * 2 ≤ outBuffSize

instance (line : List UInt8) : Decidable (Fits line) := inferInstanceAs (Decidable (_ ≤ _))

/-- Every line of a base64 body has room. -/
def Section.Fits : Section → Prop
  | .uu _ _ _ => True
  | .base64 _ body => ∀ line ∈ body.lines, Uu.Fits line

theorem UuPiece.fits (zero : ZeroChar) (piece : UuPiece) : Fits (piece.line zero) := by
  have short := piece.short
  obtain ⟨-, length⟩ := length_le_uuGroups zero piece.bytes
  unfold Fits outBuffSize UuPiece.line
  rw [List.length_cons]
  omega

end Uu

namespace UuDecoder

open Uu

variable {decoder next : UuDecoder} {produced : Nat} {state state' : UuState}
  {scanned scanned' : Nat} {line bytes after : List UInt8} {lines : List (List UInt8)}

variable {sections : List Section}

/-- The refill from here on and what comes behind it give these bytes. -/
def Refills (decoder : UuDecoder) (produced : Nat) (bytes : List UInt8) : Prop :=
  ∃ next rest, decoder.fillRounds produced = (.ok (), next) ∧ Blocks next.drained (.ok rest) ∧
    bytes = next.out ++ rest

/-- A decoder that has the rest of a text in its buffer. -/
structure At (decoder : UuDecoder) (state : UuState) (scanned : Nat)
    (lines : List (List UInt8)) : Prop where
  whole : decoder.inner = []
  going : decoder.finished = false
  state : decoder.state = state
  scanned : decoder.scanned = scanned
  text : decoder.input.drop decoder.pos = unlines lines

/-- The line is one of a body and does not fit behind so much output. -/
def Overflows (state : UuState) (held : Nat) (line : List UInt8) : Prop :=
  (state = .readUu ∨ state = .readBase64) ∧ outBuffSize < held + (line.length + 1) * 2

/-- These lines are decoded to these bytes, whatever has been decoded before. -/
def Decodes (state : UuState) (scanned : Nat) (lines : List (List UInt8))
    (bytes : List UInt8) : Prop :=
  ∀ (decoder : UuDecoder) (produced : Nat), decoder.At state scanned lines →
    decoder.Refills produced (decoder.out ++ bytes)

theorem Refills.of_more {produced' : Nat} (step : decoder.fillStep produced = .more next produced')
    (refills : next.Refills produced' bytes) : decoder.Refills produced bytes := by
  obtain ⟨last, rest, filled, blocks, same⟩ := refills
  exact ⟨last, rest, (fillRounds_of_more step).trans filled, blocks, same⟩

/-- The decoder as the next refill starts. -/
def emptied (decoder : UuDecoder) : UuDecoder := decoder.compact.drained.cleared

theorem At.emptied (at' : decoder.At state scanned lines) :
    decoder.emptied.At state scanned lines where
  whole := at'.whole
  going := at'.going
  state := at'.state
  scanned := at'.scanned
  text := at'.text

section

variable (at' : decoder.At state scanned (line :: lines)) (usable : state ≠ .ignore)
  (is : IsLine line)
include at' usable is

theorem At.fillStep_line :
    decoder.fillStep produced = decoder.compact.takeLine produced line.length 1 := by
  have usable' : decoder.compact.state ≠ .ignore := at'.state ▸ usable
  have input : decoder.compact.input = line ++ 0x0a :: unlines lines :=
    at'.text.trans (unlines_cons line lines)
  unfold fillStep
  dsimp only
  rw [if_neg usable', input, locateLineEnd_of_printable is.printable, Nat.zero_add]

/-- A line that fits is decoded. -/
theorem At.refills_of_fits (fits : ¬Overflows state decoder.out.length line)
    (effect : lineEffect state scanned line = (.ok (), decodedTo state' scanned' bytes))
    (rest : Decodes state' scanned' lines after) :
    decoder.Refills produced (decoder.out ++ (bytes ++ after)) := by
  have input : decoder.compact.input = line ++ 0x0a :: unlines lines :=
    at'.text.trans (unlines_cons line lines)
  have fits' : ¬((decoder.compact.state = .readUu ∨ decoder.compact.state = .readBase64) ∧
      outBuffSize < decoder.compact.out.length + (line.length + 1) * 2) := by
    rw [show decoder.compact.state = state from at'.state]
    exact fits
  have step : ∃ next produced', decoder.fillStep produced = .more next produced' ∧
      next.At state' scanned' lines ∧ next.out = decoder.out ++ bytes := by
    rw [at'.fillStep_line usable is]
    unfold takeLine
    rw [if_neg fits', processLine_eq, input, List.take_left]
    have same : lineEffect decoder.compact.state decoder.compact.scanned line =
        (.ok (), decodedTo state' scanned' bytes) := by
      rw [show decoder.compact.state = state from at'.state,
        show decoder.compact.scanned = scanned from at'.scanned, effect]
    dsimp only
    rw [same]
    refine ⟨_, _, rfl, ⟨at'.whole, at'.going, rfl, rfl, ?_⟩, rfl⟩
    change (line ++ 0x0a :: unlines lines).drop (line.length + 1) = _
    rw [← List.drop_drop, List.drop_left]
    rfl
  obtain ⟨next, produced', step, there, out⟩ := step
  have later := rest next produced' there
  rw [out, List.append_assoc] at later
  exact .of_more step later

/-- A line that does not fit behind some output waits for the next refill. -/
theorem At.refills_of_full (full : Overflows state decoder.out.length line)
    (output : decoder.out ≠ []) (later : decoder.emptied.Refills 0 bytes) :
    decoder.Refills produced (decoder.out ++ bytes) := by
  have full' : (decoder.compact.state = .readUu ∨ decoder.compact.state = .readBase64) ∧
      outBuffSize < decoder.compact.out.length + (line.length + 1) * 2 := by
    rw [show decoder.compact.state = state from at'.state]
    exact full
  have step : decoder.fillStep produced = .done decoder.compact := by
    rw [at'.fillStep_line usable is]
    unfold takeLine
    rw [if_pos full']
    have held : decoder.compact.out.isEmpty = false := by
      rw [List.isEmpty_eq_false_iff]
      exact output
    rw [held, Bool.or_false]
  obtain ⟨next, rest, filled, blocks, rfl⟩ := later
  exact ⟨decoder.compact, next.out ++ rest, fillRounds_of_done step,
    .more (by exact at'.going) filled blocks, rfl⟩

/-- A line that does not fit into the empty output ends the decoder. -/
theorem At.refills_of_tooLong (full : Overflows state decoder.out.length line)
    (none : decoder.out = []) : decoder.Refills produced [] := by
  have full' : (decoder.compact.state = .readUu ∨ decoder.compact.state = .readBase64) ∧
      outBuffSize < decoder.compact.out.length + (line.length + 1) * 2 := by
    rw [show decoder.compact.state = state from at'.state]
    exact full
  have step : decoder.fillStep produced = .done { decoder.compact with finished := true } := by
    rw [at'.fillStep_line usable is]
    unfold takeLine
    have held : decoder.compact.out.isEmpty = true := List.isEmpty_iff.mpr none
    rw [if_pos full', held, Bool.or_true]
  refine ⟨_, [], fillRounds_of_done step, .finished rfl, ?_⟩
  exact none.symm.trans (List.append_nil _).symm

end

/-! ## Lines -/

theorem decodes_nil (usable : state ≠ .ignore) : Decodes state scanned [] [] := by
  intro decoder produced at'
  have usable' : decoder.compact.state ≠ .ignore := at'.state ▸ usable
  have input : decoder.compact.input = [] := at'.text
  have step : decoder.fillStep produced = .done { decoder.compact with finished := true } := by
    have located : locateLineEnd decoder.compact.input 0 = .pending := by
      rw [input]
      rfl
    unfold fillStep
    dsimp only
    rw [if_neg usable', located]
    dsimp only
    unfold readChunk
    split
    next long =>
      rw [input] at long
      cases long
    · split
      · exact if_pos input
      next chunk others inner => cases at'.whole.symm.trans inner
  exact ⟨_, [], fillRounds_of_done step, .finished rfl, rfl⟩

/-- **A line is decoded**, in this refill or in the next. -/
theorem decodes_cons (usable : state ≠ .ignore) (is : IsLine line)
    (fits : ¬Overflows state 0 line)
    (effect : lineEffect state scanned line = (.ok (), decodedTo state' scanned' bytes))
    (rest : Decodes state' scanned' lines after) :
    Decodes state scanned (line :: lines) (bytes ++ after) := by
  intro decoder produced at'
  by_cases full : Overflows state decoder.out.length line
  · have output : decoder.out ≠ [] := by
      intro none
      rw [none] at full
      exact fits full
    exact at'.refills_of_full usable is full output
      (at'.emptied.refills_of_fits usable is fits effect rest)
  · exact at'.refills_of_fits usable is full effect rest

/-- **A line that is too long ends the decoder**, in this refill or in the next. -/
theorem decodes_tooLong (usable : state ≠ .ignore) (is : IsLine line)
    (full : Overflows state 0 line) : Decodes state scanned (line :: lines) [] := by
  intro decoder produced at'
  by_cases output : decoder.out = []
  · rw [output]
    have full' : Overflows state decoder.out.length line := by
      rw [output]
      exact full
    exact at'.refills_of_tooLong usable is full' output
  · have full' : Overflows state decoder.out.length line :=
      ⟨full.1, full.2.trans_le (Nat.add_le_add_right (Nat.zero_le _) _)⟩
    exact at'.refills_of_full usable is full' output
      (at'.emptied.refills_of_tooLong usable is full rfl)

/-! ## Sections -/

theorem not_overflows_of_fits (fits : Fits line) (state : UuState) : ¬Overflows state 0 line := by
  rintro ⟨-, full⟩
  rw [Nat.zero_add] at full
  exact absurd fits (Nat.not_le.mpr full)

/-- A header line is decoded, whatever its length. -/
theorem decodes_header (is : IsLine line)
    (effect : lineEffect .findHead scanned line = (.ok (), decodedTo state' scanned' []))
    (rest : Decodes state' scanned' lines after) :
    Decodes .findHead scanned (line :: lines) after := by
  have fits : ¬Overflows .findHead 0 line := by
    rintro ⟨body | body, -⟩ <;> cases body
  exact decodes_cons UuState.noConfusion is fits effect rest

/-- The lines of a section of uuencoded text. -/
theorem decodes_pieces (zero : ZeroChar) (pieces : List UuPiece)
    (rest : Decodes .findHead scanned lines after) :
    Decodes .readUu scanned (pieces.map (·.line zero) ++ [zero.byte] :: endLine :: lines)
      (pieces.flatMap (·.bytes) ++ after) := by
  induction pieces with
  | nil =>
    have ended : Decodes .uuEnd scanned (endLine :: lines) after := by
      refine decodes_cons UuState.noConfusion ⟨by decide +kernel, by decide +kernel⟩ ?_
        (lineEffect_end scanned) rest
      rintro ⟨body | body, -⟩ <;> cases body
    refine decodes_cons UuState.noConfusion ?_ ?_ (lineEffect_zero scanned zero) ended
    · cases zero <;> exact ⟨by decide +kernel, by decide +kernel⟩
    · exact not_overflows_of_fits (show Fits [zero.byte] by cases zero <;> decide) _
  | cons piece pieces ih =>
    rw [List.map_cons, List.cons_append, List.flatMap_cons, List.append_assoc]
    exact decodes_cons UuState.noConfusion (piece.isLine zero)
      (not_overflows_of_fits (piece.fits zero) _) (lineEffect_piece scanned zero piece) ih

/-- The lines of a base64 section, when all of them fit. -/
theorem decodes_base64 {body : List (List UInt8)} (cut : body.flatten = base64 bytes)
    (aligned : ∀ line ∈ body, line.length % 4 = 0) (are : ∀ line ∈ body, IsLine line)
    (fits : ∀ line ∈ body, Fits line) (rest : Decodes .findHead scanned lines after) :
    Decodes .readBase64 scanned (body ++ paddingLine :: lines) (bytes ++ after) := by
  induction body generalizing bytes with
  | nil =>
    have none : bytes = [] := by
      fun_cases base64 bytes
      all_goals first | rfl | cases cut
    subst none
    exact decodes_cons UuState.noConfusion ⟨by decide +kernel, by decide +kernel⟩
      (not_overflows_of_fits (by decide) _) (lineEffect_padding scanned) rest
  | cons line body ih =>
    obtain ⟨one, two, rfl, rfl, later⟩ := base64_cut cut (aligned line (.head _))
    rw [List.cons_append, List.append_assoc]
    refine decodes_cons UuState.noConfusion (are _ (.head _))
      (not_overflows_of_fits (fits _ (.head _)) _)
      (lineEffect_base64 scanned one) (ih later ?_ ?_ ?_)
    · exact fun other member => aligned other (.tail _ member)
    · exact fun other member => are other (.tail _ member)
    · exact fun other member => fits other (.tail _ member)

/-- A base64 section with a line that does not fit loses what stands on this line, and
all behind it. -/
theorem decodes_long_base64 {body : List (List UInt8)} {bytes : List UInt8}
    (cut : body.flatten = base64 bytes) (aligned : ∀ line ∈ body, line.length % 4 = 0)
    (are : ∀ line ∈ body, IsLine line) (long : ¬∀ line ∈ body, Fits line)
    (lines : List (List UInt8)) :
    ∃ kept lost, bytes = kept ++ lost ∧ lost ≠ [] ∧
      Decodes .readBase64 scanned (body ++ lines) kept := by
  induction body generalizing bytes with
  | nil => exact absurd nofun long
  | cons line body ih =>
    obtain ⟨one, two, rfl, rfl, later⟩ := base64_cut cut (aligned line (.head _))
    by_cases fits : Fits (base64 one)
    · have long' : ¬∀ line ∈ body, Fits line :=
        fun all => long (List.forall_mem_cons.mpr ⟨fits, all⟩)
      obtain ⟨kept, lost, rfl, some, decodes⟩ := ih later
        (fun other member => aligned other (.tail _ member))
        (fun other member => are other (.tail _ member)) long'
      exact ⟨one ++ kept, lost, (List.append_assoc _ _ _).symm, some,
        decodes_cons UuState.noConfusion (are _ (.head _)) (not_overflows_of_fits fits _)
          (lineEffect_base64 scanned one) decodes⟩
    · have some : one ++ two ≠ [] := by
        intro none
        rw [(List.append_eq_nil_iff.mp none).1] at fits
        exact fits (by decide)
      have full : Overflows .readBase64 0 (base64 one) := by
        refine ⟨.inr rfl, ?_⟩
        rw [Nat.zero_add]
        exact Nat.not_le.mp fits
      exact ⟨[], one ++ two, rfl, some,
        decodes_tooLong UuState.noConfusion (are _ (.head _)) full⟩

theorem decodes_section (part : Section) (fits : part.Fits)
    (rest : Decodes .findHead 0 lines after) :
    Decodes .findHead 0 (part.lines ++ lines) (part.payload ++ after) := by
  cases part with
  | uu header zero pieces =>
    refine decodes_header (header.isLine (by decide +kernel)) (lineEffect_beginUu header) ?_
    change Decodes _ _ ((_ ++ _) ++ lines) _
    rw [List.append_assoc]
    exact decodes_pieces zero pieces rest
  | base64 header body =>
    refine decodes_header (header.isLine (by decide +kernel)) (lineEffect_beginBase64 header) ?_
    change Decodes _ _ ((_ ++ _) ++ lines) _
    rw [List.append_assoc]
    exact decodes_base64 body.cut body.aligned body.isLine fits rest

theorem decodes_long_section (part : Section) (long : ¬part.Fits) (lines : List (List UInt8)) :
    ∃ kept lost, part.payload = kept ++ lost ∧ lost ≠ [] ∧
      Decodes .findHead 0 (part.lines ++ lines) kept := by
  cases part with
  | uu header zero pieces => exact absurd trivial long
  | base64 header body =>
    obtain ⟨kept, lost, same, some, decodes⟩ := @decodes_long_base64 0 _ _ body.cut body.aligned
      body.isLine long (paddingLine :: lines)
    refine ⟨kept, lost, same, some,
      decodes_header (header.isLine (by decide +kernel)) (lineEffect_beginBase64 header) ?_⟩
    change Decodes _ _ ((_ ++ _) ++ lines) _
    rwa [List.append_assoc]

theorem decodes_sections (fits : ∀ part ∈ sections, part.Fits) :
    Decodes .findHead 0 (sections.flatMap (·.lines)) (payload sections) := by
  induction sections with
  | nil => exact decodes_nil UuState.noConfusion
  | cons part sections ih =>
    obtain ⟨first, others⟩ := List.forall_mem_cons.mp fits
    exact decodes_section part first (ih others)

theorem decodes_long_sections (long : ¬∀ part ∈ sections, part.Fits) :
    ∃ kept lost, payload sections = kept ++ lost ∧ lost ≠ [] ∧
      Decodes .findHead 0 (sections.flatMap (·.lines)) kept := by
  induction sections with
  | nil => exact absurd nofun long
  | cons part sections ih =>
    by_cases fits : part.Fits
    · obtain ⟨kept, lost, same, some, decodes⟩ := ih fun all =>
        long (List.forall_mem_cons.mpr ⟨fits, all⟩)
      refine ⟨part.payload ++ kept, lost, ?_, some, decodes_section part fits decodes⟩
      rw [List.append_assoc, ← same]
      rfl
    · obtain ⟨kept, lost, same, some, decodes⟩ :=
        decodes_long_section part fits (sections.flatMap (·.lines))
      refine ⟨kept, lost ++ payload sections, ?_, List.append_ne_nil_of_left_ne_nil some _,
        decodes⟩
      rw [← List.append_assoc, ← same]
      rfl

/-! ## Reading -/

/-- What the lines of a text are decoded to is what reading comes to. -/
theorem reads_iff_of_decodes {inner : List (List UInt8)} {sizes : Nat → Nat}
    (are : ∀ line ∈ lines, IsLine line) (nonempty : ∀ chunk ∈ inner, chunk ≠ [])
    (text : inner.flatten = unlines lines) (positive : ∀ index, 0 < sizes index)
    (decodes : Decodes .findHead 0 lines bytes) (outcome : Except IoError (List UInt8)) :
    (∃ final, ReadsToEnd Returns sizes (new inner) outcome final) ↔ outcome = .ok bytes := by
  have alike := alike_new nonempty (undisturbed_of_smooth (smooth_of_lines are nonempty text))
  obtain ⟨next, rest, filled, blocks, rfl⟩ :=
    decodes (new inner).joined.cleared 0 ⟨rfl, rfl, rfl, rfl, text⟩
  have comes := Blocks.more rfl filled blocks
  rw [reads_new_iff positive, alike.blocks_iff]
  constructor
  · exact fun other => other.unique comes
  · rintro rfl
    exact comes

/-- **Decoding what was encoded.** However the text of some sections is cut into chunks
and whatever the sizes of the buffers, reading it comes to the joined payloads, and to
nothing else, if and only if every line of a base64 body, with its line end, is at most
half as long as the output buffer. -/
theorem uu_decoder_inverts_encoding_iff (sections : List Section) (inner : List (List UInt8))
    (sizes : Nat → Nat) (nonempty : ∀ chunk ∈ inner, chunk ≠ [])
    (text : inner.flatten = encode sections) (positive : ∀ index, 0 < sizes index) :
    (∀ outcome, (∃ final, ReadsToEnd Returns sizes (new inner) outcome final) ↔
      outcome = .ok (payload sections)) ↔ ∀ part ∈ sections, part.Fits := by
  have are : ∀ line ∈ sections.flatMap (·.lines), IsLine line := by
    intro line member
    obtain ⟨part, -, inside⟩ := List.mem_flatMap.mp member
    exact part.isLine line inside
  constructor
  · intro exact
    by_contra long
    obtain ⟨kept, lost, same, some, decodes⟩ := decodes_long_sections long
    have reads := (reads_iff_of_decodes are nonempty text positive decodes (.ok kept)).mpr rfl
    have whole := Except.ok.inj ((exact _).mp reads)
    rw [same] at whole
    exact some (List.append_right_eq_self.mp whole.symm)
  · exact fun fits => reads_iff_of_decodes are nonempty text positive (decodes_sections fits)

/-- A name of one letter. -/
def headerOf (keyword : List UInt8) (short : keyword.length + 5 < maxScan) : Header keyword :=
  ⟨6, 4, 4, [0x61], by decide +kernel, by decide +kernel, short⟩

/-- The byte `a` in uuencoded text and the byte `b` in base64 text. -/
def twoSections : List Section :=
  [.uu (headerOf beginUu (by decide)) .backtick [⟨[0x61], by decide, by decide⟩],
    .base64 (headerOf beginBase64 (by decide))
      ⟨[0x62], [base64 [0x62]], rfl, by decide, by decide⟩]

theorem two_sections_are_read :
    ∃ final, ReadsToEnd Returns (fun _ => 3)
      (new [(encode twoSections).take 9, (encode twoSections).drop 9]) (.ok [0x61, 0x62])
        final := by
  refine ((uu_decoder_inverts_encoding_iff twoSections _ (fun _ => 3) ?_ ?_ ?_).mpr ?_ _).mpr rfl
  · decide +kernel
  · rfl
  · exact fun _ => by decide
  · unfold twoSections
    refine List.forall_mem_cons.mpr ⟨trivial, List.forall_mem_cons.mpr ⟨?_, nofun⟩⟩
    exact fun line member => by
      rw [List.mem_singleton.mp member]
      decide

theorem base64_zeros (count : Nat) :
    base64 (List.replicate (3 * count) 0) = List.replicate (4 * count) 0x41 := by
  induction count with
  | zero => rfl
  | succ count ih =>
    change 0x41 :: 0x41 :: 0x41 :: 0x41 :: base64 (List.replicate (3 * count) 0) = _
    rw [ih]
    rfl

/-- A base64 section of zero bytes on one line. -/
def zeroSection (count : Nat) (short : 4 * count ≤ maxLine) : Section :=
  .base64 (headerOf beginBase64 (by decide)) {
    payload := List.replicate (3 * count) 0
    lines := [List.replicate (4 * count) 0x41]
    cut := by rw [base64_zeros, List.flatten_cons, List.flatten_nil, List.append_nil]
    aligned := by
      intro line member
      rw [List.mem_singleton.mp member, List.length_replicate]
      exact Nat.mul_mod_right 4 count
    short := by
      intro line member
      rwa [List.mem_singleton.mp member, List.length_replicate] }

/-- 24576 bytes on one line of 32768 characters are lost, and reading ends without an
error. -/
theorem long_line_is_lost :
    payload [zeroSection 8192 (by decide)] = List.replicate 24576 0 ∧
      ∃ final, ReadsToEnd Returns (fun _ => 1) (new [encode [zeroSection 8192 (by decide)]])
        (.ok []) final := by
  refine ⟨List.append_nil _, ?_⟩
  have are : ∀ line ∈ [zeroSection 8192 (by decide)].flatMap (·.lines), IsLine line := by
    intro line member
    obtain ⟨part, -, inside⟩ := List.mem_flatMap.mp member
    exact part.isLine line inside
  have long : Overflows .readBase64 0 (List.replicate 32768 0x41) := by
    refine ⟨.inr rfl, ?_⟩
    rw [List.length_replicate]
    decide
  have decodes : Decodes .findHead 0 ([zeroSection 8192 (by decide)].flatMap (·.lines)) [] :=
    decodes_header (are _ (.head _)) (lineEffect_beginBase64 _)
      (decodes_tooLong UuState.noConfusion (are _ (.tail _ (.head _))) long)
  refine (reads_iff_of_decodes are ?_ ?_ (fun _ => Nat.one_pos) decodes _).mpr rfl
  · intro chunk member
    rw [List.mem_singleton.mp member]
    exact List.cons_ne_nil _ _
  · rw [List.flatten_cons, List.flatten_nil, List.append_nil]
    rfl

end UuDecoder

end ZManager
