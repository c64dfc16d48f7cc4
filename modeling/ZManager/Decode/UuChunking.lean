import ZManager.Decode.UuRounds

/-! # Chunks of encoded text

How the inner reader cuts the text does not matter, as long as the decoder does not
come to a line end that a cut separates, nor to a cut too far behind the start of a line.
-/

namespace ZManager

namespace Uu

def isLineBreak (byte : UInt8) : Bool := byte = 0x0a || byte = 0x0d

/-- The length of the line that is not ended yet. -/
def pendingLength (text : List UInt8) : Nat :=
  (text.reverse.takeWhile fun byte => !isLineBreak byte).length

/-- The cuts of the text behind a buffer. -/
structure Smooth (buffer : List UInt8) (inner : List (List UInt8)) : Prop where
  nonempty : ∀ chunk ∈ inner, chunk ≠ []
  whole : ∀ front back, inner = front ++ back → back ≠ [] →
    ¬((buffer ++ front.flatten).getLast? = some 0x0d ∧ back.flatten.head? = some 0x0a)
  short : ∀ front back, inner = front ++ back → back ≠ [] →
    pendingLength (buffer ++ front.flatten) ≤ maxLine

theorem pendingLength_suffix {text text' : List UInt8} (suffix : text' <:+ text) :
    pendingLength text' ≤ pendingLength text := by
  obtain ⟨front, rfl⟩ := suffix
  unfold pendingLength
  rw [List.reverse_append, List.takeWhile_append]
  split
  next all =>
    rw [List.length_append]
    omega
  · exact Nat.le_refl _

theorem pendingLength_of_unbroken {text : List UInt8}
    (unbroken : ∀ byte ∈ text, isLineBreak byte = false) :
    pendingLength text = text.length := by
  unfold pendingLength
  rw [List.takeWhile_eq_self_iff.mpr, List.length_reverse]
  intro byte member
  rw [unbroken byte (List.mem_reverse.mp member)]
  rfl

variable {buffer : List UInt8} {inner : List (List UInt8)}

theorem Smooth.read {chunk : List UInt8} (smooth : Smooth buffer (chunk :: inner)) :
    Smooth (buffer ++ chunk) inner where
  nonempty := fun other member => smooth.nonempty other (.tail _ member)
  whole := by
    intro front back cut behind
    have whole := smooth.whole (chunk :: front) back (by rw [cut]; rfl) behind
    rwa [List.flatten_cons, ← List.append_assoc] at whole
  short := by
    intro front back cut behind
    have short := smooth.short (chunk :: front) back (by rw [cut]; rfl) behind
    rwa [List.flatten_cons, ← List.append_assoc] at short

theorem Smooth.drop (smooth : Smooth buffer inner) (count : Nat) :
    Smooth (buffer.drop count) inner := by
  have suffix (front : List (List UInt8)) :
      buffer.drop count ++ front.flatten <:+ buffer ++ front.flatten := by
    refine ⟨buffer.take count, ?_⟩
    rw [← List.append_assoc, List.take_append_drop]
  refine ⟨smooth.nonempty, ?_, ?_⟩
  · rintro front back cut behind ⟨last, first⟩
    obtain ⟨before, same⟩ := suffix front
    refine smooth.whole front back cut behind ⟨?_, first⟩
    rw [← same, List.getLast?_append, last]
    rfl
  · intro front back cut behind
    exact (pendingLength_suffix (suffix front)).trans (smooth.short front back cut behind)

theorem Smooth.nil (buffer : List UInt8) : Smooth buffer [] where
  nonempty := nofun
  whole := by
    intro front back cut behind
    exact absurd (List.append_eq_nil_iff.mp cut.symm).2 behind
  short := by
    intro front back cut behind
    exact absurd (List.append_eq_nil_iff.mp cut.symm).2 behind

theorem Smooth.cons {chunk : List UInt8} (nonempty : chunk ≠ [])
    (whole : ¬(buffer.getLast? = some 0x0d ∧ chunk.head? = some 0x0a))
    (short : pendingLength buffer ≤ maxLine) (smooth : Smooth (buffer ++ chunk) inner) :
    Smooth buffer (chunk :: inner) where
  nonempty := List.forall_mem_cons.mpr ⟨nonempty, smooth.nonempty⟩
  whole := by
    intro front back cut behind
    cases front with
    | nil =>
      subst cut
      rwa [List.flatten_nil, List.append_nil, List.flatten_cons,
        List.head?_append_of_ne_nil _ nonempty]
    | cons first others =>
      cases cut
      rw [List.flatten_cons, ← List.append_assoc]
      exact smooth.whole others back rfl behind
  short := by
    intro front back cut behind
    cases front with
    | nil => rwa [List.flatten_nil, List.append_nil]
    | cons first others =>
      cases cut
      rw [List.flatten_cons, ← List.append_assoc]
      exact smooth.short others back rfl behind

/-- What follows does not change where the line ends, unless it completes the line
end. -/
theorem locateLineEnd_append {text : List UInt8} (more : List UInt8) {index : Nat}
    (whole : ¬(locateLineEnd text index = .found (index + text.length - 1) 1 ∧
      text.getLast? = some 0x0d ∧ more.head? = some 0x0a))
    (complete : locateLineEnd text index ≠ .pending) :
    locateLineEnd (text ++ more) index = locateLineEnd text index := by
  induction text generalizing index with
  | nil => exact absurd rfl complete
  | cons byte rest ih =>
    rw [List.cons_append]
    unfold locateLineEnd at complete whole ⊢
    by_cases newline : byte = 0x0a
    · rw [if_pos newline, if_pos newline]
    rw [if_neg newline] at complete whole ⊢
    rw [if_neg newline]
    by_cases carriage : byte = 0x0d
    · rw [if_pos carriage] at whole ⊢
      rw [if_pos carriage]
      cases rest with
      | cons next others => rfl
      | nil =>
        subst carriage
        have single : more.head? ≠ some 0x0a := fun first => whole ⟨rfl, rfl, first⟩
        rw [List.nil_append, if_neg single]
        rfl
    rw [if_neg carriage] at complete whole ⊢
    rw [if_neg carriage]
    by_cases printable : 0x20 ≤ byte ∧ byte ≤ 0x7e
    · rw [if_pos printable] at complete whole ⊢
      rw [if_pos printable]
      refine ih ?_ complete
      rintro ⟨found, last, first⟩
      refine whole ⟨?_, ?_, first⟩
      · rw [found, List.length_cons]
        congr 1
        omega
      · rw [List.getLast?_cons, last]
        rfl
    · rw [if_neg printable, if_neg printable]

theorem unbroken_of_pending {text : List UInt8} {index : Nat}
    (pending : locateLineEnd text index = .pending) :
    ∀ byte ∈ text, isLineBreak byte = false := by
  induction text generalizing index with
  | nil => nofun
  | cons byte rest ih =>
    unfold locateLineEnd at pending
    split_ifs at pending with newline carriage printable
    intro other member
    rcases List.mem_cons.mp member with rfl | member
    · unfold isLineBreak
      simp [newline, carriage]
    · exact ih pending other member

end Uu

namespace UuDecoder

open Uu

variable {decoder next : UuDecoder} {produced : Nat}

variable {here there last : UuDecoder × Nat} {whole : UuDecoder}

variable {inner : List (List UInt8)}

/-- The decoder with the whole text in its buffer. -/
def joined (decoder : UuDecoder) : UuDecoder :=
  { decoder with
    inner := [], input := decoder.input.drop decoder.pos ++ decoder.inner.flatten, pos := 0 }

/-- The round takes the carriage return at the end of the buffer for a line end of one
byte, and the line feed comes with the next chunk. -/
def SplitsLineEnd (decoder : UuDecoder) : Prop :=
  locateLineEnd (decoder.input.drop decoder.pos) 0 =
      .found ((decoder.input.drop decoder.pos).length - 1) 1 ∧
    (decoder.input.drop decoder.pos).getLast? = some 0x0d ∧
    decoder.inner.flatten.head? = some 0x0a

instance (decoder : UuDecoder) : Decidable decoder.SplitsLineEnd :=
  inferInstanceAs (Decidable (_ ∧ _ ∧ _))

/-- The round refuses a line for its length before it has seen the chunk that may end
it. -/
def RefusesPending (decoder : UuDecoder) : Prop :=
  decoder.state ≠ .ignore ∧ decoder.inner ≠ [] ∧
    locateLineEnd (decoder.input.drop decoder.pos) 0 = .pending ∧
    maxLine < (decoder.input.drop decoder.pos).length

instance (decoder : UuDecoder) : Decidable decoder.RefusesPending :=
  inferInstanceAs (Decidable (_ ∧ _ ∧ _ ∧ _))

/-- Cuts do not disturb the rounds from a place on. -/
def UndisturbedFrom (place : UuDecoder × Nat) : Prop :=
  ∀ there, Relation.ReflTransGen NextRound place there →
    ¬there.1.SplitsLineEnd ∧ ¬there.1.RefusesPending

/-- Cuts do not disturb the rounds that reading the chunks comes to. -/
def Undisturbed (inner : List (List UInt8)) : Prop :=
  ∀ decoder produced, ComesTo inner (decoder, produced) →
    ¬decoder.SplitsLineEnd ∧ ¬decoder.RefusesPending

theorem UndisturbedFrom.onward (calm : UndisturbedFrom here) (next : NextRound here there) :
    UndisturbedFrom there :=
  fun later reached => calm later (.head next reached)

/-- A decoder, and one that has the same text in its buffer. -/
structure SameText (decoder whole : UuDecoder) : Prop where
  same : whole.joined = decoder.joined
  whole : whole.inner = []
  nonempty : ∀ chunk ∈ decoder.inner, chunk ≠ []

theorem joined_joined (decoder : UuDecoder) : decoder.joined.joined = decoder.joined := by
  unfold joined
  simp

theorem compact_of_joined (whole : decoder.inner = []) : decoder.compact = decoder.joined := by
  unfold compact joined
  rw [whole, List.flatten_nil, List.append_nil]

theorem fillStep_congr {decoder' : UuDecoder} (same : decoder'.compact = decoder.compact)
    (produced : Nat) : decoder'.fillStep produced = decoder.fillStep produced := by
  unfold fillStep
  rw [same]

/-- The same round with the chunks and with the whole text. -/
inductive SameRound (finished : Bool) : FillOutcome → FillOutcome → Prop
  | more {next next' : UuDecoder} {produced : Nat} (same : SameText next next')
      (kept : next.finished = finished) :
      SameRound finished (.more next produced) (.more next' produced)
  | done {next next' : UuDecoder} (same : SameText next next') :
      SameRound finished (.done next) (.done next')
  | ignored {next next' : UuDecoder} (ignored : next.state = .ignore)
      (ignored' : next'.state = .ignore) (kept : next.finished = finished)
      (kept' : next'.finished = finished) : SameRound finished (.done next) (.done next')
  | failed {next next' : UuDecoder} {source : IoError} :
      SameRound finished (.failed source next) (.failed source next')

theorem sameRound_atEndOfStream (whole : decoder.inner = []) (produced : Nat) :
    SameRound decoder.finished (decoder.atEndOfStream produced)
      (decoder.atEndOfStream produced) := by
  have nonempty {last : UuDecoder} (ended : last.inner = []) : ∀ chunk ∈ last.inner, chunk ≠ [] := by
    rw [ended]
    nofun
  unfold atEndOfStream
  split_ifs
  · exact .done ⟨rfl, whole, nonempty whole⟩
  · rw [processLine_eq]
    cases (lineEffect decoder.state decoder.scanned decoder.input).1 with
    | error source => exact .failed
    | ok _ => exact .done ⟨rfl, whole, nonempty whole⟩
  · exact .failed
  · exact .done ⟨rfl, whole, nonempty whole⟩

theorem sameRound_takeLine (start : decoder.pos = 0) {contentEnd nlSize : Nat}
    (inside : contentEnd + nlSize ≤ decoder.input.length)
    (nonempty : ∀ chunk ∈ decoder.inner, chunk ≠ []) (produced : Nat) :
    SameRound decoder.finished (decoder.takeLine produced contentEnd nlSize)
      (decoder.joined.takeLine produced contentEnd nlSize) := by
  have input : decoder.joined.input = decoder.input ++ decoder.inner.flatten := by
    unfold joined
    rw [start, List.drop_zero]
  unfold takeLine
  by_cases cap : (decoder.state = .readUu ∨ decoder.state = .readBase64) ∧
      outBuffSize < decoder.out.length + (contentEnd + nlSize) * 2
  · have cap' : (decoder.joined.state = .readUu ∨ decoder.joined.state = .readBase64) ∧
        outBuffSize < decoder.joined.out.length + (contentEnd + nlSize) * 2 := cap
    rw [if_pos cap, if_pos cap']
    refine .done ⟨?_, rfl, nonempty⟩
    unfold joined
    simp
  · have cap' : ¬((decoder.joined.state = .readUu ∨ decoder.joined.state = .readBase64) ∧
        outBuffSize < decoder.joined.out.length + (contentEnd + nlSize) * 2) := cap
    rw [if_neg cap, if_neg cap', processLine_eq, processLine_eq, input,
      List.take_append_of_le_length (by omega)]
    dsimp only
    have state : decoder.joined.state = decoder.state := rfl
    have scanned : decoder.joined.scanned = decoder.scanned := rfl
    rw [state, scanned]
    cases (lineEffect decoder.state decoder.scanned (decoder.input.take contentEnd)).1 with
    | error source => exact .failed
    | ok _ =>
      refine .more ⟨?_, rfl, nonempty⟩ rfl
      unfold joined afterEffect
      dsimp only
      rw [List.drop_append_of_le_length inside]
      simp

/-- A round reads a further chunk, or it is the same round with the whole text. -/
theorem sameRound_fillStep (nonempty : ∀ chunk ∈ decoder.inner, chunk ≠ [])
    (calm : ¬decoder.SplitsLineEnd ∧ ¬decoder.RefusesPending) (produced : Nat) :
    (∃ next, decoder.fillStep produced = .more next produced ∧ next.joined = decoder.joined ∧
      (∀ chunk ∈ next.inner, chunk ≠ []) ∧ next.finished = decoder.finished) ∨
      SameRound decoder.finished (decoder.fillStep produced)
        (decoder.joined.fillStep produced) := by
  have input : decoder.joined.input = decoder.compact.input ++ decoder.inner.flatten := rfl
  have compacted : decoder.joined.compact = decoder.joined := rfl
  have joins : decoder.compact.joined = decoder.joined := rfl
  have whole : ¬(locateLineEnd decoder.compact.input 0 =
        .found (0 + decoder.compact.input.length - 1) 1 ∧
      decoder.compact.input.getLast? = some 0x0d ∧ decoder.inner.flatten.head? = some 0x0a) := by
    rw [Nat.zero_add]
    exact calm.1
  unfold fillStep
  rw [compacted]
  dsimp only
  by_cases ignored : decoder.compact.state = .ignore
  · have ignored' : decoder.joined.state = .ignore := ignored
    rw [if_pos ignored, if_pos ignored']
    exact .inr (.ignored ignored ignored rfl rfl)
  have ignored' : decoder.joined.state ≠ .ignore := ignored
  rw [if_neg ignored, if_neg ignored', input]
  cases located : locateLineEnd decoder.compact.input 0 with
  | invalid =>
    rw [locateLineEnd_append _ whole (by rw [located]; nofun), located]
    dsimp only
    refine .inr ?_
    by_cases searching : decoder.compact.state = .findHead ∧
        (0 < decoder.compact.total ∨ 0 < produced)
    · have searching' : decoder.joined.state = .findHead ∧
          (0 < decoder.joined.total ∨ 0 < produced) := searching
      rw [if_pos searching, if_pos searching']
      exact .ignored rfl rfl rfl rfl
    · have searching' : ¬(decoder.joined.state = .findHead ∧
          (0 < decoder.joined.total ∨ 0 < produced)) := searching
      rw [if_neg searching, if_neg searching']
      exact .failed
  | found contentEnd nlSize =>
    rw [locateLineEnd_append _ whole (by rw [located]; nofun), located]
    dsimp only
    obtain ⟨-, -, inside⟩ := locateLineEnd_found located
    rw [Nat.zero_add] at inside
    exact .inr (@sameRound_takeLine decoder.compact rfl _ _ inside nonempty produced)
  | pending =>
    dsimp only
    cases inner : decoder.inner with
    | nil =>
      rw [List.flatten_nil, List.append_nil, located]
      dsimp only
      rw [← compact_of_joined inner]
      have inner' : decoder.compact.inner = [] := inner
      unfold readChunk
      by_cases long : maxLine < decoder.compact.input.length
      · rw [if_pos long]
        exact .inr .failed
      · rw [if_neg long, inner']
        exact .inr (@sameRound_atEndOfStream decoder.compact inner' produced)
    | cons chunk rest =>
      have inner' : decoder.compact.inner = chunk :: rest := inner
      have some : decoder.inner ≠ [] := by
        rw [inner]
        exact List.cons_ne_nil _ _
      have short : ¬maxLine < decoder.compact.input.length :=
        fun long => calm.2 ⟨ignored, some, located, long⟩
      obtain ⟨chunkSome, restSome⟩ := List.forall_mem_cons.mp (inner ▸ nonempty)
      refine .inl ⟨{ decoder.compact with
        inner := rest, input := decoder.compact.input ++ chunk }, ?_, ?_, restSome, rfl⟩
      · unfold readChunk
        rw [if_neg short, inner']
        exact if_neg chunkSome
      · unfold joined
        rw [inner]
        simp [compact]

/-! ## Refills -/

/-- The same refill of two decoders: both fail alike, both ignore the rest, or both
leave the same output and are related when it is handed out. -/
inductive SameFill (related : UuDecoder → UuDecoder → Prop) :
    Except IoError Unit × UuDecoder → Except IoError Unit × UuDecoder → Prop
  | failed {next next' : UuDecoder} {source : IoError} :
      SameFill related (.error source, next) (.error source, next')
  | ignored {next next' : UuDecoder} (ignored : next.state = .ignore)
      (ignored' : next'.state = .ignore) (going : next.finished = false)
      (going' : next'.finished = false) : SameFill related (.ok (), next) (.ok (), next')
  | filled {next next' : UuDecoder} (out : next'.out = next.out)
      (same : related next.drained next'.drained) :
      SameFill related (.ok (), next) (.ok (), next')

theorem SameFill.symm {related : UuDecoder → UuDecoder → Prop}
    {one two : Except IoError Unit × UuDecoder} (same : SameFill related one two) :
    SameFill (fun next next' => related next' next) two one := by
  cases same with
  | failed => exact .failed
  | ignored ignored ignored' going going' => exact .ignored ignored' ignored going' going
  | filled out same => exact .filled out.symm same

/-- Decoders that stay related from refill to refill come to the same outcome. -/
theorem Blocks.of_related {related : UuDecoder → UuDecoder → Prop}
    (finished : ∀ {one two}, related one two → two.finished = one.finished)
    (fill : ∀ {one two}, related one two → one.finished = false →
      SameFill related one.fill two.fill)
    {one two : UuDecoder} {outcome : Except IoError (List UInt8)} (same : related one two)
    (blocks : Blocks one outcome) : Blocks two outcome := by
  induction blocks generalizing two with
  | finished ended => exact .finished ((finished same).trans ended)
  | @failed _ _ source going filled =>
    have refilled := fill same going
    rw [filled] at refilled
    generalize other : two.fill = result at refilled
    cases refilled with
    | failed => exact .failed ((finished same).trans going) other
  | @more _ next _ going filled rest ih =>
    have refilled := fill same going
    rw [filled] at refilled
    generalize other : two.fill = result at refilled
    cases refilled with
    | ignored ignored _ going _ => exact absurd rest (not_blocks_of_ignore ignored going)
    | filled out same' =>
      rw [← out]
      exact .more ((finished same).trans going) other (ih same')

/-- The same text, and no round of the next refills is disturbed by a cut. -/
structure Alike (decoder whole : UuDecoder) : Prop extends SameText decoder whole where
  calm : decoder.finished = false → UndisturbedFrom (decoder.cleared, 0)

theorem SameText.fillStep_eq (same : SameText decoder whole) (produced : Nat) :
    whole.fillStep produced = decoder.joined.fillStep produced := by
  apply fillStep_congr
  rw [compact_of_joined same.whole, same.same]
  rfl

theorem sameFill_fillRounds (same : SameText decoder whole)
    (calm : UndisturbedFrom (decoder, produced)) (going : decoder.finished = false) :
    SameFill Alike (decoder.fillRounds produced) (whole.fillRounds produced) := by
  fun_induction fillRounds decoder produced generalizing whole with
  | case1 decoder produced next step =>
    rcases sameRound_fillStep same.nonempty (calm _ .refl) produced with
      ⟨other, again, -⟩ | round
    · cases step.symm.trans again
    rw [step, ← same.fillStep_eq] at round
    generalize other : whole.fillStep produced = result at round
    cases round with
    | done same' =>
      rw [fillRounds_of_done other]
      exact .filled (congrArg UuDecoder.out same'.same :)
        ⟨⟨congrArg UuDecoder.drained same'.same, same'.whole, same'.nonempty⟩,
          fun ends => calm.onward (.refill step ends)⟩
    | ignored ignored ignored' kept kept' =>
      rw [fillRounds_of_done other]
      exact .ignored ignored ignored' (kept.trans going) (kept'.trans going)
  | case2 decoder produced source next step =>
    rcases sameRound_fillStep same.nonempty (calm _ .refl) produced with
      ⟨other, again, -⟩ | round
    · cases step.symm.trans again
    rw [step, ← same.fillStep_eq] at round
    generalize other : whole.fillStep produced = result at round
    cases round with
    | failed =>
      rw [fillRounds_of_failed other]
      exact .failed
  | case3 decoder produced next produced' step ih =>
    have later := calm.onward (.more step)
    rcases sameRound_fillStep same.nonempty (calm _ .refl) produced with
      ⟨other, again, joins, nonempty, kept⟩ | round
    · -- a chunk is read: the other decoder has it already
      cases step.symm.trans again
      exact ih ⟨same.same.trans joins.symm, same.whole, nonempty⟩ later (kept.trans going)
    rw [step, ← same.fillStep_eq] at round
    generalize other : whole.fillStep produced = result at round
    cases round with
    | more same' kept =>
      rw [fillRounds_of_more other]
      exact ih same' later (kept.trans going)

theorem Alike.fill (same : Alike decoder whole) (going : decoder.finished = false) :
    SameFill Alike decoder.fill whole.fill := by
  have cleared : whole.cleared.joined = decoder.cleared.joined :=
    congrArg (fun joined : UuDecoder => { joined with out := [], outPos := 0 }) same.same
  exact sameFill_fillRounds ⟨cleared, same.whole, same.nonempty⟩ (same.calm going) going

/-- The chunks do not matter to what the refills come to. -/
theorem Alike.blocks_iff (same : Alike decoder whole) (outcome : Except IoError (List UInt8)) :
    Blocks decoder outcome ↔ Blocks whole outcome := by
  have finished {one two : UuDecoder} (same : Alike one two) : two.finished = one.finished :=
    (congrArg UuDecoder.finished same.same :)
  constructor
  · exact Blocks.of_related finished Alike.fill same
  · refine @Blocks.of_related (fun two one => Alike one two) (fun same => (finished same).symm)
      ?_ _ _ _ same
    intro two one same going
    exact (same.fill ((finished same).symm.trans going)).symm

theorem alike_new (nonempty : ∀ chunk ∈ inner, chunk ≠ []) (calm : Undisturbed inner) :
    Alike (new inner) (new inner).joined where
  same := (new inner).joined_joined
  whole := rfl
  nonempty := nonempty
  calm := fun _ there reached => calm there.1 there.2 reached

/-! ## Texts that are cut well -/

/-- The text that is left is cut well. -/
def Cut (decoder : UuDecoder) : Prop := Smooth (decoder.input.drop decoder.pos) decoder.inner

theorem Cut.calm (cut : decoder.Cut) : ¬decoder.SplitsLineEnd ∧ ¬decoder.RefusesPending := by
  constructor
  · rintro ⟨-, last, first⟩
    refine cut.whole [] decoder.inner rfl ?_ ⟨by rwa [List.flatten_nil, List.append_nil], first⟩
    intro none
    rw [none] at first
    cases first
  · rintro ⟨-, some, pending, long⟩
    have bound := cut.short [] decoder.inner rfl some
    rw [List.flatten_nil, List.append_nil,
      pendingLength_of_unbroken (unbroken_of_pending pending)] at bound
    omega

theorem Cut.onward (cut : here.1.Cut) (next : NextRound here there) : there.1.Cut := by
  have nothing {last : UuDecoder} (inner : last.inner = here.1.inner)
      (input : last.input.drop last.pos = []) : last.Cut := by
    have dropped := Smooth.drop cut (here.1.input.drop here.1.pos).length
    rw [List.drop_length] at dropped
    unfold Cut
    rwa [inner, input]
  cases next with
  | @more decoder next produced produced' step =>
    cases round_of_step step with
    | chunk usable inner =>
      unfold Cut at cut
      rw [inner] at cut
      exact cut.read
    | @line _ size _ usable some_byte inside advances =>
      obtain ⟨state, scanned, bytes, -, rfl⟩ := advances
      exact Smooth.drop cut size
  | @refill decoder next produced step going =>
    cases round_of_step step with
    | ignored is => exact nothing rfl rfl
    | garbage met => exact nothing rfl rfl
    | finished usable ends proper => exact absurd (ends.symm.trans going) nofun
    | full usable output => exact cut

/-- A text without line ends or lengths that a cut disturbs is read undisturbed. -/
theorem undisturbed_of_smooth (smooth : Smooth [] inner) : Undisturbed inner := by
  intro decoder produced comes
  have cut : ∀ {place : UuDecoder × Nat}, ComesTo inner place → place.1.Cut := by
    intro place comes
    induction comes with
    | refl => exact smooth
    | tail _ next ih => exact ih.onward next
  exact (cut comes).calm

/-! ## Rounds that a cut disturbs -/

/-- A line that is refused for its length ends reading with an error. -/
theorem roundsTo_of_refusesPending (refuses : decoder.RefusesPending) (produced : Nat) :
    ∃ source, decoder.RoundsTo produced (.error source) := by
  obtain ⟨usable, -, pending, long⟩ := refuses
  have usable' : decoder.compact.state ≠ .ignore := usable
  have pending' : locateLineEnd decoder.compact.input 0 = .pending := pending
  have failed : decoder.fillStep produced =
      .failed ⟨.invalidData, "invalid uuencode line length"⟩ decoder.compact := by
    unfold fillStep
    dsimp only
    rw [if_neg usable', pending']
    exact if_pos long
  exact ⟨_, .inl ⟨_, _, fillRounds_of_failed failed, rfl⟩⟩

/-- Neither the lines of an uuencoded body nor its end are empty. -/
theorem lineEffect_nil {state : UuState} (inside : state = .readUu ∨ state = .uuEnd)
    (scanned : Nat) : (lineEffect state scanned []).1 = .error insufficient := by
  rcases inside with rfl | rfl <;> rfl

/-- An empty line in an uuencoded body ends reading with an error, in this refill or in
the next. -/
theorem roundsTo_of_lineFeed (inside : decoder.state = .readUu ∨ decoder.state = .uuEnd)
    (going : decoder.finished = false)
    (first : (decoder.input.drop decoder.pos).head? = some 0x0a) (produced : Nat) :
    ∃ source, decoder.RoundsTo produced (.error source) := by
  have located {decoder : UuDecoder}
      (first : (decoder.input.drop decoder.pos).head? = some 0x0a) :
      locateLineEnd decoder.compact.input 0 = .found 0 1 := by
    obtain ⟨rest, same⟩ := List.head?_eq_some_iff.mp first
    change locateLineEnd (decoder.input.drop decoder.pos) 0 = _
    rw [same]
    rfl
  have step {decoder : UuDecoder} (inside : decoder.state = .readUu ∨ decoder.state = .uuEnd)
      (first : (decoder.input.drop decoder.pos).head? = some 0x0a) (produced : Nat) :
      decoder.fillStep produced = decoder.compact.takeLine produced 0 1 := by
    have usable : decoder.compact.state ≠ .ignore := by
      change decoder.state ≠ _
      rcases inside with state | state <;> rw [state] <;> exact UuState.noConfusion
    unfold fillStep
    dsimp only
    rw [if_neg usable, located first]
  have fails {decoder : UuDecoder} (inside : decoder.state = .readUu ∨ decoder.state = .uuEnd)
      (first : (decoder.input.drop decoder.pos).head? = some 0x0a) (produced : Nat)
      (room : ¬((decoder.compact.state = .readUu ∨ decoder.compact.state = .readBase64) ∧
        outBuffSize < decoder.compact.out.length + (0 + 1) * 2)) :
      decoder.RoundsTo produced (.error insufficient) := by
    have failed : ∃ next, decoder.fillStep produced = .failed insufficient next := by
      rw [step inside first]
      unfold takeLine
      rw [if_neg room, processLine_eq, List.take_zero]
      have effect := lineEffect_nil (show decoder.compact.state = .readUu ∨
        decoder.compact.state = .uuEnd from inside) decoder.compact.scanned
      dsimp only
      rw [effect]
      exact ⟨_, rfl⟩
    obtain ⟨next, failed⟩ := failed
    exact .inl ⟨_, _, fillRounds_of_failed failed, rfl⟩
  by_cases full : (decoder.compact.state = .readUu ∨ decoder.compact.state = .readBase64) ∧
      outBuffSize < decoder.compact.out.length + (0 + 1) * 2
  · have output : decoder.compact.out.isEmpty = false := by
      rw [List.isEmpty_eq_false_iff]
      intro none
      rw [none] at full
      exact absurd full.2 (by decide)
    have waits : decoder.fillStep produced = .done decoder.compact := by
      rw [step inside first]
      unfold takeLine
      rw [if_pos full, output, Bool.or_false]
    have room : ¬outBuffSize < ([] : List UInt8).length + (0 + 1) * 2 := by
      decide
    have later := @fails decoder.compact.drained.cleared inside first 0 fun both => room both.2
    exact ⟨insufficient, (NextRound.refill waits going).fails later⟩
  · exact ⟨_, fails inside first produced full⟩

/-- A line end that is cut in an uuencoded body ends reading with an error. -/
theorem roundsTo_of_splitsLineEnd (nonempty : ∀ chunk ∈ decoder.inner, chunk ≠ [])
    (going : decoder.finished = false) (splits : decoder.SplitsLineEnd)
    (step : decoder.fillStep produced = .more next produced')
    (inside : next.state = .readUu ∨ next.state = .uuEnd) :
    ∃ source, decoder.RoundsTo produced (.error source) := by
  obtain ⟨located, last, first⟩ := splits
  have located : locateLineEnd decoder.compact.input 0 = .found _ 1 := located
  have some_byte : 0 < (decoder.input.drop decoder.pos).length :=
    List.length_pos_of_mem (List.mem_of_getLast? last)
  -- the buffer is used up, and reading goes on with the line feed
  have left : next.input.drop next.pos = [] ∧ next.inner = decoder.inner ∧
      next.finished = false := by
    by_cases ignored : decoder.compact.state = .ignore
    · have done : decoder.fillStep produced = .done _ := if_pos ignored
      cases done.symm.trans step
    have taken : decoder.fillStep produced = decoder.compact.takeLine produced
        ((decoder.input.drop decoder.pos).length - 1) 1 := by
      unfold fillStep
      dsimp only
      rw [if_neg ignored, located]
    rw [taken] at step
    unfold takeLine at step
    split at step
    · cases step
    · rw [processLine_eq] at step
      dsimp only at step
      cases effect : (lineEffect decoder.compact.state decoder.compact.scanned
          (decoder.compact.input.take ((decoder.input.drop decoder.pos).length - 1))).1 with
      | error source =>
        rw [effect] at step
        cases step
      | ok _ =>
        rw [effect] at step
        cases step
        refine ⟨?_, rfl, going⟩
        change (decoder.input.drop decoder.pos).drop
          ((decoder.input.drop decoder.pos).length - 1 + 1) = []
        rw [Nat.sub_add_cancel some_byte, List.drop_length]
  obtain ⟨empty, inner, going⟩ := left
  cases chunks : decoder.inner with
  | nil =>
    rw [chunks] at first
    cases first
  | cons chunk rest =>
    have chunkSome := nonempty chunk (by rw [chunks]; exact .head _)
    have usable : next.compact.state ≠ .ignore := by
      change next.state ≠ _
      rcases inside with state | state <;> rw [state] <;> exact UuState.noConfusion
    have further : next.fillStep produced' =
        .more { next.compact with inner := rest, input := chunk } produced' := by
      have input : next.compact.input = [] := empty
      have inner : next.compact.inner = chunk :: rest := inner.trans chunks
      have located : locateLineEnd next.compact.input 0 = .pending := by
        rw [input]
        rfl
      unfold fillStep
      dsimp only
      rw [if_neg usable, located]
      dsimp only
      unfold readChunk
      rw [input, if_neg (by decide), inner]
      exact if_neg chunkSome
    rw [chunks, List.flatten_cons, List.head?_append_of_ne_nil _ chunkSome] at first
    obtain ⟨source, fails⟩ := @roundsTo_of_lineFeed
      { next.compact with inner := rest, input := chunk } inside going first produced'
    exact ⟨source, (NextRound.more step).fails ((NextRound.more further).fails fails)⟩

/-! ## Reading -/

/-- **Reading does not depend on the chunks.** Two ways to cut a text, neither of
which separates a carriage return from the line feed behind it at a line that the decoder
comes to or has a cut, where it looks for the end of a line, further than the longest
line behind the start, are read to the same outcomes, whatever the sizes of the buffers.
And reading fails where such a cut is met inside an uuencoded body or too far behind the
start of a line. -/
theorem uu_decoder_ignores_chunking (one two : List (List UInt8)) (sizes sizes' : Nat → Nat)
    (text : one.flatten = two.flatten) (nonempty : ∀ chunk ∈ one ++ two, chunk ≠ [])
    (positive : ∀ index, 0 < sizes index) (positive' : ∀ index, 0 < sizes' index) :
    (Undisturbed one → Undisturbed two → ∀ outcome,
      ((∃ final, ReadsToEnd Returns sizes (new one) outcome final) ↔
        ∃ final, ReadsToEnd Returns sizes' (new two) outcome final)) ∧
    ∀ decoder produced, ComesTo one (decoder, produced) →
      (decoder.RefusesPending ∨ decoder.SplitsLineEnd ∧ ∃ next produced',
        decoder.fillStep produced = .more next produced' ∧
          (next.state = .readUu ∨ next.state = .uuEnd)) →
      ∃ source final, ReadsToEnd Returns sizes (new one) (.error source) final := by
  obtain ⟨some, some'⟩ := List.forall_mem_append.mp nonempty
  constructor
  · intro calm calm' outcome
    have joined : (new one).joined = (new two).joined := by
      unfold joined new
      rw [text]
    rw [reads_new_iff positive, reads_new_iff positive', (alike_new some calm).blocks_iff,
      (alike_new some' calm').blocks_iff, joined]
  · intro decoder produced comes disturbed
    obtain ⟨source, fails⟩ : ∃ source, decoder.RoundsTo produced (.error source) := by
      rcases disturbed with refuses | ⟨splits, next, produced', step, inside⟩
      · exact roundsTo_of_refusesPending refuses produced
      · exact roundsTo_of_splitsLineEnd
          (fun chunk member => some chunk (comes.inner_suffix.mem member)) comes.unfinished splits
          step inside
    exact ⟨source, (reads_new_iff positive _).mpr (comes.blocks_error fails)⟩

/-! ## Two cuts of a text -/

theorem fillRounds_of_roundsFrom {rounds : Nat}
    (ran : roundsFrom rounds decoder produced = some last) :
    decoder.fillRounds produced = last.1.fillRounds last.2 := by
  induction rounds generalizing decoder produced with
  | zero =>
    cases ran
    rfl
  | succ rounds ih =>
    unfold roundsFrom at ran
    cases step : decoder.fillStep produced with
    | more next produced' =>
      rw [step] at ran
      exact (fillRounds_of_more step).trans (ih ran)
    | done next =>
      rw [step] at ran
      cases ran
    | failed source next =>
      rw [step] at ran
      cases ran

/-- `begin 644 a`, one line with the byte `a`, an empty line and `end`. -/
def unixText : List UInt8 :=
  [0x62, 0x65, 0x67, 0x69, 0x6e, 0x20, 0x36, 0x34, 0x34, 0x20, 0x61, 0x0a,
    0x21, 0x38, 0x30, 0x0a, 0x20, 0x0a, 0x65, 0x6e, 0x64, 0x0a]

/-- The same lines with the line ends of DOS. -/
def dosText : List UInt8 :=
  [0x62, 0x65, 0x67, 0x69, 0x6e, 0x20, 0x36, 0x34, 0x34, 0x20, 0x61, 0x0d, 0x0a,
    0x21, 0x38, 0x30, 0x0d, 0x0a, 0x20, 0x0d, 0x0a, 0x65, 0x6e, 0x64, 0x0d, 0x0a]

/-- One refill reads the whole text. -/
theorem blocks_of_one_refill {rounds : Nat}
    (ran : roundsFrom rounds (new inner).cleared 0 = some last)
    (done : last.1.fillStep last.2 = .done next) (ended : next.finished = true) :
    Blocks (new inner) (.ok next.out) := by
  have filled : (new inner).fill = (.ok (), next) :=
    (fillRounds_of_roundsFrom ran).trans (fillRounds_of_done done)
  have blocks := Blocks.more rfl filled (.finished (by exact ended))
  rwa [show (Except.ok [] : Except IoError (List UInt8)).map (next.out ++ ·) = .ok next.out from
    congrArg Except.ok (List.append_nil _)] at blocks

theorem unix_text_in_two_cuts :
    (∃ final, ReadsToEnd Returns (fun _ => 1) (new [unixText]) (.ok [0x61]) final) ↔
      ∃ final, ReadsToEnd Returns (fun _ => 7) (new [unixText.take 14, unixText.drop 14])
        (.ok [0x61]) final := by
  refine (uu_decoder_ignores_chunking [unixText] [unixText.take 14, unixText.drop 14]
    (fun _ => 1) (fun _ => 7) rfl (by decide) (fun _ => by decide) (fun _ => by decide)).1
    ?_ ?_ _
  · exact undisturbed_of_smooth (.cons (by decide) (by decide) (by decide) (.nil _))
  · exact undisturbed_of_smooth (.cons (by decide) (by decide) (by decide)
      (.cons (by decide) (by decide) (by decide) (.nil _)))

-- The cut of a line end behind a byte that no text has is never come to.
example : Undisturbed [[0x00], [0x0d], [0x0a]] := by
  intro decoder produced comes
  rcases comes.cases_head with same | ⟨second, next, comes⟩
  · cases same
    exact ⟨by decide, by decide⟩
  cases next with
  | refill step going => cases step
  | more step =>
    cases step
    rcases comes.cases_head with same | ⟨third, next, comes⟩
    · cases same
      exact ⟨by decide, by decide⟩
    cases next with
    | more step => cases step
    | refill step going => cases step

/-- A cut between the two bytes of the first line end turns the decoded byte into an
error. -/
theorem cut_line_end_fails :
    [dosText].flatten = [dosText.take 12, dosText.drop 12].flatten ∧
      (∃ final, ReadsToEnd Returns (fun _ => 1) (new [dosText]) (.ok [0x61]) final) ∧
      ∃ final, ReadsToEnd Returns (fun _ => 1) (new [dosText.take 12, dosText.drop 12])
        (.error insufficient) final := by
  refine ⟨rfl, (reads_new_iff (fun _ => Nat.one_pos) _).mpr ?_,
    (reads_new_iff (fun _ => Nat.one_pos) _).mpr ?_⟩
  · have ran : ∃ last next, roundsFrom 5 (new [dosText]).cleared 0 = some last ∧
        last.1.fillStep last.2 = .done next ∧ next.finished = true ∧ next.out = [0x61] :=
      ⟨_, _, rfl, rfl, rfl, by decide +kernel⟩
    obtain ⟨last, next, ran, done, ended, out⟩ := ran
    rw [← out]
    exact blocks_of_one_refill ran done ended
  · have ran : ∃ last next, roundsFrom 3 (new [dosText.take 12, dosText.drop 12]).cleared 0 =
        some last ∧ last.1.fillStep last.2 = .failed insufficient next :=
      ⟨_, _, rfl, rfl⟩
    obtain ⟨last, next, ran, failed⟩ := ran
    exact .failed rfl ((fillRounds_of_roundsFrom ran).trans (fillRounds_of_failed failed))

end UuDecoder

end ZManager
