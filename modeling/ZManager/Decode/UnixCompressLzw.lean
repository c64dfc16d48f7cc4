import ZManager.Decode.UnixCompressSafety
import ZManager.Foundation.ReadToEnd

/-! # What the decoder for Unix compress streams decodes

The decoder is compared with LZW over an explicit dictionary, on the codes that it
extracts. They agree, except that the decoder accepts the code behind a dictionary
that is full.
-/

namespace ZManager

namespace UnixCompress

open Lzw

namespace Status

variable {status : Status} {code : Nat}

variable {dictionary : Dictionary UInt8}

@[simp] theorem widen_table (status : Status) : status.widen.table = status.table := by
  unfold widen
  split <;> rfl

@[simp] theorem widen_freeEnt (status : Status) : status.widen.freeEnt = status.freeEnt := by
  unfold widen
  split <;> rfl

@[simp] theorem widen_finbyte (status : Status) : status.widen.finbyte = status.finbyte := by
  unfold widen
  split <;> rfl

@[simp] theorem widen_lzw (status : Status) : status.widen.lzw = status.lzw := by
  unfold widen
  split <;> rfl

@[simp] theorem entered_lzw (status : Status) (finbyte : UInt8) :
    (status.entered finbyte).lzw = status.lzw := by
  unfold entered
  split
  · split <;> rfl
  · rfl

@[simp] theorem afterCode_lzw (status : Status) (code : Nat) :
    (status.afterCode code).lzw = status.lzw := by
  unfold afterCode
  change (Status.widen _).lzw = _
  rw [widen_lzw, entered_lzw]
  rfl

theorem afterCode_finbyte (status : Status) (code : Nat) :
    (status.afterCode code).finbyte = (status.expansion code).headD 0 := by
  unfold afterCode
  change (Status.widen _).finbyte = _
  rw [widen_finbyte]
  unfold entered
  split
  · split <;> rfl
  · rfl

/-- With room and a code before, an entry is added. -/
theorem afterCode_of_room (wf : status.Wf) {oldcode : Nat} (old : status.oldcode = some oldcode)
    (room : status.freeEnt < status.maxcode) :
    (status.afterCode code).table = status.table.set status.freeEnt oldcode
        ((status.expansion code).headD 0) ∧
      (status.afterCode code).freeEnt = status.freeEnt + 1 := by
  have entered : ({ status with finbyte := (status.expansion code).headD 0 } : Status).entered
      ((status.expansion code).headD 0) =
      ({ status with finbyte := (status.expansion code).headD 0 } : Status).enter oldcode
        ((status.expansion code).headD 0) := by
    unfold Status.entered
    dsimp only
    rw [old]
    exact if_pos room
  unfold afterCode
  rw [entered]
  constructor
  · change (Status.widen _).table = _
    rw [widen_table, Fits.table_enter (wf.old oldcode old).1]
    rfl
  · change (Status.widen _).freeEnt = _
    rw [widen_freeEnt]
    rfl

theorem afterCode_of_full (full : status.oldcode = none ∨ status.maxcode ≤ status.freeEnt) :
    (status.afterCode code).table = status.table ∧
      (status.afterCode code).freeEnt = status.freeEnt := by
  have entered : ({ status with finbyte := (status.expansion code).headD 0 } : Status).entered
      ((status.expansion code).headD 0) =
      { status with finbyte := (status.expansion code).headD 0 } := by
    unfold Status.entered
    dsimp only
    split
    next oldcode old =>
      rw [if_neg]
      rcases full with none | full
      · rw [none] at old
        cases old
      · exact Nat.not_lt.mpr full
    · rfl
  unfold afterCode
  rw [entered]
  constructor
  · change (Status.widen _).table = _
    rw [widen_table]
    rfl
  · change (Status.widen _).freeEnt = _
    rw [widen_freeEnt]

/-- A code is accepted when it is assigned or overruns a full dictionary. -/
theorem accepts_iff_assigned (wf : status.Wf)
    (plain : ¬(code = 256 ∧ status.useResetCode = true)) :
    status.Accepts code ↔
      status.lzw.Assigned ⟨status.freeEnt, status.oldcode.isSome⟩ code ∨
        status.lzw.Overruns ⟨status.freeEnt, status.oldcode.isSome⟩ code := by
  have first := wf.first
  unfold Accepts Codes.Assigned Codes.Overruns
  have literals : status.lzw.literals = 256 := rfl
  have capacity : status.lzw.capacity = status.maxcode := rfl
  have begins : status.lzw.first = if status.useResetCode = true then 257 else 256 := rfl
  rw [literals, capacity]
  rw [begins] at first ⊢
  rw [Option.isSome_iff_ne_none]
  by_cases old : status.oldcode = none
  · simp only [old, ne_eq, not_true_eq_false, false_and, and_false, or_false]
    split at first <;> simp_all <;> omega
  · simp only [old, ne_eq, not_false_eq_true, true_and, and_true]
    split at first <;> simp_all <;> omega

/-- The tables keep a dictionary, and the byte kept is the first of the old string. -/
structure Refines (status : Status) (dictionary : Dictionary UInt8) : Prop where
  keeps : Keeps status.lzw status.table status.freeEnt status.oldcode dictionary
  finbyte : ∀ oldcode ∈ status.oldcode, ∃ rest, status.spell oldcode = status.finbyte :: rest

theorem spell_cons (status : Status) (code : Nat) :
    ∃ first rest, status.spell code = first :: rest :=
  List.exists_cons_of_ne_nil (Table.spell_ne_nil status.table code)

/-- An assigned code is expanded to its string. -/
theorem Refines.meaning (refines : status.Refines dictionary) (wf : status.Wf)
    (plain : ¬(code = 256 ∧ status.useResetCode = true))
    (assigned : status.lzw.Assigned ⟨status.freeEnt, status.oldcode.isSome⟩ code) :
    status.lzw.meaning dictionary code = some (status.expansion code) := by
  have first := wf.first
  have least : 256 ≤ status.lzw.first := by
    change 256 ≤ if status.useResetCode = true then 257 else 256
    split <;> decide
  unfold Status.expansion
  by_cases next : status.freeEnt ≤ code
  · rw [if_pos next]
    have literals : status.lzw.literals = 256 := rfl
    unfold Codes.Assigned at assigned
    rw [literals] at assigned
    obtain ⟨same, begun, room⟩ : code = status.freeEnt ∧ status.oldcode.isSome = true ∧
        code < status.lzw.capacity := by
      rcases assigned with below | ⟨-, below⟩ | adding
      · omega
      · exact absurd next (Nat.not_le.mpr below)
      · exact adding
    subst same
    obtain ⟨oldcode, old⟩ := Option.isSome_iff_exists.mp begun
    obtain ⟨rest, begins⟩ := refines.finbyte oldcode old
    rw [refines.keeps.meaning_next least old room, old, Option.getD_some]
    change some (extended (status.spell oldcode) (status.spell oldcode)) = _
    rw [begins]
    rfl
  · rw [if_neg next]
    refine refines.keeps.meaning_of_lt ?_ (Nat.not_le.mp next)
    have literals : status.lzw.literals = 256 := rfl
    rw [literals]
    unfold Codes.Assigned at assigned
    rw [literals] at assigned
    rcases assigned with below | ⟨inside, -⟩ | ⟨same, -⟩
    · exact .inl below
    · exact .inr inside
    · exact absurd (Nat.le_of_eq same.symm) next

/-- Decoding an assigned code adds what LZW adds. -/
theorem Refines.afterCode (refines : status.Refines dictionary) (wf : status.Wf)
    (accepted : status.Accepts code)
    (fitting : ¬status.lzw.Overruns ⟨status.freeEnt, status.oldcode.isSome⟩ code) :
    (status.afterCode code).Refines (status.lzw.add dictionary (status.expansion code)) := by
  have least : 256 ≤ status.lzw.first := by
    change 256 ≤ if status.useResetCode = true then 257 else 256
    split <;> decide
  have oldcode_eq : (status.afterCode code).oldcode = some code := rfl
  obtain ⟨symbol, rest, begins⟩ : ∃ symbol rest, status.expansion code = symbol :: rest := by
    unfold Status.expansion
    split
    · obtain ⟨first, rest, spelled⟩ := status.spell_cons (status.oldcode.getD 0)
      exact ⟨first, _, by rw [spelled]; rfl⟩
    · exact status.spell_cons code
  have head : (status.expansion code).headD 0 = symbol := by rw [begins]; rfl
  by_cases adding : ∃ oldcode, status.oldcode = some oldcode ∧ status.freeEnt < status.maxcode
  · obtain ⟨oldcode, old, room⟩ := adding
    obtain ⟨table, next⟩ := afterCode_of_room wf old room
    rw [head] at table
    have below : code ≤ status.freeEnt := by rcases accepted with below | ⟨same, -⟩ <;> omega
    have spelled : (status.table.set status.freeEnt oldcode symbol).spell status.lzw code =
        status.expansion code := by
      unfold Status.expansion
      by_cases latest : status.freeEnt ≤ code
      · have same : code = status.freeEnt := Nat.le_antisymm below latest
        obtain ⟨rest', known⟩ := refines.finbyte oldcode old
        rw [if_pos latest, old, Option.getD_some]
        have first : symbol = status.finbyte := by
          unfold Status.expansion at begins
          rw [if_pos latest, old, Option.getD_some, known] at begins
          exact (List.cons.inj begins).1.symm
        rw [same, Table.Descends.spell_set_self wf.descends (Nat.le_trans least wf.first)
          (refines.keeps.old_lt oldcode old), first]
        rfl
      · rw [if_neg latest]
        exact Table.spell_set _ _ (Nat.not_le.mp latest)
    constructor
    · rw [afterCode_lzw, table, next, oldcode_eq]
      exact refines.keeps.add_entry wf.descends least old room begins spelled below
    · intro other same
      cases same
      refine ⟨rest, ?_⟩
      unfold Status.spell
      rw [afterCode_lzw, table, spelled, begins, afterCode_finbyte, head]
  · have full : status.oldcode = none ∨ status.maxcode ≤ status.freeEnt := by
      cases old : status.oldcode with
      | none => exact .inl rfl
      | some oldcode => exact .inr (Nat.not_lt.mp fun room => adding ⟨oldcode, old, room⟩)
    obtain ⟨table, next⟩ := afterCode_of_full full
    have below : code < status.freeEnt := by
      rcases accepted with below | ⟨same, some⟩
      · exact below
      · refine absurd ⟨same, Option.isSome_iff_ne_none.mpr some, ?_⟩ fitting
        change status.maxcode ≤ code
        exact same ▸ full.resolve_left some
    have spelled : status.expansion code = status.spell code := if_neg (Nat.not_le.mpr below)
    constructor
    · rw [afterCode_lzw, table, next, oldcode_eq, spelled]
      exact refines.keeps.keep_entries full below
    · intro other same
      cases same
      refine ⟨rest, ?_⟩
      unfold Status.spell
      rw [afterCode_lzw, table, afterCode_finbyte, head, ← begins, spelled]
      rfl

end Status

end UnixCompress

open UnixCompress Lzw

namespace UnixCompressReader

variable {result : Except Fault Bool × UnixCompressReader}

/-- A code that the decoder does not refuse. -/
def Decodable (codes : Codes UInt8) (count : Count) (code : Nat) : Prop :=
  codes.Assigned count code ∨ codes.Overruns count code

/-- No code names the one behind a dictionary that is full. -/
def NeverOverruns (codes : Codes UInt8) (sequence : List Nat) : Prop :=
  codes.Every (fun count code => ¬codes.Overruns count code) sequence

/-- The inner reader is at its end. -/
def Exhausted (reader : UnixCompressReader) : Prop :=
  reader.input.inner = [] ∧ reader.input.bitsAvail < reader.status.bits

/-- The bytes produced so far are those of the codes extracted so far. -/
structure Sync (codes : Codes UInt8) (produced : List UInt8) (reader : UnixCompressReader) :
    Prop where
  wf : reader.Wf
  lzw : reader.status.lzw = codes
  only : OnlyBytes reader.input.inner
  decodable : codes.Every (Decodable codes) reader.codes
  wide : 1024 ≤ codes.capacity → NeverOverruns codes reader.codes
  decoded : NeverOverruns codes reader.codes → codes.decode reader.codes = some produced
  going : reader.Exhausted ∨
    (codes.count reader.codes = ⟨reader.status.freeEnt, reader.status.oldcode.isSome⟩ ∧
      (NeverOverruns codes reader.codes → ∃ dictionary,
        codes.run reader.codes = some (produced, dictionary) ∧
          reader.status.Refines dictionary))

variable {codes : Codes UInt8} {produced : List UInt8} {reader next : UnixCompressReader}

/-- A code of a sequence that is read on is read in step. -/
theorem Sync.going_of_consumed (sync : Sync codes produced reader) {inner : List InnerRead}
    (consumed : inner.length < reader.input.inner.length) :
    codes.count reader.codes = ⟨reader.status.freeEnt, reader.status.oldcode.isSome⟩ ∧
      (NeverOverruns codes reader.codes → ∃ dictionary,
        codes.run reader.codes = some (produced, dictionary) ∧
          reader.status.Refines dictionary) := by
  refine sync.going.resolve_left fun exhausted => ?_
  rw [exhausted.1] at consumed
  exact absurd consumed (Nat.not_lt_zero _)

theorem resetCode_eq_some_iff {status : UnixCompress.Status} {code : Nat} :
    status.lzw.resetCode = some code ↔ code = 256 ∧ status.useResetCode = true := by
  change (if status.useResetCode = true then some 256 else none) = some code ↔ _
  split
  next mode => simp [mode, eq_comm]
  next mode => simp [mode]

/-- What a round of `next_code` means for the codes. -/
theorem Round.sync {answer : Except Fault (Option Bool)} (round : Round reader (answer, next))
    (sync : Sync codes produced reader) :
    match answer with
    | .ok none => Sync codes produced next
    | .ok (some true) => Sync codes (produced ++ next.stack) next
    | .ok (some false) => Sync codes produced next ∧ next.Exhausted
    | .error _ => ¬codes.Every (Decodable codes) next.codes := by
  have wf := sync.wf
  have lzw := sync.lzw
  have wf' := round.wf wf
  have wide := wf.status.wide
  cases round with
  | ended suffix short atEnd =>
    have exhausted := atEnd sync.only
    exact ⟨⟨wf', lzw, sync.only.suffix suffix, sync.decodable, sync.wide, sync.decoded,
      .inl ⟨exhausted, short⟩⟩, exhausted, short⟩
  | @endedInReset input suffix consumed few atEnd mode =>
    have exhausted : input.inner = [] := atEnd sync.only
    have reset : codes.resetCode = some 256 := lzw ▸ resetCode_eq_some_iff.mpr ⟨rfl, mode⟩
    have short : input.bitsAvail < reader.status.bits := by omega
    refine ⟨⟨wf', lzw, sync.only.suffix suffix, ?_, ?_, ?_, .inl ⟨exhausted, short⟩⟩,
      exhausted, short⟩
    · exact (codes.every_concat _ _ _).mpr ⟨sync.decodable, .inl reset⟩
    · exact fun large => (codes.every_concat _ _ _).mpr ⟨sync.wide large, .inl reset⟩
    · intro never
      obtain ⟨-, refined⟩ := sync.going_of_consumed consumed
      obtain ⟨dictionary, ran, -⟩ := refined ((codes.every_concat _ _ _).mp never).1
      exact congrArg (Option.map Prod.fst) (Codes.run_concat_reset ran reset)
  | @undefined input code suffix consumed few plain refused =>
    obtain ⟨count, -⟩ := sync.going_of_consumed consumed
    intro every
    obtain ⟨-, reset | decodable⟩ := (codes.every_concat _ _ _).mp every
    · rw [← lzw] at reset
      exact plain (resetCode_eq_some_iff.mp reset)
    · rw [count, ← lzw] at decodable
      exact refused ((Status.accepts_iff_assigned wf.status plain).mpr decodable)
  | @reset input suffix consumed few mode =>
    have reset : codes.resetCode = some 256 := lzw ▸ resetCode_eq_some_iff.mpr ⟨rfl, mode⟩
    have ran (never : NeverOverruns codes (reader.codes ++ [256])) :
        codes.run (reader.codes ++ [256]) = some (produced, .empty) := by
      obtain ⟨-, refined⟩ := sync.going_of_consumed consumed
      obtain ⟨dictionary, ran, -⟩ := refined ((codes.every_concat _ _ _).mp never).1
      exact Codes.run_concat_reset ran reset
    have first : codes.first = 257 := by
      rw [← lzw]
      exact if_pos mode
    refine ⟨wf', lzw, sync.only.suffix suffix, ?_, ?_, ?_, .inr ⟨?_, ?_⟩⟩
    · exact (codes.every_concat _ _ _).mpr ⟨sync.decodable, .inl reset⟩
    · exact fun large => (codes.every_concat _ _ _).mpr ⟨sync.wide large, .inl reset⟩
    · exact fun never => congrArg (Option.map Prod.fst) (ran never)
    · rw [codes.count_concat]
      unfold Codes.counted Codes.initialCount
      rw [if_pos reset, first]
      rfl
    · intro never
      refine ⟨.empty, ran never, ?_, nofun⟩
      have keeps := @Keeps.empty _ codes reader.status.table
      rw [first, ← lzw] at keeps
      exact keeps
  | @decoded input code suffix consumed few bound plain accepted =>
    have lzw' : (reader.status.afterCode code).lzw = codes := by
      rw [Status.afterCode_lzw, lzw]
    have notReset : codes.resetCode ≠ some code := fun reset =>
      plain (resetCode_eq_some_iff.mp (lzw ▸ reset))
    obtain ⟨count, refined⟩ := sync.going_of_consumed consumed
    have decodable : Decodable codes (codes.count reader.codes) code := by
      rw [count, ← lzw]
      exact (Status.accepts_iff_assigned wf.status plain).mp accepted
    have ran (never : NeverOverruns codes (reader.codes ++ [code])) :
        ∃ dictionary, codes.run (reader.codes ++ [code]) =
          some (produced ++ reader.status.expansion code, dictionary) ∧
            (reader.status.afterCode code).Refines dictionary := by
      obtain ⟨before, last⟩ := (codes.every_concat _ _ _).mp never
      obtain ⟨dictionary, ran, refines⟩ := refined before
      have fitting := last.resolve_left notReset
      have assigned := decodable.resolve_right fitting
      rw [count, ← lzw] at assigned fitting
      refine ⟨codes.add dictionary (reader.status.expansion code), ?_, ?_⟩
      · refine Codes.run_concat_meaning ran notReset ?_
        rw [← lzw]
        exact refines.meaning wf.status plain assigned
      · rw [← lzw]
        exact refines.afterCode wf.status accepted fitting
    refine ⟨wf', lzw', ?_, ?_, ?_, ?_, .inr ⟨?_, ran⟩⟩
    · have only := sync.only.suffix suffix
      unfold UnixCompressReader.afterCode
      dsimp only
      split <;> exact only
    · exact (codes.every_concat _ _ _).mpr ⟨sync.decodable, .inr decodable⟩
    · -- A dictionary that is full has codes of the declared width, which end before it.
      intro large
      refine (codes.every_concat _ _ _).mpr ⟨sync.wide large, .inr fun overruns => ?_⟩
      rw [count] at overruns
      obtain ⟨same, -, full⟩ := overruns
      have capacity : codes.capacity = reader.status.maxcode := by rw [← lzw]; rfl
      rw [capacity] at large full
      dsimp only at same
      have declared : 10 ≤ reader.status.maxcodeBits := by
        by_contra narrow
        have small : 2 ^ reader.status.maxcodeBits ≤ 2 ^ 9 :=
          Nat.pow_le_pow_right (by decide) (by omega)
        rw [← wf.status.maxcode] at small
        omega
      rw [wf.status.bits_of_full declared (same ▸ full), ← wf.status.maxcode] at bound
      omega
    · intro never
      obtain ⟨dictionary, ran, -⟩ := ran never
      exact congrArg (Option.map Prod.fst) ran
    · have next : (reader.status.afterCode code).freeEnt =
          if reader.status.oldcode.isSome = true ∧ reader.status.freeEnt < codes.capacity then
            reader.status.freeEnt + 1 else reader.status.freeEnt := by
        have capacity : codes.capacity = reader.status.maxcode := by rw [← lzw]; rfl
        rw [capacity]
        cases old : reader.status.oldcode with
        | none =>
          rw [if_neg (by simp)]
          exact (Status.afterCode_of_full (.inl old)).2
        | some oldcode =>
          by_cases room : reader.status.freeEnt < reader.status.maxcode
          · rw [if_pos ⟨rfl, room⟩]
            exact (Status.afterCode_of_room wf.status old room).2
          · rw [if_neg fun both => room both.2]
            exact (Status.afterCode_of_full (.inr (Nat.not_lt.mp room))).2
      change codes.count (reader.codes ++ [code]) = ⟨(reader.status.afterCode code).freeEnt, true⟩
      rw [codes.count_concat, count, next]
      unfold Codes.counted
      rw [if_neg notReset]

theorem Next.sync (next : Next reader result) (sync : Sync codes produced reader) :
    match result.1 with
    | .ok true => Sync codes (produced ++ result.2.stack) result.2
    | .ok false => Sync codes produced result.2 ∧ result.2.Exhausted
    | .error _ => ¬codes.Every (Decodable codes) result.2.codes := by
  induction next with
  | @answer reader next more round => cases more <;> exact round.sync sync
  | fault round => exact round.sync sync
  | again round rest ih => exact ih (round.sync sync)

/-- A code consumes an answer of the inner reader. -/
theorem Next.consumed (next : Next reader result) :
    result.2.input.inner.length ≤ reader.input.inner.length ∧
      (result.1 = .ok true → result.2.input.inner.length < reader.input.inner.length) := by
  induction next with
  | answer round =>
    cases round with
    | ended suffix short atEnd => exact ⟨suffix.length_le, nofun⟩
    | endedInReset suffix consumed few atEnd mode => exact ⟨suffix.length_le, nofun⟩
    | decoded suffix consumed few bound plain accepted =>
      unfold UnixCompressReader.afterCode
      dsimp only
      split <;> exact ⟨suffix.length_le, fun _ => consumed⟩
  | fault round =>
    cases round with
    | undefined suffix consumed few plain refused => exact ⟨suffix.length_le, nofun⟩
  | again round rest ih =>
    cases round with
    | reset suffix consumed few mode =>
      exact ⟨ih.1.trans suffix.length_le, fun coded => (ih.2 coded).trans consumed⟩

/-! ## Reading to the end -/

/-- The bytes delivered, those of the block and those of the stack are what the codes
decode to. -/
structure Delivers (codes : Codes UInt8) (delivered : List UInt8) (reader : UnixCompressReader) :
    Prop where
  sync : Sync codes (delivered ++ reader.out.drop reader.outPos ++ reader.stack) reader
  ended : reader.endOfStream = true → reader.stack = []

/-- A bound of what can still be delivered. -/
def bytesLeft (reader : UnixCompressReader) : Nat :=
  reader.input.inner.length * 65283 + reader.stack.length

variable {delivered : List UInt8}

theorem Sync.congr {reader' : UnixCompressReader} (sync : Sync codes produced reader)
    (input : reader'.input = reader.input) (status : reader'.status = reader.status)
    (extracted : reader'.codes = reader.codes) : Sync codes produced reader' := by
  obtain ⟨⟨wf, few⟩, lzw, only, decodable, wide, decoded, going⟩ := sync
  unfold Exhausted at going
  rw [← input, ← status] at few
  rw [← status] at wf lzw going
  rw [← input] at only going
  rw [← extracted] at decodable wide decoded going
  exact ⟨⟨wf, few⟩, lzw, only, decodable, wide, decoded, going⟩

theorem Filled.sync {result : Except Fault Unit × UnixCompressReader}
    (filled : Filled reader result)
    (sync : Sync codes (delivered ++ reader.out ++ reader.stack) reader)
    (ended : reader.endOfStream = true → reader.stack = []) :
    match result.1 with
    | .ok () =>
      Sync codes (delivered ++ result.2.out ++ result.2.stack) result.2 ∧
        (result.2.endOfStream = true → result.2.stack = []) ∧
        result.2.bytesLeft + result.2.out.length ≤ reader.bytesLeft + reader.out.length
    | .error _ => ¬codes.Every (Decodable codes) result.2.codes := by
  induction filled with
  | done enough => exact ⟨sync.congr rfl rfl rfl, ended, Nat.le_refl _⟩
  | @pop reader result byte stack top rest ih =>
    have popped : Sync codes (delivered ++ (reader.out ++ [byte]) ++ stack)
        { reader with stack := stack, out := reader.out ++ [byte] } := by
      rw [top] at sync
      simp only [List.append_assoc, List.singleton_append] at sync ⊢
      exact sync.congr rfl rfl rfl
    have further := ih popped fun atEnd => absurd (ended atEnd) (top ▸ List.cons_ne_nil _ _)
    cases answer : result.1 with
    | error fault =>
      rw [answer] at further
      exact further
    | ok filled =>
      rw [answer] at further
      obtain ⟨sync, ended, bound⟩ := further
      refine ⟨sync, ended, bound.trans ?_⟩
      unfold bytesLeft
      rw [top]
      simp only [List.length_append, List.length_cons, List.length_nil]
      omega
  | fault empty coded =>
    rw [empty, List.append_nil] at sync
    exact coded.sync sync
  | @more reader next result going empty coded rest ih =>
    rw [empty, List.append_nil] at sync
    have changes := coded.coded sync.wf
    have consumed := coded.consumed.2 rfl
    have out : next.out = reader.out := changes.out
    have atEnd : next.endOfStream = false := changes.endOfStream.trans going
    have short : next.stack.length ≤ 65282 := changes.length empty
    have after : Sync codes (delivered ++ reader.out ++ next.stack) next := coded.sync sync
    rw [← out] at after
    have further := ih after fun ended => absurd (ended.symm.trans atEnd) nofun
    dsimp only at consumed
    cases answer : result.1 with
    | error fault =>
      rw [answer] at further
      exact further
    | ok filled =>
      rw [answer] at further
      obtain ⟨sync, ended, bound⟩ := further
      refine ⟨sync, ended, bound.trans ?_⟩
      unfold bytesLeft
      rw [out, empty, List.length_nil]
      omega
  | @last reader next empty coded =>
    rw [empty, List.append_nil] at sync
    have changes := coded.coded sync.wf
    have out : next.out = reader.out := changes.out
    have stack : next.stack = [] := (changes.kept nofun).trans empty
    have consumed := coded.consumed.1
    obtain ⟨after, -⟩ := coded.sync sync
    refine ⟨?_, fun _ => stack, ?_⟩
    · dsimp only
      rw [stack, out, List.append_nil]
      exact after.congr rfl rfl rfl
    · unfold bytesLeft
      dsimp only at consumed ⊢
      rw [stack, out, empty]
      omega

/-- What an answer of `read` means for the codes. -/
theorem Answer.delivers {bufferLength : Nat} {answer : Except Fault (List UInt8)}
    (answered : Answer reader bufferLength (answer, next))
    (delivers : Delivers codes delivered reader) :
    match answer with
    | .ok bytes =>
      Delivers codes (delivered ++ bytes) next ∧
        next.bytesLeft + (next.out.drop next.outPos).length + bytes.length ≤
          reader.bytesLeft + (reader.out.drop reader.outPos).length ∧
        (0 < bufferLength → bytes = [] → Sync codes delivered next)
    | .error _ => ¬codes.Every (Decodable codes) next.codes := by
  obtain ⟨sync, ended⟩ := delivers
  -- Before a block is filled, what is left of the one before has been delivered.
  have emptied (none : ¬reader.outPos < reader.out.length) :
      reader.out.drop reader.outPos = [] := List.drop_of_length_le (Nat.not_lt.mp none)
  have cleared (none : ¬reader.outPos < reader.out.length) :
      Sync codes (delivered ++ ([] : List UInt8) ++ reader.stack)
        { reader with out := [] } := by
    rw [emptied none] at sync
    exact sync.congr rfl rfl rfl
  have left_eq : ({ reader with out := [] } : UnixCompressReader).bytesLeft = reader.bytesLeft :=
    rfl
  cases answered with
  | deliver left =>
    have split : reader.out.drop reader.outPos =
        (reader.out.drop reader.outPos).take bufferLength ++
          reader.out.drop (reader.outPos +
            ((reader.out.drop reader.outPos).take bufferLength).length) := by
      rw [← List.drop_drop]
      exact (take_append_drop_length_take _ _).symm
    refine ⟨⟨?_, ended⟩, ?_, ?_⟩
    · dsimp only
      rw [List.append_assoc delivered, ← split]
      exact sync.congr rfl rfl rfl
    · have lengths := congrArg List.length split
      rw [List.length_append] at lengths
      unfold bytesLeft
      dsimp only
      omega
    · intro room none
      have length := congrArg List.length none
      rw [List.length_take, List.length_drop, List.length_nil] at length
      omega
  | ended none atEnd =>
    refine ⟨by rw [List.append_nil]; exact ⟨sync, ended⟩, by rw [List.length_nil, Nat.add_zero],
      fun _ _ => ?_⟩
    rw [emptied none, ended atEnd, List.append_nil, List.append_nil] at sync
    exact sync
  | fault none filled => exact filled.sync (cleared none) ended
  | @filled after none filled some start =>
    obtain ⟨sync', ended', bound⟩ := filled.sync (cleared none) ended
    dsimp only at sync' ended' bound
    have split : after.out = after.out.take bufferLength ++
        after.out.drop (after.out.take bufferLength).length :=
      (take_append_drop_length_take _ _).symm
    refine ⟨⟨?_, ended'⟩, ?_, ?_⟩
    · dsimp only
      rw [List.append_assoc delivered, ← split]
      exact sync'.congr rfl rfl rfl
    · have lengths := congrArg List.length split
      rw [List.length_append] at lengths
      have same : ({ after with
          outPos := (after.out.take bufferLength).length } : UnixCompressReader).bytesLeft =
            after.bytesLeft := rfl
      rw [left_eq, List.length_nil] at bound
      rw [emptied none, same, List.length_nil]
      dsimp only
      omega
    · intro room empty
      have length := congrArg List.length empty
      have positive := List.length_pos_iff.mpr some
      rw [List.length_take, List.length_nil] at length
      omega
  | finished none filled empty atEnd =>
    obtain ⟨sync', ended', bound⟩ := filled.sync (cleared none) ended
    dsimp only at sync' ended' bound
    have stack := ended' atEnd
    refine ⟨⟨?_, ended'⟩, ?_, fun _ _ => ?_⟩
    · rw [empty, List.drop_nil, List.append_nil]
      rw [empty] at sync'
      exact sync'
    · rw [left_eq, List.length_nil] at bound
      rw [emptied none, empty, List.drop_nil, List.length_nil]
      omega
    · rw [empty, stack, List.append_nil, List.append_nil] at sync'
      exact sync'

/-- `read` as a relation. -/
def Reads (reader : UnixCompressReader) (bufferLength : Nat)
    (answer : Except Fault (List UInt8)) (next : UnixCompressReader) : Prop :=
  reader.read bufferLength = (answer, next)

/-- Opening a stream and reading it to the end with buffers of the given sizes comes to
an outcome, and these codes are extracted. -/
def DecodesTo (inner : List InnerRead) (sizes : Nat → Nat) (outcome : Except Fault (List UInt8))
    (extracted : List Nat) : Prop :=
  match new inner with
  | (.error fault, reader) => outcome = .error fault ∧ extracted = reader.codes
  | (.ok (), reader) =>
    ∃ final, ReadsToEnd Reads sizes reader outcome final ∧ extracted = final.codes

section

variable {bytes : List UInt8} {status : UnixCompress.Status} {input : Input}

section

variable (header : readHeader (bytes.map .byte) = (.ok status, input))
include header

/-- Behind the header nothing is decoded yet. -/
theorem sync_opened :
    Sync status.lzw [] { input := input, status := status } := by
  have wf := (Reaches.opened header).wf
  have known := header_readHeader (bytes.map .byte)
  rw [header] at known
  cases known with
  | accepted width suffix few =>
    have only : OnlyBytes (bytes.map .byte) := by
      intro read member
      obtain ⟨value, -, same⟩ := List.mem_map.mp member
      exact ⟨value, same.symm⟩
    refine ⟨wf, rfl, only.suffix suffix, Codes.every_nil _ _, fun _ => Codes.every_nil _ _,
      fun _ => rfl, .inr ⟨rfl, fun _ => ⟨.empty, rfl, Keeps.empty _, nofun⟩⟩⟩

theorem delivers_new :
    match new (bytes.map .byte) with
    | (.error _, reader) => ¬status.lzw.Every (Decodable status.lzw) reader.codes
    | (.ok (), reader) => Delivers status.lzw [] reader := by
  have sync := sync_opened header
  have next := next_nextCode sync.wf rfl
  have coded := next.coded sync.wf
  have synced := next.sync sync
  unfold new
  rw [header]
  dsimp only
  generalize nextCode { input := input, status := status } = result at coded synced
  obtain ⟨answer, reader⟩ := result
  have out : reader.out = [] := coded.out
  cases answer with
  | error fault => exact synced
  | ok more =>
    have atEnd : reader.endOfStream = false := coded.endOfStream
    refine ⟨?_, fun ended => absurd (ended.symm.trans atEnd) nofun⟩
    rw [out, List.drop_nil]
    cases more with
    | true => exact synced
    | false =>
      have stack : reader.stack = [] := coded.kept nofun
      rw [stack]
      exact synced.1

/-- The outcome of reading a stream to its end, by the codes that are extracted. -/
theorem outcome_of_decodesTo {sizes : Nat → Nat} (positive : ∀ index, 0 < sizes index)
    {outcome : Except Fault (List UInt8)} {extracted : List Nat}
    (decodes : DecodesTo (bytes.map .byte) sizes outcome extracted) :
    (∃ produced, outcome = .ok produced ∧ status.lzw.Every (Decodable status.lzw) extracted ∧
      (NeverOverruns status.lzw extracted → status.lzw.decode extracted = some produced) ∧
      (1024 ≤ status.lzw.capacity → NeverOverruns status.lzw extracted)) ∨
    (outcome.toOption = none ∧ ¬status.lzw.Every (Decodable status.lzw) extracted) := by
  have opened := delivers_new header
  unfold DecodesTo at decodes
  generalize new (bytes.map .byte) = result at opened decodes
  obtain ⟨answer, reader⟩ := result
  cases answer with
  | error fault =>
    obtain ⟨rfl, rfl⟩ := decodes
    exact .inr ⟨rfl, opened⟩
  | ok opening =>
    obtain ⟨final, reads, rfl⟩ := decodes
    have delivers : ∀ {delivered state size bytes next}, Delivers status.lzw delivered state →
        Reads state size (.ok bytes) next → bytes ≠ [] →
        Delivers status.lzw (delivered ++ bytes) next := by
      intro delivered state size bytes next delivers answered some
      have answer := answer_read delivers.sync.wf size
      rw [answered] at answer
      exact (answer.delivers delivers).1
    obtain ⟨produced, last, index, held, ending⟩ := reads.invariant delivers opened
    rw [List.nil_append] at held
    have answer := answer_read held.sync.wf (sizes index)
    rcases ending with ⟨rfl, ended⟩ | ⟨source, rfl, failed⟩
    · rw [ended] at answer
      have sync := (answer.delivers held).2.2 (positive index) rfl
      exact .inl ⟨produced, rfl, sync.decodable, sync.decoded, sync.wide⟩
    · rw [failed] at answer
      exact .inr ⟨rfl, answer.delivers held⟩

theorem exists_decodesTo {sizes : Nat → Nat} (positive : ∀ index, 0 < sizes index) :
    ∃ outcome extracted, DecodesTo (bytes.map .byte) sizes outcome extracted := by
  have opened := delivers_new header
  unfold DecodesTo
  generalize new (bytes.map .byte) = result at opened
  obtain ⟨answer, reader⟩ := result
  cases answer with
  | error fault => exact ⟨_, _, rfl, rfl⟩
  | ok opening =>
    have answers : ∀ {state : UnixCompressReader} {size},
        (∃ delivered, Delivers status.lzw delivered state) → 0 < size →
        ∃ answer next, Reads state size answer next ∧
          ∀ bytes, answer = .ok bytes → bytes ≠ [] →
            (∃ delivered, Delivers status.lzw delivered next) ∧
              next.bytesLeft + (next.out.drop next.outPos).length <
                state.bytesLeft + (state.out.drop state.outPos).length := by
      rintro state size ⟨delivered, delivers⟩ room
      have answer := answer_read delivers.sync.wf size
      rcases result : state.read size with ⟨answered, next⟩
      rw [result] at answer
      refine ⟨answered, next, result, ?_⟩
      rintro bytes rfl some
      obtain ⟨delivers', bound, -⟩ := answer.delivers delivers
      have positive := List.length_pos_iff.mpr some
      exact ⟨⟨_, delivers'⟩, by omega⟩
    obtain ⟨outcome, final, reads⟩ := exists_readsToEnd
      (fun state => ∃ delivered, Delivers status.lzw delivered state)
      (fun state => state.bytesLeft + (state.out.drop state.outPos).length) answers positive
      ⟨[], opened⟩
    exact ⟨outcome, final.codes, final, reads, rfl⟩

end

/-- **The decoder implements LZW.** For buffers of every size, reading an accepted stream
comes to an outcome. It is the outcome of LZW on the codes extracted, unless all of these
are decodable and one overruns a dictionary that is full. With a declared width of ten
bits or more, none does. -/
theorem unix_compress_is_lzw_iff (header : readHeader (bytes.map .byte) = (.ok status, input))
    {sizes : Nat → Nat} (positive : ∀ index, 0 < sizes index) :
    (∃ outcome extracted, DecodesTo (bytes.map .byte) sizes outcome extracted) ∧
      ∀ outcome extracted, DecodesTo (bytes.map .byte) sizes outcome extracted →
        (outcome.toOption = status.lzw.decode extracted ↔
          (status.lzw.Every (Decodable status.lzw) extracted →
            NeverOverruns status.lzw extracted)) ∧
        (10 ≤ status.maxcodeBits → outcome.toOption = status.lzw.decode extracted) := by
  refine ⟨exists_decodesTo header positive, fun outcome extracted decodes => ?_⟩
  have wf := (sync_opened header).wf.status
  have literals : 256 ≤ status.lzw.first := by
    change 256 ≤ if status.useResetCode = true then 257 else 256
    split <;> decide
  have assigned_of_decode {produced : List UInt8}
      (decoded : status.lzw.decode extracted = some produced) :
      status.lzw.Every status.lzw.Assigned extracted := by
    rcases status.lzw.run_spec extracted with ⟨failed, -⟩ | ⟨_, _, -, every, -⟩
    · unfold Codes.decode at decoded
      rw [failed] at decoded
      cases decoded
    · exact every
  have agreement : outcome.toOption = status.lzw.decode extracted ↔
      (status.lzw.Every (Decodable status.lzw) extracted →
        NeverOverruns status.lzw extracted) := by
    rcases outcome_of_decodesTo header positive decodes with
      ⟨produced, rfl, decodable, decoded, -⟩ | ⟨failed, undecodable⟩
    · constructor
      · intro same _
        refine (assigned_of_decode same.symm).imp fun front code assigned overruns => ?_
        have first := status.lzw.first_le_next front
        have small : status.lzw.literals = 256 := rfl
        obtain ⟨next, -, full⟩ := overruns
        rcases assigned with below | ⟨-, below⟩ | ⟨-, -, room⟩ <;> omega
      · intro never
        exact (decoded (never decodable)).symm
    · refine ⟨fun _ decodable => absurd decodable undecodable, fun _ => ?_⟩
      rw [failed]
      cases decoded : status.lzw.decode extracted with
      | none => rfl
      | some produced =>
        exact absurd ((assigned_of_decode decoded).imp fun _ _ => .inl) undecodable
  refine ⟨agreement, fun declared => agreement.mpr fun decodable => ?_⟩
  have large : 1024 ≤ status.lzw.capacity := by
    change 2 ^ 10 ≤ status.maxcode
    rw [wf.maxcode]
    exact Nat.pow_le_pow_right (by decide) declared
  rcases outcome_of_decodesTo header positive decodes with ⟨_, -, -, -, wide⟩ | ⟨-, undecodable⟩
  · exact wide large
  · exact absurd decodable undecodable

end

/-- Opening and one answer of `read`, computed. -/
theorem decodesTo_of_one_answer {inner : List InnerRead} {size : Nat} {bytes : List UInt8}
    (opened : (new inner).1 = .ok ()) (answer : ((new inner).2.read size).1 = .ok bytes)
    (some : bytes ≠ []) (ended : (((new inner).2.read size).2.read size).1 = .ok []) :
    DecodesTo inner (fun _ => size) (.ok bytes)
      (((new inner).2.read size).2.read size).2.codes := by
  have result : new inner = (.ok (), (new inner).2) := Prod.ext opened rfl
  have reads : ReadsToEnd Reads (fun _ => size) (new inner).2
      ((Except.ok []).map (bytes ++ ·)) (((new inner).2.read size).2.read size).2 :=
    .more (Prod.ext answer rfl) some (.ended (Prod.ext ended rfl))
  unfold DecodesTo
  rw [result]
  rw [← List.append_nil bytes]
  exact ⟨_, reads, rfl⟩

/-- Two literals and two strings of the dictionary, in codes of nine bits. The first string is read
before it is complete. -/
def repeatedStrings : List InnerRead :=
  [0x1f, 0x9d, 0x10, 0x41, 0x00, 0x0a, 0x09, 0x08].map .byte

theorem repeated_strings_are_lzw :
    DecodesTo repeatedStrings (fun _ => 7) (.ok [65, 65, 65, 66, 65, 65, 66]) [65, 256, 66, 257] ∧
      some [65, 65, 65, 66, 65, 65, 66] = (initialStatus 0x10).lzw.decode [65, 256, 66, 257] := by
  have decodes : DecodesTo repeatedStrings (fun _ => 7) (.ok [65, 65, 65, 66, 65, 65, 66])
      [65, 256, 66, 257] := by
    have decodes := @decodesTo_of_one_answer repeatedStrings 7 [65, 65, 65, 66, 65, 65, 66]
      (by decide +kernel) (by decide +kernel) (by decide) (by decide +kernel)
    have extracted : (((new repeatedStrings).2.read 7).2.read 7).2.codes =
      [65, 256, 66, 257] := by decide +kernel
    rwa [extracted] at decodes
  have header : readHeader repeatedStrings =
      (.ok (initialStatus 0x10), (readHeader repeatedStrings).2) := rfl
  exact ⟨decodes, ((unix_compress_is_lzw_iff header fun _ => by decide).2 _ _ decodes).2
    (by decide)⟩

/-- Behind a full dictionary of literals, the code 256 stands for nothing: the decoder takes
it for the old string and its first byte, and then for two zeros and the byte before. -/
theorem overrun_is_decoded :
    DecodesTo ([0x1f, 0x9d, 0x08, 0x41, 0x00, 0x02, 0x04].map .byte) (fun _ => 8)
        (.ok [0x41, 0x41, 0x41, 0, 0, 0x41]) [65, 256, 256] ∧
      (initialStatus 0x08).lzw.decode [65, 256, 256] = none := by
  have decodes := @decodesTo_of_one_answer ([0x1f, 0x9d, 0x08, 0x41, 0x00, 0x02, 0x04].map .byte) 8
    [0x41, 0x41, 0x41, 0, 0, 0x41] (by decide +kernel) (by decide +kernel) (by decide)
    (by decide +kernel)
  have extracted :
      (((new ([0x1f, 0x9d, 0x08, 0x41, 0x00, 0x02, 0x04].map .byte)).2.read 8).2.read 8).2.codes =
        [65, 256, 256] := by decide +kernel
  rw [extracted] at decodes
  exact ⟨decodes, by decide +kernel⟩

end UnixCompressReader

end ZManager
