import ZManager.Foundation.Bytes
import ZManager.Safety.Policy

/-! # Decoding uuencoded and base64 text

`UuDecoder` reads a text of `begin` lines and encoded lines from an inner reader,
chunk by chunk, and hands the decoded bytes out. A call of `read` refills the
output until it holds something or the decoder has finished.
-/

namespace ZManager

/-- The states of the decoder. -/
inductive UuState where
  | findHead
  | readUu
  | uuEnd
  | readBase64
  | ignore
  deriving DecidableEq

/-- The decoder: what the inner reader still yields, the input that is buffered with
the part that is consumed, and the output with the part that is handed out. -/
structure UuDecoder where
  inner : List (List UInt8)
  state : UuState
  input : List UInt8
  pos : Nat
  scanned : Nat
  total : Nat
  out : List UInt8
  outPos : Nat
  finished : Bool

namespace Uu

def maxScan : Nat := 128 * 1024

def maxLine : Nat := 128 * 1024

def outBuffSize : Nat := 64 * 1024

def insufficient : IoError := ⟨.invalidData, "insufficient uuencode data"⟩

/-! ## Characters -/

/-- A character of the uuencoding. -/
def isUuChar (byte : UInt8) : Bool := 0x20 ≤ byte && byte ≤ 0x60

def uuDecode (byte : UInt8) : Nat := (byte - 0x20).toNat % 64

def isAsciiAlphanumeric (byte : UInt8) : Bool :=
  (0x41 ≤ byte && byte ≤ 0x5a) || (0x61 ≤ byte && byte ≤ 0x7a) || (0x30 ≤ byte && byte ≤ 0x39)

def isBase64Char (byte : UInt8) : Bool :=
  isAsciiAlphanumeric byte || byte = 0x2b || byte = 0x2f || byte = 0x3d

def base64Value (byte : UInt8) : Nat :=
  if 0x41 ≤ byte ∧ byte ≤ 0x5a then byte.toNat - 0x41
  else if 0x61 ≤ byte ∧ byte ≤ 0x7a then byte.toNat - 0x61 + 26
  else if 0x30 ≤ byte ∧ byte ≤ 0x39 then byte.toNat - 0x30 + 52
  else if byte = 0x2b then 62
  else if byte = 0x2f then 63
  else 0

/-! ## Lines -/

/-- Where the first line of the buffered input ends. -/
inductive LineEnd where
  | found (contentEnd nlSize : Nat)
  | pending
  | invalid
  deriving DecidableEq

/-- Looks for the end of a line from an index on. -/
def locateLineEnd : List UInt8 → Nat → LineEnd
  | [], _ => .pending
  | byte :: rest, index =>
    if byte = 0x0a then .found index 1
    else if byte = 0x0d then .found index (if rest.head? = some 0x0a then 2 else 1)
    else if 0x20 ≤ byte ∧ byte ≤ 0x7e then locateLineEnd rest (index + 1)
    else .invalid

/-- The groups of an uuencoded line that still has so many bytes: what is decoded,
and whether the line was long enough. -/
def decodeUuGroups : Nat → List UInt8 → List UInt8 × Except IoError Unit
  | 0, _ => ([], .ok ())
  | count + 1, first :: second :: rest =>
    if !isUuChar first || !isUuChar second then ([], .error insufficient)
    else
      let value := uuDecode first * 2 ^ 18 + uuDecode second * 2 ^ 12
      let byte := UInt8.ofNat (value / 2 ^ 16)
      if count = 0 then ([byte], .ok ())
      else
        match rest with
        | [] => ([byte], .error insufficient)
        | third :: rest =>
          if !isUuChar third then ([byte], .error insufficient)
          else
            let value := value + uuDecode third * 2 ^ 6
            let byte' := UInt8.ofNat (value / 2 ^ 8)
            if count = 1 then ([byte, byte'], .ok ())
            else
              match rest with
              | [] => ([byte, byte'], .error insufficient)
              | fourth :: rest =>
                if !isUuChar fourth then ([byte, byte'], .error insufficient)
                else
                  let byte'' := UInt8.ofNat (value + uuDecode fourth)
                  let (more, result) := decodeUuGroups (count - 2) rest
                  (byte :: byte' :: byte'' :: more, result)
  | _ + 1, _ => ([], .error insufficient)

/-- The groups of a base64 line: what is decoded, and what is left where decoding
stopped. -/
def decodeBase64Groups : List UInt8 → List UInt8 × List UInt8
  | first :: second :: rest =>
    if !isBase64Char first || !isBase64Char second then ([], first :: second :: rest)
    else
      let value := base64Value first * 2 ^ 18 + base64Value second * 2 ^ 12
      let byte := UInt8.ofNat (value / 2 ^ 16)
      match rest with
      | [] => ([byte], [])
      | third :: rest =>
        if third = 0x3d || !isBase64Char third then ([byte], third :: rest)
        else
          let value := value + base64Value third * 2 ^ 6
          let byte' := UInt8.ofNat (value / 2 ^ 8)
          match rest with
          | [] => ([byte, byte'], [])
          | fourth :: rest =>
            if fourth = 0x3d || !isBase64Char fourth then ([byte, byte'], fourth :: rest)
            else
              let byte'' := UInt8.ofNat (value + base64Value fourth)
              let (more, left) := decodeBase64Groups rest
              (byte :: byte' :: byte'' :: more, left)
  | rest => ([], rest)

end Uu

namespace UuDecoder

open Uu

def new (inner : List (List UInt8)) : UuDecoder :=
  ⟨inner, .findHead, [], 0, 0, 0, [], 0, false⟩

/-- `"begin "` and `"begin-base64 "`. -/
def beginUu : List UInt8 := [0x62, 0x65, 0x67, 0x69, 0x6e, 0x20]

def beginBase64 : List UInt8 :=
  [0x62, 0x65, 0x67, 0x69, 0x6e, 0x2d, 0x62, 0x61, 0x73, 0x65, 0x36, 0x34, 0x20]

/-- Three octal digits and a blank at an offset. -/
def hasValidMode (line : List UInt8) (offset : Nat) : Bool :=
  match (line.drop offset).take 4 with
  | [first, second, third, blank] =>
    [first, second, third].all (fun digit => 0x30 ≤ digit && digit ≤ 0x37) && blank = 0x20
  | _ => false

/-- Searches for the next header line. -/
def findHeader (decoder : UuDecoder) (line : List UInt8) : Except IoError Unit × UuDecoder :=
  let decoder := { decoder with scanned := decoder.scanned + line.length + 1 }
  if maxScan < decoder.scanned then
    (.error ⟨.invalidData, "invalid uuencode format data"⟩, decoder)
  else
    let offset :=
      if 11 ≤ line.length ∧ beginUu.isPrefixOf line then some 6
      else if 18 ≤ line.length ∧ beginBase64.isPrefixOf line then some 13
      else none
    match offset with
    | none => (.ok (), decoder)
    | some offset =>
      if hasValidMode line offset then
        (.ok (), { decoder with
          state := if offset = 6 then .readUu else .readBase64, scanned := 0 })
      else (.ok (), decoder)

/-- The bytes of an uuencoded line. -/
def decodeUuLine (decoder : UuDecoder) (line : List UInt8) : Except IoError Unit × UuDecoder :=
  match line with
  | [] => (.error insufficient, decoder)
  | first :: body =>
    if !isUuChar first then (.error insufficient, decoder)
    else if body.length < uuDecode first then (.error insufficient, decoder)
    else if uuDecode first = 0 then (.ok (), { decoder with state := .uuEnd })
    else
      let (bytes, result) := decodeUuGroups (uuDecode first) body
      (result, { decoder with out := decoder.out ++ bytes })

/-- Expects the end line: exactly `end`. -/
def expectEndLine (decoder : UuDecoder) (line : List UInt8) : Except IoError Unit × UuDecoder :=
  if line = [0x65, 0x6e, 0x64] then (.ok (), { decoder with state := .findHead })
  else (.error insufficient, decoder)

/-- The bytes of a base64 line. -/
def decodeBase64Line (decoder : UuDecoder) (line : List UInt8) :
    Except IoError Unit × UuDecoder :=
  if [0x3d, 0x3d, 0x3d].isPrefixOf line then (.ok (), { decoder with state := .findHead })
  else
    let (bytes, left) := decodeBase64Groups line
    let decoder := { decoder with out := decoder.out ++ bytes }
    if left.head?.any (· ≠ 0x3d) then (.error insufficient, decoder) else (.ok (), decoder)

/-- Runs one complete line through the state machine. The refill loop never gets
here in the state `ignore`. -/
def processLine (decoder : UuDecoder) (line : List UInt8) : Except IoError Unit × UuDecoder :=
  match decoder.state with
  | .findHead => findHeader decoder line
  | .readUu => decodeUuLine decoder line
  | .uuEnd => expectEndLine decoder line
  | .readBase64 => decodeBase64Line decoder line
  | .ignore => (.ok (), decoder)

/-! ## Refilling -/

/-- How one round of the refill loop ends. -/
inductive FillOutcome where
  | more (decoder : UuDecoder) (produced : Nat)
  | done (decoder : UuDecoder)
  | failed (source : IoError) (decoder : UuDecoder)

/-- Drops the consumed input. -/
def compact (decoder : UuDecoder) : UuDecoder :=
  { decoder with input := decoder.input.drop decoder.pos, pos := 0 }

/-- The end of the inner reader. -/
def atEndOfStream (decoder : UuDecoder) (produced : Nat) : FillOutcome :=
  if decoder.input = [] then .done { decoder with finished := true }
  else if decoder.state = .uuEnd then
    match decoder.processLine decoder.input with
    | (.error source, decoder) => .failed source decoder
    | (.ok (), decoder) => .done { decoder with finished := true }
  else if produced = 0 then
    .failed ⟨.invalidData, "missing uuencode format data"⟩ decoder
  else .done { decoder with finished := true }

/-- Reads a further chunk when no line is complete. A read of no bytes is the end. -/
def readChunk (decoder : UuDecoder) (produced : Nat) : FillOutcome :=
  if maxLine < decoder.input.length then
    .failed ⟨.invalidData, "invalid uuencode line length"⟩ decoder
  else
    match decoder.inner with
    | [] => decoder.atEndOfStream produced
    | chunk :: rest =>
      if chunk = [] then { decoder with inner := rest }.atEndOfStream produced
      else .more { decoder with inner := rest, input := decoder.input ++ chunk } produced

/-- Decodes a line of the buffered input, unless its bytes might not fit. -/
def takeLine (decoder : UuDecoder) (produced contentEnd nlSize : Nat) : FillOutcome :=
  if (decoder.state = .readUu ∨ decoder.state = .readBase64) ∧
      outBuffSize < decoder.out.length + (contentEnd + nlSize) * 2 then
    .done { decoder with finished := decoder.finished || decoder.out.isEmpty }
  else
    match { decoder with pos := contentEnd + nlSize }.processLine
        (decoder.input.take contentEnd) with
    | (.error source, decoder) => .failed source decoder
    | (.ok (), next) => .more next (produced + (next.out.length - decoder.out.length))

/-- One round of the refill loop; `produced` bytes were decoded in the rounds
before. -/
def fillStep (decoder : UuDecoder) (produced : Nat) : FillOutcome :=
  let decoder := decoder.compact
  if decoder.state = .ignore then .done { decoder with input := [] }
  else
    match locateLineEnd decoder.input 0 with
    | .invalid =>
      if decoder.state = .findHead ∧ (0 < decoder.total ∨ 0 < produced) then
        .done { decoder with state := .ignore, input := [] }
      else .failed insufficient decoder
    | .pending => decoder.readChunk produced
    | .found contentEnd nlSize => decoder.takeLine produced contentEnd nlSize

/-- The bytes and the reads that are left. -/
def unread (decoder : UuDecoder) : Nat :=
  (decoder.input.length - decoder.pos) + decoder.inner.flatten.length + decoder.inner.length

/-! ### What a round can do -/

theorem locateLineEnd_found {bytes : List UInt8} {index contentEnd nlSize : Nat}
    (found : locateLineEnd bytes index = .found contentEnd nlSize) :
    index ≤ contentEnd ∧ 1 ≤ nlSize ∧ contentEnd + nlSize ≤ index + bytes.length := by
  induction bytes generalizing index with
  | nil => cases found
  | cons byte rest ih =>
    unfold locateLineEnd at found
    rw [List.length_cons]
    split_ifs at found with newline carriage paired printable
    · cases found
      omega
    · cases found
      cases rest with
      | nil => cases paired
      | cons next others =>
        rw [List.length_cons]
        omega
    · cases found
      omega
    · have later := ih found
      omega

/-- The state, the scan and the output have changed only, and the state is not
`ignore`. -/
def Advances (decoder next : UuDecoder) : Prop :=
  ∃ state scanned bytes, state ≠ UuState.ignore ∧
    next = { decoder with state := state, scanned := scanned, out := decoder.out ++ bytes }

section

variable {decoder next : UuDecoder} {line : List UInt8} {result : Except IoError Unit}

theorem advances_state {state : UuState} (proper : state ≠ .ignore) (scanned : Nat) :
    Advances decoder { decoder with state := state, scanned := scanned } :=
  ⟨state, scanned, [], proper, by rw [List.append_nil]⟩

section

variable (usable : decoder.state ≠ .ignore)
include usable

theorem advances_findHeader :
    Advances decoder (decoder.findHeader line).2 := by
  unfold findHeader
  generalize (if 11 ≤ line.length ∧ beginUu.isPrefixOf line then some 6
    else if 18 ≤ line.length ∧ beginBase64.isPrefixOf line then some 13 else none) = offset
  by_cases far : maxScan < decoder.scanned + line.length + 1
  · simp only [far, ↓reduceIte]
    exact advances_state usable _
  · simp only [far, ↓reduceIte]
    cases offset with
    | none => exact advances_state usable _
    | some offset =>
      by_cases valid : hasValidMode line offset
      · simp only [valid, ↓reduceIte]
        by_cases plain : offset = 6
        · rw [if_pos plain]
          exact advances_state UuState.noConfusion _
        · rw [if_neg plain]
          exact advances_state UuState.noConfusion _
      · simp only [valid]
        exact advances_state usable _

theorem advances_decodeUuLine :
    Advances decoder (decoder.decodeUuLine line).2 := by
  unfold decodeUuLine
  split
  · exact advances_state usable decoder.scanned
  · split_ifs
    · exact advances_state usable decoder.scanned
    · exact advances_state usable decoder.scanned
    · exact advances_state UuState.noConfusion decoder.scanned
    · exact ⟨_, _, _, usable, rfl⟩

theorem advances_expectEndLine :
    Advances decoder (decoder.expectEndLine line).2 := by
  unfold expectEndLine
  split_ifs
  · exact advances_state UuState.noConfusion decoder.scanned
  · exact advances_state usable decoder.scanned

theorem advances_decodeBase64Line :
    Advances decoder (decoder.decodeBase64Line line).2 := by
  unfold decodeBase64Line
  simp only
  split_ifs
  · exact advances_state UuState.noConfusion decoder.scanned
  · exact ⟨_, _, _, usable, rfl⟩
  · exact ⟨_, _, _, usable, rfl⟩

/-- A line changes the state, the scan and the output only, and never leads to the
state `ignore`. -/
theorem advances_processLine (done : decoder.processLine line = (result, next)) :
    Advances decoder next := by
  have same : (decoder.processLine line).2 = next := by rw [done]
  rw [← same]
  unfold processLine
  cases state : decoder.state with
  | findHead => exact advances_findHeader usable
  | readUu => exact advances_decodeUuLine usable
  | uuEnd => exact advances_expectEndLine usable
  | readBase64 => exact advances_decodeBase64Line usable
  | ignore => exact absurd state usable

end

end

/-- The round meets a byte that no text has while it searches for a further header
behind what is decoded. -/
def MeetsGarbage (decoder : UuDecoder) (produced : Nat) : Prop :=
  decoder.state = .findHead ∧ (0 < decoder.total ∨ 0 < produced) ∧
    locateLineEnd (decoder.input.drop decoder.pos) 0 = .invalid

instance (decoder : UuDecoder) (produced : Nat) : Decidable (MeetsGarbage decoder produced) :=
  inferInstanceAs (Decidable (_ ∧ _ ∧ _))

section

variable {decoder next : UuDecoder} {produced produced' : Nat} {source : IoError}

theorem compact_unread (decoder : UuDecoder) : decoder.compact.unread = decoder.unread := by
  unfold unread compact
  rw [List.length_drop, Nat.sub_zero]

/-- The end of the input finishes the decoder or is an error. -/
theorem atEndOfStream_cases (usable : decoder.state ≠ .ignore) :
    (∃ last, decoder.atEndOfStream produced = .done last ∧ last.finished = true ∧
        last.state ≠ .ignore) ∨
      ∃ source last, decoder.atEndOfStream produced = .failed source last ∧
        last.state ≠ .ignore := by
  unfold atEndOfStream
  by_cases empty : decoder.input = []
  · rw [if_pos empty]
    exact .inl ⟨_, rfl, rfl, usable⟩
  rw [if_neg empty]
  by_cases ending : decoder.state = .uuEnd
  · rw [if_pos ending]
    rcases processed : decoder.processLine decoder.input with ⟨result, last⟩
    obtain ⟨state, scanned, bytes, proper, rfl⟩ := advances_processLine usable processed
    cases result with
    | error source => exact .inr ⟨_, _, rfl, proper⟩
    | ok _ => exact .inl ⟨_, rfl, rfl, proper⟩
  rw [if_neg ending]
  by_cases nothing : produced = 0
  · rw [if_pos nothing]
    exact .inr ⟨_, _, rfl, usable⟩
  · rw [if_neg nothing]
    exact .inl ⟨_, rfl, rfl, usable⟩

/-- What a round of the refill loop can do. -/
inductive Round (decoder : UuDecoder) (produced : Nat) : FillOutcome → Prop
  | ignored (is : decoder.state = .ignore) :
      Round decoder produced (.done { decoder.compact with input := [] })
  | garbage (met : MeetsGarbage decoder produced) :
      Round decoder produced (.done { decoder.compact with state := .ignore, input := [] })
  | finished {last : UuDecoder} (usable : decoder.state ≠ .ignore) (ends : last.finished = true)
      (proper : last.state ≠ .ignore) : Round decoder produced (.done last)
  | full (usable : decoder.state ≠ .ignore) (output : decoder.out ≠ []) :
      Round decoder produced (.done decoder.compact)
  | failed {source : IoError} {last : UuDecoder} (usable : decoder.state ≠ .ignore)
      (proper : last.state ≠ .ignore) : Round decoder produced (.failed source last)
  | chunk {chunk : List UInt8} {rest : List (List UInt8)} (usable : decoder.state ≠ .ignore)
      (inner : decoder.inner = chunk :: rest) :
      Round decoder produced (.more { decoder.compact with
        inner := rest, input := decoder.compact.input ++ chunk } produced)
  | line {next : UuDecoder} {size produced' : Nat} (usable : decoder.state ≠ .ignore)
      (some_byte : 0 < size) (inside : size ≤ decoder.compact.input.length)
      (advances : Advances { decoder.compact with pos := size } next) :
      Round decoder produced (.more next produced')

theorem round_readChunk (usable : decoder.state ≠ .ignore) :
    Round decoder produced (decoder.compact.readChunk produced) := by
  have ended : ∀ inner, Round decoder produced
      ({ decoder.compact with inner := inner }.atEndOfStream produced) := by
    intro inner
    have proper : { decoder.compact with inner := inner }.state ≠ .ignore := usable
    rcases @atEndOfStream_cases _ produced proper with
      ⟨last, done, ends, proper⟩ | ⟨source, last, failed, proper⟩
    · rw [done]
      exact .finished usable ends proper
    · rw [failed]
      exact .failed usable proper
  unfold readChunk
  by_cases long : maxLine < decoder.compact.input.length
  · rw [if_pos long]
    exact .failed usable usable
  rw [if_neg long]
  cases inner : decoder.compact.inner with
  | nil =>
    have same := ended decoder.compact.inner
    exact same
  | cons chunk rest =>
    by_cases empty : chunk = []
    · simp only [empty, ↓reduceIte]
      exact ended rest
    · simp only [empty, ↓reduceIte]
      exact .chunk usable inner

theorem round_takeLine {contentEnd nlSize : Nat} (usable : decoder.state ≠ .ignore)
    (found : locateLineEnd decoder.compact.input 0 = .found contentEnd nlSize) :
    Round decoder produced (decoder.compact.takeLine produced contentEnd nlSize) := by
  obtain ⟨-, some_byte, inside⟩ := locateLineEnd_found found
  unfold takeLine
  by_cases cap : (decoder.compact.state = .readUu ∨ decoder.compact.state = .readBase64) ∧
      outBuffSize < decoder.compact.out.length + (contentEnd + nlSize) * 2
  · rw [if_pos cap]
    cases held : decoder.out with
    | nil =>
      refine .finished usable ?_ usable
      simp [compact, held]
    | cons byte rest =>
      have same : { decoder.compact with
          finished := decoder.compact.finished || decoder.compact.out.isEmpty } =
            decoder.compact := by
        simp [compact, held]
      rw [same]
      exact .full usable (by rw [held]; exact List.cons_ne_nil _ _)
  · rw [if_neg cap]
    have proper : { decoder.compact with pos := contentEnd + nlSize }.state ≠ .ignore := usable
    rcases processed : { decoder.compact with pos := contentEnd + nlSize }.processLine
      (decoder.compact.input.take contentEnd) with ⟨result, last⟩
    have advances := advances_processLine proper processed
    rw [processed]
    cases result with
    | error source =>
      obtain ⟨state, scanned, bytes, proper, rfl⟩ := advances
      exact .failed usable proper
    | ok _ => exact .line usable (by omega) (by omega) advances

/-- **One round** of the refill loop. -/
theorem round_fillStep (decoder : UuDecoder) (produced : Nat) :
    Round decoder produced (decoder.fillStep produced) := by
  unfold fillStep
  simp only
  by_cases ignored : decoder.compact.state = .ignore
  · rw [if_pos ignored]
    exact .ignored ignored
  rw [if_neg ignored]
  cases located : locateLineEnd decoder.compact.input 0 with
  | invalid =>
    simp only
    by_cases searching : decoder.compact.state = .findHead ∧
        (0 < decoder.compact.total ∨ 0 < produced)
    · rw [if_pos searching]
      exact .garbage ⟨searching.1, searching.2, located⟩
    · rw [if_neg searching]
      exact .failed ignored ignored
  | pending => exact round_readChunk ignored
  | found contentEnd nlSize => exact round_takeLine ignored located

/-- What is known of a round with its outcome. -/
theorem round_of_step {taken : FillOutcome} (step : decoder.fillStep produced = taken) :
    Round decoder produced taken :=
  step ▸ round_fillStep decoder produced

end

end UuDecoder

end ZManager
