import ZManager.Foundation.RingHistory

/-! # The sliding window of the LZX decoder

The window is a buffer that is written round and round. Its operations move the contents where
they would have to wrap around, and the position is zero when it stands at the end. For matches
that are no longer than the window it remembers the bytes that were written, however it moved
them (`window_refines_history`).
-/

namespace ZManager

namespace Wim

open ZManager.Bytes ZManager.Ring

/-- Failures of the decoder that the window reports. -/
inductive DecodeFailed where
  | windowTooSmall
  | chunkTooLong
  | unexpectedEof
  deriving DecidableEq

def maxChunkSize : Nat := 32768

/-- The bytes that a bitstream still holds. -/
structure Bitstream where
  buffer : List UInt8
  deriving DecidableEq

/-- The ring buffer of the decoder. -/
structure Window where
  pos : Nat
  buffer : List UInt8

/-- The window of a size. -/
def createBuffer (size : Nat) : Window := ⟨0, List.replicate size 0⟩

namespace Window

def advance (window : Window) (delta : Nat) : Window :=
  { window with pos := wrap window.buffer.length (window.pos + delta) }

/-! In the operations `none` stands for a panic: an index out of range, or an overflow. -/

def push (window : Window) (value : UInt8) : Option Window :=
  if window.pos < window.buffer.length then
    some (advance { window with buffer := window.buffer.set window.pos value } 1)
  else none

/-- The loop over the bytes of a match; the mask keeps the indices in range. -/
def copyBytes (pos offset : Nat) : (count i : Nat) → List UInt8 → List UInt8
  | 0, _, buffer => buffer
  | count + 1, i, buffer =>
    let mask := buffer.length - 1
    let dst := (pos + i) &&& mask
    let src := (buffer.length + pos + i - offset) &&& mask
    copyBytes pos offset count (i + 1) (buffer.set dst (buffer.getD src 0))

def copyFromSelf (window : Window) (offset length : Nat) : Option Window :=
  if offset ≤ window.pos ∧ length ≤ offset ∧ window.pos + length < window.buffer.length then
    let start := window.pos - offset
    -- `copy_within`
    let bytes := (window.buffer.drop start).take length
    some (advance { window with buffer := overwrite window.buffer window.pos bytes } length)
  else if 0 < length ∧ window.buffer.length + window.pos < offset then none
  else
    let buffer := copyBytes window.pos offset length 0 window.buffer
    some (advance { window with buffer := buffer } length)

/-- The place for so many bytes before the end of the buffer, where they would wrap around. -/
def makeRoom (window : Window) (len : Nat) : Option Window :=
  if window.buffer.length < window.pos + len then
    let shift := window.pos + len - window.buffer.length
    if window.buffer.length < shift then none
    -- What is about to be overwritten is not saved.
    else some ⟨window.pos - shift, overwrite window.buffer 0 (window.buffer.drop shift)⟩
  else some window

/-- The window changes before the bytes are read, also where they are not there. -/
def copyFromBitstream (window : Window) (bitstream : Bitstream) (len : Nat) :
    Option (Except DecodeFailed Bitstream × Window) :=
  if window.buffer.length < len then some (.error .windowTooSmall, window)
  else do
    let window ← window.makeRoom len
    -- `read_raw`
    if bitstream.buffer.length < len then some (.error .unexpectedEof, window)
    else
      let buffer := overwrite window.buffer window.pos (bitstream.buffer.take len)
      some (.ok ⟨bitstream.buffer.drop len⟩, advance { window with buffer := buffer } len)

/-- The contents rotated so that the last bytes stand in a row. -/
def unwrap (window : Window) (len : Nat) : Window :=
  if window.pos ≠ 0 ∧ window.pos < len then
    let shift := len - window.pos
    let window := window.advance shift
    { window with
      buffer := window.buffer.drop (window.buffer.length - shift) ++
        window.buffer.take (window.buffer.length - shift) }
  else window

def pastView (window : Window) (len : Nat) :
    Option (Except DecodeFailed (List UInt8) × Window) :=
  if maxChunkSize < len then some (.error .chunkTooLong, window)
  else
    let window := window.unwrap len
    -- Being at zero means being at the end.
    let pos := if window.pos = 0 then window.buffer.length else window.pos
    if window.buffer.length < pos then none
    else some (.ok ((window.buffer.drop (pos - len)).take len), window)

end Window

/-! ## Calls and what they answer -/

/-- A call of the window. -/
inductive Call where
  | push (value : UInt8)
  | copyFromSelf (offset length : Nat)
  | copyFromBitstream (bitstream : Bitstream) (len : Nat)
  | pastView (len : Nat)

/-- What a call returns. -/
inductive Answer where
  | done
  /-- The bytes were read; this is what the stream still holds. -/
  | read (bitstream : Bitstream)
  | view (bytes : List UInt8)
  | failed (failure : DecodeFailed)
  deriving DecidableEq

def Answer.ofRead : Except DecodeFailed Bitstream → Answer
  | .ok bitstream => read bitstream
  | .error failure => failed failure

def Answer.ofView : Except DecodeFailed (List UInt8) → Answer
  | .ok bytes => view bytes
  | .error failure => failed failure

/-- What a call does to the window. -/
def Window.call (window : Window) : Call → Option (Answer × Window)
  | .push value => (window.push value).map fun window => (.done, window)
  | .copyFromSelf offset length =>
    (window.copyFromSelf offset length).map fun window => (.done, window)
  | .copyFromBitstream bitstream len =>
    (window.copyFromBitstream bitstream len).map fun (read, window) => (.ofRead read, window)
  | .pastView len => (window.pastView len).map fun (view, window) => (.ofView view, window)

/-- A sequence of calls, with their answers. -/
def Window.calls (window : Window) : List Call → Option (List Answer × Window)
  | [] => some ([], window)
  | call :: rest => do
      let (answer, window) ← window.call call
      let (answers, window) ← window.calls rest
      some (answer :: answers, window)

/-- A call, and the calls behind it. -/
theorem Window.calls_cons {window next last : Window} {call : Call} {rest : List Call}
    {answer : Answer} {answers : List Answer} (called : window.call call = some (answer, next))
    (later : next.calls rest = some (answers, last)) :
    window.calls (call :: rest) = some (answer :: answers, last) := by
  rw [Window.calls, called, Option.bind_eq_bind, Option.bind_some]
  dsimp only
  rw [later]
  rfl

/-! ## Histories -/

/-- What a call answers and appends, in terms of all bytes so far. -/
def Call.onHistory (size : Nat) (history : List UInt8) : Call → Answer × List UInt8
  | push value => (.done, history ++ [value])
  | copyFromSelf offset length => (.done, repeatFrom offset length history)
  | copyFromBitstream bitstream len =>
    if size < len then (.failed .windowTooSmall, history)
    else if bitstream.buffer.length < len then (.failed .unexpectedEof, history)
    else (.read ⟨bitstream.buffer.drop len⟩, history ++ bitstream.buffer.take len)
  | pastView len =>
    if maxChunkSize < len then (.failed .chunkTooLong, history)
    else (.view (history.drop (history.length - len)), history)

def onHistory (size : Nat) (history : List UInt8) : List Call → List Answer × List UInt8
  | [] => ([], history)
  | call :: rest =>
    let (answer, history) := call.onHistory size history
    let (answers, history) := onHistory size history rest
    (answer :: answers, history)

/-- The offsets of matches are within the window. -/
def Call.InWindow (size : Nat) : Call → Prop
  | copyFromSelf offset _ => 0 < offset ∧ offset ≤ size
  | _ => True

instance (size : Nat) (call : Call) : Decidable (call.InWindow size) := by
  unfold Call.InWindow
  split <;> infer_instance

/-- Matches are no longer than the window, and no more bytes are asked for than the stream
holds, unless they are more than the window takes. -/
def Call.Bounded (size : Nat) : Call → Prop
  | copyFromSelf _ length => length ≤ size
  | copyFromBitstream bitstream len => len ≤ bitstream.buffer.length ∨ size < len
  | _ => True

instance (size : Nat) (call : Call) : Decidable (call.Bounded size) := by
  unfold Call.Bounded
  split <;> infer_instance

/-! ## The window remembers -/

section

variable {window : Window} {history : List UInt8}

variable {bits len : Nat}

/-- The window holds the end of the history. -/
def Window.Holds (window : Window) (history : List UInt8) : Prop :=
  Remembers window.buffer.length window.pos window.buffer history

theorem set_eq_overwrite {buffer : List UInt8} {index : Nat} (inside : index < buffer.length)
    (value : UInt8) : buffer.set index value = overwrite buffer index [value] := by
  unfold overwrite
  rw [List.set_eq_take_append_cons_drop, if_pos inside, List.append_assoc]
  rfl

/-- Written bytes are remembered. -/
theorem Window.Holds.write (holds : window.Holds history) {chunk : List UInt8}
    (room : window.pos + chunk.length ≤ window.buffer.length) :
    (advance { window with buffer := overwrite window.buffer window.pos chunk } chunk.length).Holds
      (history ++ chunk) := by
  have length := length_overwrite room
  have written := Remembers.overwrite holds room (Nat.le_refl _) (Nat.le_add_right _ _)
  unfold Holds advance
  dsimp only
  rw [length]
  exact written

theorem Window.Holds.push (holds : window.Holds history) (value : UInt8) :
    ∃ next, window.push value = some next ∧ next.Holds (history ++ [value]) ∧
      next.buffer.length = window.buffer.length := by
  have inside : window.pos < window.buffer.length := holds.inside
  unfold Window.push
  rw [if_pos inside, set_eq_overwrite inside]
  have room : window.pos + [value].length ≤ window.buffer.length := inside
  exact ⟨_, rfl, holds.write room, length_overwrite room⟩

/-- Each round of the loop appends the byte that stands `offset` places back. -/
theorem remembers_copyBytes {size pos offset count i : Nat} {buffer : List UInt8}
    (power : size = 2 ^ bits) (length : buffer.length = size) (positive : 0 < offset)
    (fits : offset ≤ size) (holds : Remembers size ((pos + i) % size) buffer history) :
    (Window.copyBytes pos offset count i buffer).length = size ∧
      Remembers size ((pos + i + count) % size) (Window.copyBytes pos offset count i buffer)
        (repeatFrom offset count history) := by
  induction count generalizing i buffer history with
  | zero => exact ⟨length, holds⟩
  | succ count ih =>
    have some_size : 0 < size := Nat.lt_of_lt_of_le positive fits
    have inside := holds.inside
    have masked : ∀ index, index &&& (size - 1) = index % size := by
      intro index
      rw [power, Nat.and_two_pow_sub_one_eq_mod]
    have source : (size + pos + i - offset) % size = slot size ((pos + i) % size) offset := by
      rw [Nat.add_assoc, sub_mod_eq_slot some_size positive fits]
    have here := holds.recent offset positive fits
    obtain ⟨value, found⟩ := toList_getElem?_back positive (Nat.le_trans fits holds.known)
    have read : buffer.getD ((size + pos + i - offset) % size) 0 = value := by
      rw [length, found] at here
      rw [source, List.getD_eq_getElem?_getD, here, Option.getD_some]
    have room : (pos + i) % size + [value].length ≤ buffer.length := inside
    have next := holds.overwrite room (Nat.le_of_eq length.symm) (Nat.le_add_right _ _)
    rw [length, List.length_singleton, wrap_eq_mod (by omega), Nat.mod_add_mod,
      Nat.add_assoc] at next
    obtain ⟨kept, rest⟩ := ih ((length_overwrite room).trans length) next
    rw [Window.copyBytes, length, masked, masked, read, set_eq_overwrite inside, repeatFrom,
      found]
    have position : pos + (i + 1) + count = pos + i + (count + 1) := by omega
    rw [position] at rest
    exact ⟨kept, rest⟩

section

variable (holds : window.Holds history)
include holds

/-- A match is copied, whether it wraps around, reaches into itself or neither. -/
theorem Window.Holds.copyFromSelf {offset length : Nat} (power : window.buffer.length = 2 ^ bits)
    (positive : 0 < offset) (fits : offset ≤ window.buffer.length)
    (short : length ≤ window.buffer.length) :
    ∃ next, window.copyFromSelf offset length = some next ∧
      next.Holds (repeatFrom offset length history) ∧
      next.buffer.length = window.buffer.length := by
  have inside : window.pos < window.buffer.length := holds.inside
  unfold Window.copyFromSelf
  by_cases straight : offset ≤ window.pos ∧ length ≤ offset ∧
      window.pos + length < window.buffer.length
  · obtain ⟨behind, apart, room⟩ := straight
    have stops : window.pos = if window.pos = 0 then window.buffer.length else window.pos := by
      rw [if_neg (by omega)]
    have same : (window.buffer.drop (window.pos - offset)).take length =
        (history.drop (history.length - offset)).take length := by
      rw [← holds.view fits stops behind, List.take_take, Nat.min_eq_left apart]
    have chunk : ((window.buffer.drop (window.pos - offset)).take length).length = length := by
      rw [List.length_take, List.length_drop]
      omega
    have fit : window.pos + ((window.buffer.drop (window.pos - offset)).take length).length ≤
        window.buffer.length := by
      rw [chunk]
      omega
    have written := holds.write fit
    rw [chunk] at written
    rw [if_pos ⟨behind, apart, room⟩, repeatFrom_eq_append apart (Nat.le_trans fits holds.known),
      ← same]
    exact ⟨_, rfl, written, length_overwrite fit⟩
  · rw [if_neg straight, if_neg (by omega)]
    have start : Remembers window.buffer.length ((window.pos + 0) % window.buffer.length)
        window.buffer history := by
      rw [Nat.add_zero, Nat.mod_eq_of_lt inside]
      exact holds
    obtain ⟨kept, copied⟩ := remembers_copyBytes power rfl positive fits start
    refine ⟨_, rfl, ?_, kept⟩
    unfold Holds advance
    dsimp only
    rw [kept, wrap_eq_mod (by omega)]
    exact copied

/-- There is room for bytes that the window takes, and what they will not push out is kept. -/
theorem Window.Holds.makeRoom (fits : len ≤ window.buffer.length) :
    ∃ next, window.makeRoom len = some next ∧
      next.buffer.length = window.buffer.length ∧
      next.pos + len ≤ window.buffer.length ∧
      Remembers (window.buffer.length - len) next.pos next.buffer history := by
  have inside : window.pos < window.buffer.length := holds.inside
  unfold Window.makeRoom
  by_cases wraps : window.buffer.length < window.pos + len
  · have kept := holds.shift (by omega : window.pos + len - window.buffer.length ≤ window.pos)
      (by omega)
    have room : 0 + (window.buffer.drop (window.pos + len - window.buffer.length)).length ≤
        window.buffer.length := by
      rw [List.length_drop]
      omega
    have place : window.pos - (window.pos + len - window.buffer.length) =
        window.buffer.length - len := by omega
    rw [place] at kept
    rw [if_pos wraps, if_neg (by omega), place]
    refine ⟨_, rfl, length_overwrite room, ?_, kept⟩
    dsimp only
    omega
  · rw [if_neg wraps]
    exact ⟨window, rfl, rfl, Nat.le_of_not_lt wraps, holds.fewer (Nat.sub_le _ _)⟩

/-- The last bytes stand in a row. -/
theorem Window.Holds.unwrap (fits : len ≤ window.buffer.length) :
    (window.unwrap len).Holds history ∧
      (window.unwrap len).buffer.length = window.buffer.length ∧
      ((window.unwrap len).pos = 0 ∨ len ≤ (window.unwrap len).pos) := by
  have inside : window.pos < window.buffer.length := holds.inside
  unfold Window.unwrap
  by_cases turns : window.pos ≠ 0 ∧ window.pos < len
  · rw [if_pos turns]
    have rotated := holds.rotate (by omega : window.pos + (len - window.pos) ≤ _)
    have length : (window.buffer.drop (window.buffer.length - (len - window.pos)) ++
        window.buffer.take (window.buffer.length - (len - window.pos))).length =
          window.buffer.length := by
      rw [List.length_append, List.length_drop, List.length_take]
      omega
    refine ⟨?_, length, ?_⟩
    · unfold Holds advance
      dsimp only
      rw [length]
      exact rotated
    · unfold advance wrap
      dsimp only
      split_ifs
      · left
        omega
      · right
        omega
  · rw [if_neg turns]
    refine ⟨holds, rfl, ?_⟩
    omega

/-- Bytes of a stream that holds them are appended. -/
theorem Window.Holds.copyFromBitstream {bitstream : Bitstream} (fits : len ≤ window.buffer.length)
    (held : len ≤ bitstream.buffer.length) :
    ∃ next, window.copyFromBitstream bitstream len =
        some (.ok ⟨bitstream.buffer.drop len⟩, next) ∧
      next.Holds (history ++ bitstream.buffer.take len) ∧
      next.buffer.length = window.buffer.length := by
  obtain ⟨moved, made, length, room, kept⟩ := holds.makeRoom fits
  have chunk : (bitstream.buffer.take len).length = len := List.length_take_of_le held
  have fit : moved.pos + (bitstream.buffer.take len).length ≤ moved.buffer.length := by
    rwa [chunk, length]
  have written := kept.overwrite fit (Nat.le_of_eq length.symm)
    (by rw [chunk]; omega : window.buffer.length ≤ _)
  have size := length_overwrite fit
  unfold Window.copyFromBitstream
  rw [if_neg (Nat.not_lt.mpr fits), made, Option.bind_eq_bind, Option.bind_some,
    if_neg (Nat.not_lt.mpr held)]
  refine ⟨_, rfl, ?_, size.trans length⟩
  unfold Holds advance
  dsimp only
  rw [size, length]
  rwa [length, chunk] at written

/-- The last bytes are shown. -/
theorem Window.Holds.pastView (short : len ≤ maxChunkSize) (fits : len ≤ window.buffer.length) :
    ∃ next, window.pastView len = some (.ok (history.drop (history.length - len)), next) ∧
      next.Holds history ∧ next.buffer.length = window.buffer.length := by
  obtain ⟨moved, length, row⟩ := holds.unwrap fits
  have inside : (window.unwrap len).pos < (window.unwrap len).buffer.length := moved.inside
  have fits' : len ≤ (window.unwrap len).buffer.length := by rwa [length]
  have room : len ≤ if (window.unwrap len).pos = 0 then (window.unwrap len).buffer.length
      else (window.unwrap len).pos := by
    split_ifs with zero
    · exact fits'
    · exact row.resolve_left zero
  have bound : ¬(window.unwrap len).buffer.length <
      if (window.unwrap len).pos = 0 then (window.unwrap len).buffer.length
      else (window.unwrap len).pos := by
    split_ifs
    · omega
    · omega
  unfold Window.pastView
  rw [if_neg (Nat.not_lt.mpr short)]
  dsimp only
  rw [if_neg bound, moved.view fits' rfl room]
  exact ⟨_, rfl, moved, length⟩

/-- **A call** answers and remembers as the history does. -/
theorem Window.Holds.call {size : Nat} {call : Call} (length : window.buffer.length = size)
    (power : size = 2 ^ bits) (large : maxChunkSize ≤ size) (inWindow : call.InWindow size)
    (bounded : call.Bounded size) :
    ∃ next, window.call call = some ((call.onHistory size history).1, next) ∧
      next.Holds (call.onHistory size history).2 ∧ next.buffer.length = size := by
  subst length
  cases call with
  | push value =>
    obtain ⟨next, pushed, held, kept⟩ := holds.push value
    refine ⟨next, ?_, held, kept⟩
    unfold Window.call
    dsimp only
    rw [pushed]
    rfl
  | copyFromSelf offset length =>
    obtain ⟨next, copied, held, kept⟩ :=
      holds.copyFromSelf power inWindow.1 inWindow.2 bounded
    refine ⟨next, ?_, held, kept⟩
    unfold Window.call
    dsimp only
    rw [copied]
    rfl
  | copyFromBitstream bitstream len =>
    unfold Window.call Call.onHistory
    dsimp only
    by_cases large : window.buffer.length < len
    · unfold Window.copyFromBitstream
      rw [if_pos large, if_pos large]
      exact ⟨window, rfl, holds, rfl⟩
    · have held : len ≤ bitstream.buffer.length := bounded.resolve_right large
      obtain ⟨next, copied, kept, size⟩ :=
        holds.copyFromBitstream (Nat.le_of_not_lt large) held
      rw [copied, if_neg large, if_neg (Nat.not_lt.mpr held)]
      exact ⟨next, rfl, kept, size⟩
  | pastView len =>
    unfold Window.call Call.onHistory
    dsimp only
    by_cases long : maxChunkSize < len
    · unfold Window.pastView
      rw [if_pos long, if_pos long]
      exact ⟨window, rfl, holds, rfl⟩
    · obtain ⟨next, viewed, kept, size⟩ := holds.pastView (Nat.le_of_not_lt long)
        (Nat.le_trans (Nat.le_of_not_lt long) large)
      rw [viewed, if_neg long]
      exact ⟨next, rfl, kept, size⟩

theorem Window.Holds.calls {size : Nat} (length : window.buffer.length = size)
    (power : size = 2 ^ bits) (large : maxChunkSize ≤ size) {calls : List Call}
    (inWindow : ∀ call ∈ calls, call.InWindow size) (bounded : ∀ call ∈ calls, call.Bounded size) :
    ∃ next, window.calls calls = some ((onHistory size history calls).1, next) ∧
      next.Holds (onHistory size history calls).2 := by
  induction calls generalizing window history with
  | nil => exact ⟨window, rfl, holds⟩
  | cons call rest ih =>
    obtain ⟨here, later⟩ := List.forall_mem_cons.mp inWindow
    obtain ⟨fits, fit⟩ := List.forall_mem_cons.mp bounded
    obtain ⟨next, called, held, kept⟩ := holds.call length power large here fits
    obtain ⟨last, answered, remembered⟩ := ih held kept later fit
    exact ⟨last, Window.calls_cons called answered, remembered⟩

end

end

/-- **The window refines the history** of all bytes, which starts with as many zeros: over every
sequence of calls it answers as the history does and holds its end. -/
theorem window_refines_history {size bits : Nat} (power : size = 2 ^ bits)
    (large : maxChunkSize ≤ size) {calls : List Call}
    (inWindow : ∀ call ∈ calls, call.InWindow size)
    (bounded : ∀ call ∈ calls, call.Bounded size) :
    ∃ window, (createBuffer size).calls calls =
        some ((onHistory size (List.replicate size 0) calls).1, window) ∧
      window.Holds (onHistory size (List.replicate size 0) calls).2 := by
  have positive : 0 < size := Nat.lt_of_lt_of_le (by decide) large
  have length : (createBuffer size).buffer.length = size := List.length_replicate
  have start : (createBuffer size).Holds (List.replicate size 0) := by
    unfold Window.Holds
    rw [length]
    exact remembers_replicate positive 0
  exact start.calls length power large inWindow bounded

/-- A byte is written and shown again. -/
theorem window_refines_history_sample :
    ∃ window, (createBuffer maxChunkSize).calls [.push 7, .copyFromSelf 1 2, .pastView 3] =
        some ((onHistory maxChunkSize (List.replicate maxChunkSize 0)
          [.push 7, .copyFromSelf 1 2, .pastView 3]).1, window) ∧
      window.Holds (onHistory maxChunkSize (List.replicate maxChunkSize 0)
        [.push 7, .copyFromSelf 1 2, .pastView 3]).2 :=
  @window_refines_history maxChunkSize 15 rfl (Nat.le_refl _) _
    (by decide +kernel) (by decide +kernel)

theorem length_copyBytes (pos offset count i : Nat) (buffer : List UInt8) :
    (Window.copyBytes pos offset count i buffer).length = buffer.length := by
  induction count generalizing i buffer with
  | zero => rfl
  | succ count ih => rw [Window.copyBytes, ih, List.length_set]

/-- A read of as many bytes as the window has moves all but the oldest one away, although it fails:
what was pushed in front of it is lost. -/
theorem failed_read_forgets (value : UInt8) :
    ∃ window, (createBuffer maxChunkSize).calls
      [.push value, .copyFromBitstream ⟨[]⟩ maxChunkSize, .pastView 1] =
        some ([.done, .failed .unexpectedEof, .view [0]], window) := by
  let buffer := (List.replicate maxChunkSize (0 : UInt8)).set 0 value
  have size : (List.replicate maxChunkSize (0 : UInt8)).length = maxChunkSize :=
    List.length_replicate
  have length : buffer.length = maxChunkSize := List.length_set.trans size
  have pushed : (createBuffer maxChunkSize).push value = some ⟨1, buffer⟩ := by
    unfold Window.push Window.advance createBuffer
    dsimp only
    rw [if_pos (by rw [size]; decide), length]
    rfl
  have moved : (overwrite buffer 0 (buffer.drop 1)).length = maxChunkSize := by
    rw [length_overwrite (by rw [List.length_drop]; omega), length]
  have failed : Window.copyFromBitstream ⟨1, buffer⟩ ⟨[]⟩ maxChunkSize =
      some (.error .unexpectedEof, ⟨0, overwrite buffer 0 (buffer.drop 1)⟩) := by
    unfold Window.copyFromBitstream Window.makeRoom
    dsimp only
    rw [length, if_neg (Nat.lt_irrefl _), if_pos (by decide), if_neg (by decide)]
    rfl
  have last : (overwrite buffer 0 (buffer.drop 1)).drop (maxChunkSize - 1) = [0] := by
    have front : (buffer.take 0 ++ buffer.drop 1).length = maxChunkSize - 1 := by
      rw [List.take_zero, List.nil_append, List.length_drop, length]
    unfold overwrite
    rw [← front, List.drop_left, List.length_drop, length, List.drop_set_of_lt (by decide),
      List.drop_replicate]
    rfl
  have still : Window.unwrap ⟨0, overwrite buffer 0 (buffer.drop 1)⟩ 1 =
      ⟨0, overwrite buffer 0 (buffer.drop 1)⟩ := if_neg fun turns => turns.1 rfl
  have viewed : Window.pastView ⟨0, overwrite buffer 0 (buffer.drop 1)⟩ 1 =
      some (.ok [0], ⟨0, overwrite buffer 0 (buffer.drop 1)⟩) := by
    unfold Window.pastView
    rw [if_neg (by decide), still]
    dsimp only
    rw [if_pos rfl, moved, if_neg (Nat.lt_irrefl _), last]
    rfl
  have first : (createBuffer maxChunkSize).call (.push value) = some (.done, ⟨1, buffer⟩) := by
    rw [Window.call, pushed, Option.map_some]
  have second : Window.call ⟨1, buffer⟩ (.copyFromBitstream ⟨[]⟩ maxChunkSize) =
      some (.failed .unexpectedEof, ⟨0, overwrite buffer 0 (buffer.drop 1)⟩) := by
    rw [Window.call, failed, Option.map_some]
    rfl
  have third : Window.call ⟨0, overwrite buffer 0 (buffer.drop 1)⟩ (.pastView 1) =
      some (.view [0], ⟨0, overwrite buffer 0 (buffer.drop 1)⟩) := by
    rw [Window.call, viewed, Option.map_some]
    rfl
  exact ⟨_, Window.calls_cons first (Window.calls_cons second (Window.calls_cons third rfl))⟩

/-- After a match of twice the size of the window the next byte is written out of range, and after
a read beyond the stream the last byte is not the one that was pushed. -/
theorem long_match_breaks_window :
    (¬ ∀ size bits : Nat, size = 2 ^ bits → maxChunkSize ≤ size → ∀ calls : List Call,
      (∀ call ∈ calls, call.InWindow size) →
        ∃ window, (createBuffer size).calls calls =
          some ((onHistory size (List.replicate size 0) calls).1, window)) ∧
    ¬ ∃ window, (createBuffer maxChunkSize).calls
        [.push 1, .copyFromBitstream ⟨[]⟩ maxChunkSize, .pastView 1] =
      some ((onHistory maxChunkSize (List.replicate maxChunkSize 0)
        [.push 1, .copyFromBitstream ⟨[]⟩ maxChunkSize, .pastView 1]).1, window) := by
  constructor
  · intro refines
    obtain ⟨window, done⟩ := refines maxChunkSize 15 rfl (Nat.le_refl _)
      [.copyFromSelf 1 (2 * maxChunkSize), .push 0]
      (List.forall_mem_cons.mpr ⟨⟨by decide, by decide⟩,
        List.forall_mem_cons.mpr ⟨trivial, List.forall_mem_nil _⟩⟩)
    have size : (createBuffer maxChunkSize).buffer.length = maxChunkSize := List.length_replicate
    have start : (createBuffer maxChunkSize).pos = 0 := rfl
    have copied : ∃ next, (createBuffer maxChunkSize).copyFromSelf 1 (2 * maxChunkSize) =
        some next ∧ next.pos = next.buffer.length := by
      unfold Window.copyFromSelf
      rw [start, if_neg (by decide), size, if_neg (by decide)]
      refine ⟨_, rfl, ?_⟩
      unfold Window.advance wrap
      dsimp only
      rw [length_copyBytes, size]
      decide
    obtain ⟨next, copied, stuck⟩ := copied
    have panics : next.push 0 = none := by
      unfold Window.push
      rw [if_neg (by omega)]
    rw [Window.calls, Window.call, copied] at done
    simp only [Option.map_some, Option.bind_eq_bind, Option.bind_some, Window.calls, Window.call,
      panics, Option.map_none, Option.bind_none] at done
    cases done
  · rintro ⟨window, done⟩
    obtain ⟨other, called⟩ := failed_read_forgets 1
    -- the history still ends in the byte that was pushed
    have kept : (List.replicate maxChunkSize (0 : UInt8) ++ [1]).drop
        ((List.replicate maxChunkSize (0 : UInt8) ++ [1]).length - 1) = [1] := by
      rw [List.length_append, List.length_singleton, Nat.add_sub_cancel, List.drop_left]
    rw [called] at done
    simp only [onHistory, Call.onHistory, Nat.lt_irrefl, if_false, List.length_nil,
      show 0 < maxChunkSize from by decide, if_true, show ¬maxChunkSize < 1 from by decide, kept,
      Option.some.injEq, Prod.mk.injEq] at done
    exact absurd done.1 (by decide)

end Wim

end ZManager
