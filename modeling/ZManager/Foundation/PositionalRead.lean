import Mathlib.Data.List.Basic
import Mathlib.Data.List.GetD
import Mathlib.Data.List.Infix

/-! # Positional reads by pieces

A read at an offset fills a buffer piece by piece until the buffer is full or the end is reached.
When every piece is a window of one flat image, so is the whole read: `readPieces_eq_window`. The
flat image may be given block by block.
-/

namespace ZManager

section

variable {α : Type}

variable {offset count : Nat}

/-- The part of an image of a length at an offset. -/
def window (image : Nat → α) (offset count : Nat) : List α := (List.range' offset count).map image

@[simp] theorem length_window (image : Nat → α) (offset count : Nat) :
    (window image offset count).length = count := by
  unfold window
  rw [List.length_map, List.length_range']

@[simp] theorem window_zero (image : Nat → α) (offset : Nat) : window image offset 0 = [] := rfl

/-- A window and the one behind it. -/
theorem window_append (image : Nat → α) (offset first second : Nat) :
    window image offset first ++ window image (offset + first) second =
      window image offset (first + second) := by
  unfold window
  rw [← List.map_append, List.range'_append_1]

/-- Images that agree byte for byte from two places on have the same windows there. -/
theorem window_congr {image other : Nat → α} {place : Nat}
    (same : ∀ step < count, image (offset + step) = other (place + step)) :
    window image offset count = window other place count := by
  unfold window
  rw [List.range'_eq_map_range, List.range'_eq_map_range, List.map_map, List.map_map]
  exact List.map_congr_left fun step member => same step (List.mem_range.mp member)

theorem window_const {value : α} (offset count : Nat) :
    window (fun _ => value) offset count = List.replicate count value := by
  unfold window
  rw [List.map_const', List.length_range']

/-- A window of a list is a slice. -/
theorem window_getD {bytes : List α} {filler : α} (inside : offset + count ≤ bytes.length) :
    window (bytes.getD · filler) offset count = (bytes.drop offset).take count := by
  unfold window
  apply List.ext_getElem
  · rw [List.length_map, List.length_range', List.length_take, List.length_drop]
    omega
  · intro index first second
    rw [List.length_map, List.length_range'] at first
    rw [List.getElem_map, List.getElem_range', List.getElem_take, List.getElem_drop, Nat.one_mul]
    exact List.getD_eq_getElem _ _ _

/-! ## Blocks -/

/-- The image whose blocks of a size are these; a block may end early. -/
def blockImage (blockSize : Nat) (block : Nat → List α) (filler : α) (position : Nat) : α :=
  (block (position / blockSize)).getD (position % blockSize) filler

/-- A window within one block. -/
theorem window_blockImage {blockSize : Nat} {block : Nat → List α} {filler : α}
    (within : offset % blockSize + count ≤ blockSize) :
    window (blockImage blockSize block filler) offset count =
      window ((block (offset / blockSize)).getD · filler) (offset % blockSize) count := by
  apply window_congr
  intro step inside
  have split := Nat.div_add_mod offset blockSize
  have positive : 0 < blockSize := by omega
  have place : offset + step = offset % blockSize + step + blockSize * (offset / blockSize) := by
    omega
  have below : offset % blockSize + step < blockSize := by omega
  unfold blockImage
  rw [place, Nat.add_mul_div_left _ _ positive, Nat.div_eq_of_lt below, Nat.zero_add,
    Nat.add_mul_mod_self_left, Nat.mod_eq_of_lt below]

end

/-! ## Reading -/

section

variable {σ ε α : Type}

/-- The loop of a read: a piece for the place and the room that is left, until there is no room or
the end is reached. The first number bounds the turns; without a result they are used up. -/
def readPieces (piece : σ → Nat → Nat → Except ε (List α) × σ) (size : Nat) :
    Nat → σ → Nat → Nat → Option (Except ε (List α) × σ)
  | 0, _, _, _ => none
  | turns + 1, state, cursor, room =>
    if room = 0 ∨ size ≤ cursor then some (.ok [], state)
    else
      match piece state cursor room with
      | (.error failure, next) => some (.error failure, next)
      | (.ok bytes, next) =>
        (readPieces piece size turns next (cursor + bytes.length) (room - bytes.length)).map
          fun rest => (rest.1.map (bytes ++ ·), rest.2)

variable {piece : σ → Nat → Nat → Except ε (List α) × σ} {size : Nat}

/-- A piece in a state that keeps to an invariant is a window that makes progress. -/
structure ReadsWindow (image : Nat → α) (keeps : σ → Prop) (size cursor room : Nat)
    (outcome : Except ε (List α) × σ) : Prop where
  bytes : ∃ count, outcome.1 = .ok (window image cursor count) ∧ 0 < count ∧ count ≤ room ∧
    cursor + count ≤ size
  kept : keeps outcome.2

/-- Pieces that are windows of one image make a read of it. -/
theorem readPieces_eq_window {image : Nat → α} {keeps : σ → Prop}
    (reads : ∀ state cursor room, keeps state → 0 < room → cursor < size →
      ReadsWindow image keeps size cursor room (piece state cursor room))
    {turns : Nat} {state : σ} {cursor room : Nat} (kept : keeps state) (enough : room < turns) :
    ∃ next, keeps next ∧ readPieces piece size turns state cursor room =
      some (.ok (window image cursor (min room (size - cursor))), next) := by
  induction turns generalizing state cursor room with
  | zero => exact absurd enough (Nat.not_lt_zero _)
  | succ turns ih =>
    unfold readPieces
    split
    next done =>
      have nothing : min room (size - cursor) = 0 := by omega
      rw [nothing]
      exact ⟨state, kept, rfl⟩
    next more =>
      obtain ⟨⟨count, read, positive, small, inside⟩, kept'⟩ :=
        reads state cursor room kept (by omega) (by omega)
      rcases outcome : piece state cursor room with ⟨result, next⟩
      rw [outcome] at read kept'
      cases read
      obtain ⟨last, held, rest⟩ := @ih next (cursor + count) (room - count) kept' (by omega)
      refine ⟨last, held, ?_⟩
      dsimp only
      rw [length_window, rest]
      have total : min room (size - cursor) =
          count + min (room - count) (size - (cursor + count)) := by omega
      rw [total, ← window_append]
      rfl

/-- A read fails only where a piece does. -/
theorem readPieces_error {turns : Nat} {state last : σ} {cursor room : Nat} {failure : ε}
    (failed : readPieces piece size turns state cursor room = some (.error failure, last)) :
    ∃ state cursor room, 0 < room ∧ cursor < size ∧
      (piece state cursor room).1 = .error failure := by
  induction turns generalizing state cursor room with
  | zero => cases failed
  | succ turns ih =>
    unfold readPieces at failed
    split at failed
    next => cases failed
    next more =>
      split at failed
      next failure' next outcome =>
        cases failed
        exact ⟨state, cursor, room, by omega, by omega, by rw [outcome]⟩
      next bytes next outcome =>
        obtain ⟨⟨result, last'⟩, rest, same⟩ := Option.map_eq_some_iff.mp failed
        cases result with
        | ok more => cases same
        | error failure' =>
          cases same
          exact ih rest

end

end ZManager
