import ZManager.Foundation.Bytes

/-! # Ring buffers and histories

A ring buffer holds the end of a history that only grows: its position is where the next element
goes, and the elements before it, around the end of the buffer, are the latest ones. Writing a
chunk, moving the contents and rotating them keep what is remembered.
-/

namespace ZManager

namespace Ring

open Bytes

variable {α : Type}

/-- An index that may have left the buffer once. -/
def wrap (size index : Nat) : Nat := if size ≤ index then index - size else index

/-- Where the element stands that came so many elements ago. -/
def slot (size position back : Nat) : Nat :=
  if back ≤ position then position - back else position + size - back

/-- The buffer holds the last `count` elements of the history. -/
structure Remembers (count position : Nat) (buffer history : List α) : Prop where
  inside : position < buffer.length
  fits : count ≤ buffer.length
  known : count ≤ history.length
  recent : ∀ back, 0 < back → back ≤ count →
    buffer[slot buffer.length position back]? = history[history.length - back]?

theorem slot_lt {size position back : Nat} (inside : position < size) (positive : 0 < back)
    (fits : back ≤ size) : slot size position back < size := by
  unfold slot
  split_ifs
  · omega
  · omega

theorem wrap_eq_mod {size index : Nat} (once : index < 2 * size) :
    wrap size index = index % size := by
  unfold wrap
  split_ifs with left
  · rw [Nat.mod_eq_sub_mod left, Nat.mod_eq_of_lt (by omega)]
  · rw [Nat.mod_eq_of_lt (by omega)]

/-- The place so many elements ago, for a position that goes on counting. -/
theorem sub_mod_eq_slot {size position back : Nat} (some_size : 0 < size) (positive : 0 < back)
    (fits : back ≤ size) :
    (size + position - back) % size = slot size (position % size) back := by
  have inside := Nat.mod_lt position some_size
  have split := Nat.div_add_mod position size
  have place := slot_lt inside positive fits
  unfold slot at place ⊢
  split_ifs at place ⊢ with early
  · have whole : size + position - back =
        position % size - back + size * (position / size + 1) := by
      rw [Nat.mul_add]
      omega
    rw [whole, Nat.add_mul_mod_self_left, Nat.mod_eq_of_lt place]
  · have whole : size + position - back =
        position % size + size - back + size * (position / size) := by omega
    rw [whole, Nat.add_mul_mod_self_left, Nat.mod_eq_of_lt place]

theorem remembers_replicate {size : Nat} (positive : 0 < size) (x : α) :
    Remembers size 0 (List.replicate size x) (List.replicate size x) where
  inside := by rwa [List.length_replicate]
  fits := Nat.le_of_eq List.length_replicate.symm
  known := Nat.le_of_eq List.length_replicate.symm
  recent := by
    intro back some_back within
    rw [List.length_replicate, List.getElem?_replicate_of_lt (slot_lt positive some_back within),
      List.getElem?_replicate_of_lt (by omega)]

section

variable {count position : Nat} {buffer history : List α}

section

variable (holds : Remembers count position buffer history)
include holds

theorem Remembers.fewer {count' : Nat} (le : count' ≤ count) :
    Remembers count' position buffer history where
  inside := holds.inside
  fits := Nat.le_trans le holds.fits
  known := Nat.le_trans le holds.known
  recent back positive within := holds.recent back positive (Nat.le_trans within le)

/-- A chunk that fits before the end of the buffer is written. -/
theorem Remembers.overwrite {chunk : List α} {count' : Nat}
    (room : position + chunk.length ≤ buffer.length) (fits : count' ≤ buffer.length)
    (enough : count' ≤ count + chunk.length) :
    Remembers count' (wrap buffer.length (position + chunk.length))
      (overwrite buffer position chunk) (history ++ chunk) := by
  have length := length_overwrite room
  have inside := holds.inside
  have known := holds.known
  refine ⟨?_, by rwa [length], by rw [List.length_append]; omega, ?_⟩
  · rw [length]
    unfold wrap
    split_ifs
    · omega
    · omega
  intro back positive within
  rw [length, getElem?_overwrite room, List.length_append]
  by_cases new : back ≤ chunk.length
  · have place : slot buffer.length (wrap buffer.length (position + chunk.length)) back =
        position + (chunk.length - back) := by
      unfold slot wrap
      split_ifs
      · omega
      · omega
      · omega
      · omega
    rw [place, if_pos (by omega), Nat.add_sub_cancel_left, List.getElem?_append_right (by omega)]
    congr 1
    omega
  · have place : slot buffer.length (wrap buffer.length (position + chunk.length)) back =
        slot buffer.length position (back - chunk.length) := by
      unfold slot wrap
      split_ifs
      all_goals omega
    have apart : ¬(position ≤ slot buffer.length position (back - chunk.length) ∧
        slot buffer.length position (back - chunk.length) < position + chunk.length) := by
      unfold slot
      split_ifs
      · omega
      · omega
    rw [place, if_neg apart, holds.recent _ (by omega) (by omega),
      List.getElem?_append_left (by omega)]
    congr 1
    omega

/-- The contents are moved to the front; what stood before them is forgotten. -/
theorem Remembers.shift {amount : Nat} (le : amount ≤ position)
    (enough : position - amount ≤ count) :
    Remembers (position - amount) (position - amount)
      (Bytes.overwrite buffer 0 (buffer.drop amount)) history := by
  have inside := holds.inside
  have known := holds.known
  have room : 0 + (buffer.drop amount).length ≤ buffer.length := by
    rw [List.length_drop]
    omega
  have length := length_overwrite room
  refine ⟨by omega, by omega, by omega, ?_⟩
  intro back positive within
  have place : slot buffer.length (position - amount) back = position - amount - back := by
    unfold slot
    rw [if_pos within]
  have place' : slot buffer.length position back = amount + (position - amount - back) := by
    unfold slot
    rw [if_pos (by omega)]
    omega
  rw [length, place, getElem?_overwrite room, if_pos (by rw [List.length_drop]; omega),
    List.getElem?_drop, Nat.sub_zero, ← holds.recent back positive (by omega), place']

/-- The whole buffer is rotated, and the position with it. -/
theorem Remembers.rotate {amount : Nat} (room : position + amount ≤ buffer.length) :
    Remembers count (wrap buffer.length (position + amount))
      (buffer.drop (buffer.length - amount) ++ buffer.take (buffer.length - amount)) history := by
  have inside := holds.inside
  have within := holds.fits
  have length : (buffer.drop (buffer.length - amount) ++
      buffer.take (buffer.length - amount)).length = buffer.length := by
    rw [List.length_append, List.length_drop, List.length_take]
    omega
  have front : (buffer.drop (buffer.length - amount)).length = amount := by
    rw [List.length_drop]
    omega
  have newInside : wrap buffer.length (position + amount) < buffer.length := by
    unfold wrap
    split_ifs
    · omega
    · omega
  refine ⟨by rwa [length], by rwa [length], holds.known, ?_⟩
  intro back positive last
  rw [length, ← holds.recent back positive last]
  by_cases early : slot buffer.length (wrap buffer.length (position + amount)) back < amount
  · rw [List.getElem?_append_left (by rwa [front]), List.getElem?_drop]
    congr 1
    revert early
    unfold slot wrap
    split_ifs
    all_goals omega
  · rw [List.getElem?_append_right (by omega), front, List.getElem?_take_of_lt]
    · congr 1
      revert early
      unfold slot wrap
      split_ifs
      all_goals omega
    · have here := slot_lt newInside positive (by omega)
      omega

/-- The latest elements in a row. -/
theorem Remembers.view {length stop : Nat} (le : length ≤ count)
    (stops : stop = if position = 0 then buffer.length else position) (room : length ≤ stop) :
    (buffer.drop (stop - length)).take length = history.drop (history.length - length) := by
  have inside := holds.inside
  have within := holds.fits
  have known := holds.known
  apply List.ext_getElem?
  intro index
  rw [List.getElem?_take, List.getElem?_drop, List.getElem?_drop]
  by_cases early : index < length
  · have recent := holds.recent (length - index) (by omega) (by omega)
    have place : slot buffer.length position (length - index) = stop - length + index := by
      subst stops
      unfold slot
      split_ifs at room ⊢
      all_goals omega
    have place' : history.length - (length - index) = history.length - length + index := by omega
    rw [if_pos early, ← place, ← place', recent]
  · rw [if_neg early, List.getElem?_eq_none (by omega)]

end

end

/-! ## Repetitions -/

/-- Elements are appended one after the other, each the one that stands `offset` places before
it in the history that has grown so far. -/
def repeatFrom (offset : Nat) : (length : Nat) → (history : List α) → List α
  | 0, history => history
  | length + 1, history =>
    repeatFrom offset length (history ++ history[history.length - offset]?.toList)

section

variable {offset length : Nat} {history : List α}

theorem toList_getElem?_back (positive : 0 < offset) (known : offset ≤ history.length) :
    ∃ x, history[history.length - offset]? = some x := by
  rw [List.getElem?_eq_getElem (by omega)]
  exact ⟨_, rfl⟩

/-- What does not reach into itself is a copy. -/
theorem repeatFrom_eq_append (apart : length ≤ offset) (known : offset ≤ history.length) :
    repeatFrom offset length history =
      history ++ (history.drop (history.length - offset)).take length := by
  induction length generalizing history with
  | zero => rw [repeatFrom, List.take_zero, List.append_nil]
  | succ length ih =>
    obtain ⟨x, found⟩ := toList_getElem?_back (by omega) known
    obtain ⟨inside, here⟩ := List.getElem?_eq_some_iff.mp found
    have grown : (history ++ [x]).length = history.length + 1 := List.length_append
    have behind : history.drop (history.length - offset) =
        x :: history.drop (history.length + 1 - offset) := by
      rw [List.drop_eq_getElem_cons inside, here]
      congr 2
      omega
    have short : length ≤ (history.drop (history.length + 1 - offset)).length := by
      rw [List.length_drop]
      omega
    rw [repeatFrom, found, Option.toList_some, ih (by omega) (by omega), grown,
      List.drop_append_of_le_length (by omega), List.take_append_of_le_length short, behind,
      List.take_succ_cons, List.append_assoc, List.singleton_append]

end

end Ring

end ZManager
