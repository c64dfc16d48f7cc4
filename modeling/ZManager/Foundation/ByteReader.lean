import Mathlib.Data.List.Basic

/-! # Readers

A reader hands out what it holds in pieces, as short as it likes but never empty, and
then reports how it ends. Loops that read until nothing comes see all of it.
-/

namespace ZManager

/-- What a reader still hands out. -/
structure ByteReader (ε : Type) where
  remaining : List UInt8
  /-- What is reported after the last byte, where it is not the end. -/
  failure : Option ε := none
  /-- The most that the next reads hand out, whatever they are asked for. -/
  pace : List Nat := []

namespace ByteReader

variable {ε : Type}

/-- One read into a buffer of the given size. -/
def read (size : Nat) (reader : ByteReader ε) : Except ε (List UInt8 × ByteReader ε) :=
  if size = 0 then .ok ([], reader)
  else if reader.remaining = [] then
    match reader.failure with
    | none => .ok ([], reader)
    | some failure => .error failure
  else
    let count := max 1 (min (reader.pace.head?.getD size) size)
    .ok (reader.remaining.take count,
      { reader with remaining := reader.remaining.drop count, pace := reader.pace.tail })

variable {size : Nat} {reader next : ByteReader ε} {chunk : List UInt8}

/-- A read that hands out nothing is at the end. -/
theorem read_eq_nil (positive : 0 < size) (done : reader.read size = .ok ([], next)) :
    reader.remaining = [] ∧ reader.failure = none := by
  unfold read at done
  rw [if_neg (by omega)] at done
  split_ifs at done with empty
  · cases ended : reader.failure with
    | none => exact ⟨empty, rfl⟩
    | some failure =>
      rw [ended] at done
      cases done
  · have taken := congrArg Prod.fst (Except.ok.inj done)
    rcases List.take_eq_nil_iff.mp taken with none | none
    · omega
    · exact absurd none empty

/-- What a read hands out comes first in what was there. -/
theorem read_eq_ok (done : reader.read size = .ok (chunk, next)) :
    reader.remaining = chunk ++ next.remaining ∧ next.failure = reader.failure := by
  unfold read at done
  split_ifs at done with none empty
  · cases done
    exact ⟨rfl, rfl⟩
  · cases ended : reader.failure with
    | none =>
      rw [ended] at done
      cases done
      exact ⟨rfl, ended⟩
    | some failure =>
      rw [ended] at done
      cases done
  · cases done
    exact ⟨(List.take_append_drop _ _).symm, rfl⟩

/-- A reader without a failure is read. -/
theorem exists_read (whole : reader.failure = none) :
    ∃ chunk next, reader.read size = .ok (chunk, next) := by
  unfold read
  split_ifs with none empty
  · exact ⟨_, _, rfl⟩
  · rw [whole]
    exact ⟨_, _, rfl⟩
  · exact ⟨_, _, rfl⟩

theorem length_read_lt {byte : UInt8} {more : List UInt8}
    (done : reader.read size = .ok (byte :: more, next)) :
    next.remaining.length < reader.remaining.length := by
  rw [(read_eq_ok done).1, List.length_append, List.length_cons]
  omega

end ByteReader

end ZManager
