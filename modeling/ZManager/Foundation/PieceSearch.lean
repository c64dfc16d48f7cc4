import Mathlib.Data.List.Basic
import Mathlib.Data.List.TakeDrop

/-! # Searching a text piece by piece

Every place where a pattern stands in a text is offered to a candidate, which takes it, passes it on
or fails. The text may come in pieces: what is carried over from one piece to the next is one
element shorter than the pattern, so that every place is looked at once, with all that stands there.
-/

namespace ZManager

section

variable {ε τ : Type}

/-- The second search is made when the first one finds nothing. -/
def thenSearch (first second : Except ε (Option τ)) : Except ε (Option τ) :=
  match first with
  | .ok none => second
  | answer => answer

theorem thenSearch_assoc (first second third : Except ε (Option τ)) :
    thenSearch (thenSearch first second) third = thenSearch first (thenSearch second third) := by
  rcases first with failure | _ | found <;> rfl

theorem thenSearch_none (first : Except ε (Option τ)) : thenSearch first (.ok none) = first := by
  rcases first with failure | _ | found <;> rfl

end

/-- What is kept of a text for the piece behind it. -/
def carryOver {α : Type} (pattern text : List α) : List α :=
  text.drop (text.length - (pattern.length - 1))

section

variable {α : Type} {pattern : List α}

theorem carryOver_of_short {text : List α} (short : text.length < pattern.length) :
    carryOver pattern text = text := by
  unfold carryOver
  rw [Nat.sub_eq_zero_of_le (by omega), List.drop_zero]

theorem carryOver_cons {head : α} {rest : List α} (long : pattern.length ≤ rest.length + 1)
    (proper : 0 < pattern.length) : carryOver pattern (head :: rest) = carryOver pattern rest := by
  have step : (head :: rest).length - (pattern.length - 1) =
      rest.length - (pattern.length - 1) + 1 := by
    rw [List.length_cons]
    omega
  unfold carryOver
  rw [step, List.drop_succ_cons]

theorem carryOver_nil : carryOver pattern ([] : List α) = [] := List.drop_nil

/-- What is carried over does not depend on how the text came. -/
theorem carryOver_append (proper : 0 < pattern.length) (text piece : List α) :
    carryOver pattern (carryOver pattern text ++ piece) = carryOver pattern (text ++ piece) := by
  induction text with
  | nil => rw [carryOver_nil]
  | cons head rest ih =>
    by_cases long : pattern.length ≤ rest.length + 1
    · rw [carryOver_cons long proper, ih, List.cons_append, carryOver_cons _ proper]
      rw [List.length_append]
      omega
    · have whole : carryOver pattern (head :: rest) = head :: rest :=
        carryOver_of_short (Nat.lt_of_not_le long)
      rw [whole]

end

section

variable {α ε τ : Type} [DecidableEq α]

/-- The first answer of the candidate for a place of the pattern, with the place of the text. -/
def searchPlaces (pattern : List α) (candidate : Nat → Except ε (Option τ)) :
    (base : Nat) → List α → Except ε (Option τ)
  | _, [] => .ok none
  | base, head :: rest =>
    thenSearch (if (head :: rest).take pattern.length = pattern then candidate base else .ok none)
      (searchPlaces pattern candidate (base + 1) rest)

variable {pattern : List α} {candidate : Nat → Except ε (Option τ)}

/-- Nothing stands in a text that is too short. -/
theorem searchPlaces_of_short {base : Nat} {text : List α} (short : text.length < pattern.length) :
    searchPlaces pattern candidate base text = .ok none := by
  induction text generalizing base with
  | nil => rfl
  | cons head rest ih =>
    have absent : (head :: rest).take pattern.length ≠ pattern := by
      rw [List.take_of_length_le (Nat.le_of_lt short)]
      rintro rfl
      exact Nat.lt_irrefl _ short
    unfold searchPlaces
    rw [if_neg absent]
    exact ih (Nat.lt_of_succ_lt short)

/-- A text with a piece behind it is searched as far as it goes, and then from what it leaves. -/
theorem searchPlaces_append (proper : 0 < pattern.length) (base : Nat) (text piece : List α) :
    searchPlaces pattern candidate base (text ++ piece) =
      thenSearch (searchPlaces pattern candidate base text)
        (searchPlaces pattern candidate (base + (text.length - (carryOver pattern text).length))
          (carryOver pattern text ++ piece)) := by
  induction text generalizing base with
  | nil => rw [carryOver_nil]; rfl
  | cons head rest ih =>
    by_cases long : pattern.length ≤ rest.length + 1
    · have kept : (carryOver pattern rest).length ≤ rest.length := by
        unfold carryOver
        rw [List.length_drop]
        exact Nat.sub_le _ _
      have place : base + ((head :: rest).length - (carryOver pattern rest).length) =
          base + 1 + (rest.length - (carryOver pattern rest).length) := by
        rw [List.length_cons]
        omega
      rw [carryOver_cons long proper, place, List.cons_append, searchPlaces, searchPlaces,
        thenSearch_assoc, ← ih, ← List.cons_append, List.take_append_of_le_length long]
    · have short : (head :: rest).length < pattern.length := Nat.lt_of_not_le long
      rw [carryOver_of_short short, searchPlaces_of_short short, Nat.sub_self]
      rfl

/-- What is found is what the candidate takes at some place. -/
theorem exists_candidate_of_searchPlaces {base : Nat} {text : List α} {found : τ}
    (search : searchPlaces pattern candidate base text = .ok (some found)) :
    ∃ place, candidate place = .ok (some found) := by
  induction text generalizing base with
  | nil => cases search
  | cons head rest ih =>
    unfold searchPlaces at search
    split_ifs at search
    · rcases taken : candidate base with failure | _ | other
      · rw [taken] at search
        cases search
      · rw [taken] at search
        exact ih search
      · rw [taken] at search
        cases search
        exact ⟨base, taken⟩
    · exact ih search

end

end ZManager
