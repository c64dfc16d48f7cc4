import Mathlib.Data.List.Infix

/-! # Keywords in texts that are put together

A text is fixed pieces with holes between them that are filled in. Where the fixed pieces keep a
keyword from reaching across their ends, it occurs in the whole text iff it occurs in a piece.
-/

namespace ZManager

variable {α : Type*}

/-- A part of a text. -/
inductive Piece (α : Type*) where
  | fixed (text : List α)
  | hole (text : List α)

def Piece.text : Piece α → List α
  | fixed text => text
  | hole text => text

/-- The whole text. -/
def joinPieces (pieces : List (Piece α)) : List α := pieces.flatMap Piece.text

section

variable [DecidableEq α] {keyword : List α}

/-- No beginning of the keyword is at the end of a fixed piece. -/
def endsClear (keyword fixed : List α) : Bool :=
  (List.range keyword.length).all fun count => !(keyword.take (count + 1)).isSuffixOf fixed

/-- No end of the keyword fits the beginning of a fixed piece. -/
def startsClear (keyword fixed : List α) : Bool :=
  (List.range keyword.length).all fun count =>
    !(keyword.drop count).isPrefixOf fixed && !fixed.isPrefixOf (keyword.drop count)

theorem endsClear_spec {fixed : List α} (clear : endsClear keyword fixed) {front back : List α}
    (split : keyword = front ++ back) (some_ : front ≠ []) : ¬ front <:+ fixed := by
  intro atEnd
  have position : 0 < front.length := List.length_pos_of_ne_nil some_
  have bound : front.length ≤ keyword.length := by
    rw [split, List.length_append]
    exact Nat.le_add_right ..
  have checked := List.all_eq_true.mp clear (front.length - 1) (List.mem_range.mpr (by omega))
  have taken : keyword.take (front.length - 1 + 1) = front := by
    rw [Nat.sub_add_cancel position, split, List.take_left]
  rw [taken, Bool.not_eq_true', Bool.eq_false_iff] at checked
  exact checked (List.isSuffixOf_iff_suffix.mpr atEnd)

theorem startsClear_spec {fixed : List α} (clear : startsClear keyword fixed)
    {front back : List α} (split : keyword = front ++ back) (some_ : back ≠ []) :
    ¬ back <+: fixed ∧ ¬ fixed <+: back := by
  have position : 0 < back.length := List.length_pos_of_ne_nil some_
  have bound : front.length < keyword.length := by
    rw [split, List.length_append]
    omega
  have checked := List.all_eq_true.mp clear front.length (List.mem_range.mpr bound)
  have dropped : keyword.drop front.length = back := by
    rw [split, List.drop_left]
  rw [dropped, Bool.and_eq_true, Bool.not_eq_true', Bool.not_eq_true', Bool.eq_false_iff,
    Bool.eq_false_iff] at checked
  exact ⟨mt List.isPrefixOf_iff_prefix.mpr checked.1, mt List.isPrefixOf_iff_prefix.mpr checked.2⟩

/-- Fixed pieces stand between the holes and keep the keyword within a piece. -/
def Separated (keyword : List α) : List (Piece α) → Bool
  | [] => true
  | .fixed text :: rest => endsClear keyword text && Separated keyword rest
  | .hole _ :: [] => true
  | .hole _ :: .fixed text :: rest =>
    startsClear keyword text && Separated keyword (.fixed text :: rest)
  | .hole _ :: .hole _ :: _ => false

omit [DecidableEq α] in
/-- One more piece in front. -/
theorem infix_cons_iff (piece : Piece α) (rest : List (Piece α))
    (apart : ∀ front back, keyword = front ++ back → front ≠ [] → back ≠ [] →
      front <:+ piece.text → ¬ back <+: joinPieces rest) :
    keyword <:+: joinPieces (piece :: rest) ↔
      keyword <:+: piece.text ∨ keyword <:+: joinPieces rest := by
  unfold joinPieces at apart ⊢
  rw [List.flatMap_cons, List.infix_append_iff_ne_nil]
  constructor
  · rintro (inside | behind | ⟨front, back, someFront, someBack, split, atEnd, atStart⟩)
    · exact .inl inside
    · exact .inr behind
    · exact absurd atStart (apart front back split someFront someBack atEnd)
  · rintro (inside | behind)
    · exact .inl inside
    · exact .inr (.inl behind)

/-- **A keyword occurs in the whole text** iff it occurs in one of its pieces. -/
theorem infix_joinPieces_iff {pieces : List (Piece α)} (some_ : keyword ≠ [])
    (separated : Separated keyword pieces) :
    keyword <:+: joinPieces pieces ↔ ∃ piece ∈ pieces, keyword <:+: piece.text := by
  fun_induction Separated keyword pieces with
  | case1 => simp [joinPieces, some_]
  | case2 text rest ih =>
    obtain ⟨clear, restSeparated⟩ := Bool.and_eq_true_iff.mp separated
    rw [infix_cons_iff, ih restSeparated, List.exists_mem_cons_iff]
    intro front back split someFront _ atEnd
    exact absurd atEnd (endsClear_spec clear split someFront)
  | case3 text =>
    rw [infix_cons_iff, List.exists_mem_cons_iff]
    · simp [joinPieces, some_]
    · intro front back _ _ someBack _ atStart
      exact someBack (List.prefix_nil.mp atStart)
  | case4 filled text rest ih =>
    obtain ⟨clear, restSeparated⟩ := Bool.and_eq_true_iff.mp separated
    rw [infix_cons_iff, ih restSeparated, List.exists_mem_cons_iff (a := Piece.hole filled)]
    intro front back split _ someBack _ atStart
    obtain ⟨noPrefix, noExtension⟩ := startsClear_spec clear split someBack
    rcases List.prefix_or_prefix_of_prefix atStart
      (List.prefix_append text (joinPieces rest)) with shorter | longer
    · exact noPrefix shorter
    · exact noExtension longer
  | case5 => cases separated

end

end ZManager
