import Mathlib.Algebra.Group.Int.Defs
import Mathlib.Algebra.GroupWithZero.Nat
import Mathlib.Data.List.Basic
import Mathlib.Data.List.DropRight
import Mathlib.Data.List.Infix
import Mathlib.Data.List.Pairwise

/-! # Text split and joined at a separator

Texts are lists of characters. The lemmas below are the part of splitting and
joining that path handling relies on: a split piece holds no separator, a
joined list of separator-free pieces is determined by its last piece and the
rest, and decimal numerals hold digits only.
-/

namespace ZManager

/-- A text as the list of its characters. -/
abbrev Text := List Char

namespace Text

variable {number : Nat}

instance : LawfulBEq Text := inferInstanceAs (LawfulBEq (List Char))

variable {α : Type*}

variable {separator : α} {before after text : List α}

/-- No piece of a split holds the separator. -/
theorem separator_not_mem_of_mem_splitOn [DecidableEq α] (separator : α) (text : List α) :
    ∀ piece ∈ text.splitOn separator, separator ∉ piece := by
  induction text with
  | nil => simp
  | cons head rest ih =>
    rw [List.splitOn_cons_eq_if_modifyHead]
    by_cases same : head = separator
    · subst same
      simpa using ih
    · have different : (head == separator) = false := by simpa using same
      rw [different]
      obtain ⟨first, pieces, split⟩ := List.exists_cons_of_ne_nil
        (List.splitOn_ne_nil separator rest)
      rw [split] at ih ⊢
      intro piece member
      simp only [Bool.false_eq_true, ↓reduceIte, List.modifyHead_cons, List.mem_cons] at member
      rcases member with rfl | member
      · simp only [List.mem_cons, not_or]
        exact ⟨fun equal => same equal.symm, ih first (List.mem_cons_self ..)⟩
      · exact ih piece (List.mem_cons_of_mem _ member)

/-- A piece of a split holds only characters of the text. -/
theorem mem_of_mem_splitOn [DecidableEq α] (separator : α) (text : List α) :
    ∀ piece ∈ text.splitOn separator, ∀ x ∈ piece, x ∈ text := by
  induction text with
  | nil => simp
  | cons head rest ih =>
    rw [List.splitOn_cons_eq_if_modifyHead]
    obtain ⟨first, pieces, split⟩ := List.exists_cons_of_ne_nil
      (List.splitOn_ne_nil separator rest)
    rw [split] at ih ⊢
    intro piece member x inside
    by_cases same : (head == separator) = true
    · simp only [same, ↓reduceIte, List.mem_cons] at member
      rcases member with rfl | member
      · simp at inside
      · exact List.mem_cons_of_mem _ (ih piece (by simpa using member) x inside)
    · simp only [same, Bool.false_eq_true, ↓reduceIte, List.modifyHead_cons,
        List.mem_cons] at member
      rcases member with rfl | member
      · rcases List.mem_cons.mp inside with rfl | inside
        · exact List.mem_cons_self ..
        · exact List.mem_cons_of_mem _ (ih first (List.mem_cons_self ..) x inside)
      · exact List.mem_cons_of_mem _ (ih piece (List.mem_cons_of_mem _ member) x inside)

/-- The text before and the text after the last separator are determined by the
whole text. -/
theorem append_cons_inj_of_last {before' after' : List α}
    (equal : before ++ separator :: after = before' ++ separator :: after')
    (last : separator ∉ after) (last' : separator ∉ after') :
    before = before' ∧ after = after' := by
  induction before generalizing before' with
  | nil =>
    cases before' with
    | nil => exact ⟨rfl, by simpa using equal⟩
    | cons head tail =>
      simp only [List.nil_append, List.cons_append, List.cons.injEq] at equal
      exact absurd (by simp [equal.2]) last
  | cons head tail ih =>
    cases before' with
    | nil =>
      simp only [List.nil_append, List.cons_append, List.cons.injEq] at equal
      exact absurd (by simp [← equal.2]) last'
    | cons head' tail' =>
      simp only [List.cons_append, List.cons.injEq] at equal
      obtain ⟨rfl, rest⟩ := equal
      obtain ⟨rfl, rfl⟩ := ih rest
      exact ⟨rfl, rfl⟩

/-- Joining two nonempty lists of pieces puts one separator between them. -/
theorem intercalate_append (separator : α) {left right : List (List α)} (nonempty : left ≠ [])
    (nonempty' : right ≠ []) :
    [separator].intercalate (left ++ right) =
      [separator].intercalate left ++ separator :: [separator].intercalate right := by
  induction left with
  | nil => exact absurd rfl nonempty
  | cons head tail ih =>
    cases tail with
    | nil =>
      rw [List.singleton_append, List.intercalate_cons_of_ne_nil nonempty']
      simp
    | cons second rest =>
      rw [List.cons_append, List.cons_append, List.intercalate_cons_cons,
        ← List.cons_append, ih (List.cons_ne_nil second rest), List.intercalate_cons_cons]
      simp

/-- A character of a joined text is the separator or belongs to a piece. -/
theorem mem_intercalate {x : α} {pieces : List (List α)}
    (member : x ∈ [separator].intercalate pieces) : x = separator ∨ ∃ piece ∈ pieces, x ∈ piece :=
        by
  induction pieces with
  | nil => simp at member
  | cons head rest ih =>
    cases rest with
    | nil => exact .inr ⟨head, by simp, by simpa using member⟩
    | cons second others =>
      rw [List.intercalate_cons_cons] at member
      simp only [List.append_assoc, List.mem_append, List.mem_singleton] at member
      rcases member with inside | same | inside
      · exact .inr ⟨head, by simp, inside⟩
      · exact .inl same
      · refine (ih inside).imp_right ?_
        rintro ⟨piece, member, inside⟩
        exact ⟨piece, List.mem_cons_of_mem _ member, inside⟩

/-- The text before and after the last separator, as `str::rsplit_once`. -/
def rsplitOnce [DecidableEq α] (separator : α) : List α → Option (List α × List α)
  | [] => none
  | head :: rest =>
    match rsplitOnce separator rest with
    | some (before, after) => some (head :: before, after)
    | none => if head = separator then some ([], rest) else none

theorem rsplitOnce_eq_none_iff [DecidableEq α] :
    rsplitOnce separator text = none ↔ separator ∉ text := by
  induction text with
  | nil => simp [rsplitOnce]
  | cons head rest ih =>
    unfold rsplitOnce
    cases split : rsplitOnce separator rest with
    | some parts =>
      have inside : separator ∈ rest := by
        by_contra absent
        rw [ih.mpr absent] at split
        cases split
      simp [inside]
    | none =>
      have absent := ih.mp split
      by_cases same : head = separator
      · simp [same]
      · simp [same, absent, Ne.symm same]

/-- A successful last split recomposes the text, and its second part holds no
separator. -/
theorem rsplitOnce_eq_some [DecidableEq α]
    (split : rsplitOnce separator text = some (before, after)) :
    text = before ++ separator :: after ∧ separator ∉ after := by
  induction text generalizing before with
  | nil => cases split
  | cons head rest ih =>
    unfold rsplitOnce at split
    cases inner : rsplitOnce separator rest with
    | some parts =>
      rw [inner] at split
      cases split
      obtain ⟨recomposed, last⟩ := ih inner
      exact ⟨by rw [recomposed]; rfl, last⟩
    | none =>
      rw [inner] at split
      by_cases same : head = separator
      · rw [if_pos same] at split
        cases split
        exact ⟨by rw [same]; rfl, rsplitOnce_eq_none_iff.mp inner⟩
      · rw [if_neg same] at split
        cases split

/-- The split at a separator that is the last one. -/
theorem rsplitOnce_append [DecidableEq α] (last : separator ∉ after) :
    rsplitOnce separator (before ++ separator :: after) = some (before, after) := by
  cases split : rsplitOnce separator (before ++ separator :: after) with
  | none => exact absurd (by simp) (rsplitOnce_eq_none_iff.mp split)
  | some parts =>
    obtain ⟨recomposed, last'⟩ := rsplitOnce_eq_some split
    obtain ⟨left, right⟩ := append_cons_inj_of_last recomposed last last'
    rw [left, right]

/-- The characters that `str::trim` removes. -/
def isWhitespace (char : Char) : Bool :=
  let code := char.toNat
  (9 ≤ code && code ≤ 13) || code = 0x20 || code = 0x85 || code = 0xa0 || code = 0x1680 ||
    (0x2000 ≤ code && code ≤ 0x200a) || code = 0x2028 || code = 0x2029 || code = 0x202f ||
    code = 0x205f || code = 0x3000

/-- `str::trim_start`. -/
def trimStart (text : Text) : Text := text.dropWhile isWhitespace

/-- `str::trim`. -/
def trim (text : Text) : Text := (trimStart (trimStart text).reverse).reverse

theorem trim_eq_rdropWhile (text : Text) :
    trim text = List.rdropWhile isWhitespace (text.dropWhile isWhitespace) := rfl

/-- A prefix of a trimmed start is itself trimmed at the start. -/
theorem dropWhile_eq_self_of_prefix {p : α → Bool} {front : List α}
    (starts : front <+: text.dropWhile p) : front.dropWhile p = front := by
  cases front with
  | nil => rfl
  | cons head tail =>
    obtain ⟨rest, whole⟩ := starts
    have refused : p head = false := by
      have first := List.head?_dropWhile_not p text
      rw [← whole] at first
      simpa using first
    simp [refused]

@[simp] theorem trim_trim (text : Text) : trim (trim text) = trim text := by
  have start : (trim text).dropWhile isWhitespace = trim text :=
    dropWhile_eq_self_of_prefix (List.rdropWhile_prefix _ (text.dropWhile isWhitespace))
  calc trim (trim text)
      = List.rdropWhile isWhitespace (trim text) := by rw [trim_eq_rdropWhile (trim text), start]
    _ = trim text := List.rdropWhile_idempotent _ _

/-- A text without white space is not changed by trimming. -/
theorem trim_eq_self {text : Text} (plain : ∀ char ∈ text, isWhitespace char = false) :
    trim text = text := by
  have kept : ∀ part : Text, (∀ char ∈ part, isWhitespace char = false) →
      part.dropWhile isWhitespace = part := by
    intro part plain
    cases part with
    | nil => rfl
    | cons head tail => simp [plain head (List.mem_cons_self ..)]
  unfold trim trimStart
  rw [kept text plain, kept text.reverse (fun char member => plain char (List.mem_reverse.mp member)),
    List.reverse_reverse]

/-- `str::lines`: a carriage return goes with the line end behind it. -/
def lines (text : Text) : List Text :=
  let pieces := text.splitOn '\n'
  pieces.dropLast.map (fun line => if line.getLast? = some '\r' then line.dropLast else line) ++
    (pieces.getLast?.toList.filter (· ≠ []))

/-- A decimal numeral holds digits only. -/
theorem isDigit_of_mem_decimal {digit : Char} (member : digit ∈ Nat.toDigits 10 number) :
    digit.isDigit :=
  Nat.isDigit_of_mem_toDigits (by decide) (by decide) member

/-- A number in decimal with leading zeros up to a width, as `{:0width$}`. -/
def padded (width number : Nat) : Text :=
  List.replicate (width - (Nat.toDigits 10 number).length) '0' ++ Nat.toDigits 10 number

theorem isDigit_of_mem_padded {width number : Nat} {digit : Char}
    (member : digit ∈ padded width number) : digit.isDigit := by
  rcases List.mem_append.mp member with zero | inside
  · rw [List.eq_of_mem_replicate zero]
    rfl
  · exact isDigit_of_mem_decimal inside

theorem le_length_padded (width number : Nat) : width ≤ (padded width number).length := by
  simp only [padded, List.length_append, List.length_replicate]
  omega

/-- A text that ends in a numeral ends in a digit. -/
theorem getLast?_append_padded (text : Text) {width : Nat} :
    ∃ digit, (text ++ padded width number).getLast? = some digit ∧ digit.isDigit := by
  have nonempty : padded width number ≠ [] := by
    have digits := @Nat.length_toDigits_pos 10 number
    simp only [padded, ne_eq, List.append_eq_nil_iff, not_and]
    intro _ empty
    simp [empty] at digits
  obtain ⟨front, digit, split⟩ :=
    (List.eq_nil_or_concat' (padded width number)).resolve_left nonempty
  refine ⟨digit, by rw [split, ← List.append_assoc, List.getLast?_concat], ?_⟩
  exact @isDigit_of_mem_padded width number digit (by rw [split]; simp)

/-- A number below `10 ^ width` fills exactly the width. -/
theorem length_padded_eq_iff {width : Nat} (positive : 0 < width) :
    (padded width number).length = width ↔ number < 10 ^ width := by
  rw [← Nat.length_toDigits_le_iff (by decide) positive]
  simp only [padded, List.length_append, List.length_replicate]
  omega

/-- The digits of a padded number are read back as the number. -/
theorem ofDigitChars_padded (width number : Nat) :
    Nat.ofDigitChars 10 (padded width number) 0 = number := by
  rw [padded, Nat.ofDigitChars_append, Nat.ofDigitChars_replicate_zero, Nat.mul_zero,
    Nat.ofDigitChars_ten_toDigits]

end Text

end ZManager
