import Mathlib.Data.List.Forall2
import ZManager.Foundation.Text

/-! # Patterns with wildcards

A pattern is a list of tokens. A wildcard token stands for any stretch of the
value, every other token for one element. Tokens that are no wildcards pin down
what stands in the value: a piece of a pattern between separators, without
wildcards, is a piece of every value that it matches.
-/

namespace ZManager

variable {P T : Type}

/-- A value is cut into stretches, one for each token. -/
inductive Glob (isMulti : P → Bool) (matchesSingle : P → T → Bool) : List P → List T → Prop where
  | nil : Glob isMulti matchesSingle [] []
  | multi {pattern : List P} {value : List T} {token : P} (stretch : List T)
      (wild : isMulti token = true) (front : Glob isMulti matchesSingle pattern value) :
      Glob isMulti matchesSingle (pattern ++ [token]) (value ++ stretch)
  | single {pattern : List P} {value : List T} {token : P} {element : T}
      (plain : isMulti token = false) (fits : matchesSingle token element = true)
      (front : Glob isMulti matchesSingle pattern value) :
      Glob isMulti matchesSingle (pattern ++ [token]) (value ++ [element])

namespace Glob

variable {isMulti : P → Bool} {matchesSingle : P → T → Bool}
variable {pattern front back : List P} {value : List T}

variable {token : P}

theorem nil_iff : Glob isMulti matchesSingle [] value ↔ value = [] := by
  constructor
  · intro matched
    generalize empty : ([] : List P) = tokens at matched
    cases matched with
    | nil => rfl
    | multi => simp at empty
    | single => simp at empty
  · intro empty
    rw [empty]
    exact .nil

/-- A wildcard at the end takes in what follows. -/
theorem extend (wild : isMulti token = true)
    (matched : Glob isMulti matchesSingle (pattern ++ [token]) value) (more : List T) :
    Glob isMulti matchesSingle (pattern ++ [token]) (value ++ more) := by
  generalize whole : pattern ++ [token] = tokens at matched
  cases matched with
  | nil => simp at whole
  | multi stretch same inner =>
    rw [List.append_assoc]
    exact .multi (stretch ++ more) same inner
  | single plain fits inner =>
    obtain ⟨-, same⟩ := List.append_inj' whole rfl
    cases same
    rw [wild] at plain
    cases plain

/-- Wildcards at the end may stand for nothing. -/
theorem append_multi {stars : List P} (matched : Glob isMulti matchesSingle pattern value)
    (wild : ∀ token ∈ stars, isMulti token = true) :
    Glob isMulti matchesSingle (pattern ++ stars) value := by
  induction stars generalizing pattern with
  | nil => rwa [List.append_nil]
  | cons star rest ih =>
    have first : Glob isMulti matchesSingle (pattern ++ [star]) value := by
      have added := Glob.multi [] (wild star List.mem_cons_self) matched
      rwa [List.append_nil] at added
    have whole := ih first fun token member => wild token (List.mem_cons_of_mem _ member)
    rwa [List.append_assoc] at whole

/-- A pattern in two parts matches in two parts. -/
theorem of_append (matched : Glob isMulti matchesSingle (front ++ back) value) :
    ∃ left right, value = left ++ right ∧ Glob isMulti matchesSingle front left ∧
      Glob isMulti matchesSingle back right := by
  induction back using List.reverseRecOn generalizing value with
  | nil => exact ⟨value, [], by simp, by rwa [List.append_nil] at matched, .nil⟩
  | append_singleton rest token ih =>
    rw [← List.append_assoc] at matched
    generalize whole : front ++ rest ++ [token] = tokens at matched
    cases matched with
    | nil => simp at whole
    | multi stretch wild inner =>
      obtain ⟨same, last⟩ := List.append_inj' whole rfl
      cases last
      subst same
      obtain ⟨left, right, rfl, first, second⟩ := ih inner
      exact ⟨left, right ++ stretch, by rw [List.append_assoc], first,
        .multi stretch wild second⟩
    | single plain fits inner =>
      obtain ⟨same, last⟩ := List.append_inj' whole rfl
      cases last
      subst same
      obtain ⟨left, right, rfl, first, second⟩ := ih inner
      exact ⟨left, right ++ [_], by rw [List.append_assoc], first, .single plain fits second⟩

/-- Two patterns one behind the other match two values one behind the other. -/
theorem append {left right : List T} (first : Glob isMulti matchesSingle front left)
    (second : Glob isMulti matchesSingle back right) :
    Glob isMulti matchesSingle (front ++ back) (left ++ right) := by
  induction second with
  | nil => rwa [List.append_nil, List.append_nil]
  | multi stretch wild _ ih =>
    rw [← List.append_assoc, ← List.append_assoc]
    exact .multi stretch wild ih
  | single plain fits _ ih =>
    rw [← List.append_assoc, ← List.append_assoc]
    exact .single plain fits ih

/-- A stretch that a token stands for. -/
def Fits (isMulti : P → Bool) (matchesSingle : P → T → Bool) (token : P) (stretch : List T) :
    Prop :=
  if isMulti token then True else ∃ element, stretch = [element] ∧ matchesSingle token element

theorem singleton_iff {stretch : List T} :
    Glob isMulti matchesSingle [token] stretch ↔ Fits isMulti matchesSingle token stretch := by
  unfold Fits
  constructor
  · intro matched
    generalize whole : [token] = tokens at matched
    cases matched with
    | nil => cases whole
    | multi stretch wild inner =>
      obtain ⟨-, last⟩ := List.append_inj' ((List.nil_append _).trans whole) rfl
      cases last
      rw [if_pos wild]
      trivial
    | single plain fits inner =>
      obtain ⟨none, last⟩ := List.append_inj' ((List.nil_append _).trans whole) rfl
      cases last
      subst none
      rw [if_neg (Bool.eq_false_iff.mp plain), nil_iff.mp inner]
      exact ⟨_, rfl, fits⟩
  · intro fits
    by_cases wild : isMulti token = true
    · exact @Glob.multi P T isMulti matchesSingle [] [] token stretch wild .nil
    · rw [if_neg wild] at fits
      obtain ⟨element, rfl, fits⟩ := fits
      exact @Glob.single P T isMulti matchesSingle [] [] token element
        (Bool.eq_false_iff.mpr wild) fits .nil

/-- The first token stands for a stretch in front. -/
theorem cons_iff : Glob isMulti matchesSingle (token :: pattern) value ↔
    ∃ stretch rest, value = stretch ++ rest ∧ Fits isMulti matchesSingle token stretch ∧
      Glob isMulti matchesSingle pattern rest := by
  constructor
  · intro matched
    rw [← List.singleton_append] at matched
    obtain ⟨stretch, rest, whole, first, second⟩ := matched.of_append
    exact ⟨stretch, rest, whole, singleton_iff.mp first, second⟩
  · rintro ⟨stretch, rest, rfl, first, second⟩
    exact (singleton_iff.mpr first).append second

theorem cons_multi_iff (wild : isMulti token = true) :
    Glob isMulti matchesSingle (token :: pattern) value ↔
      ∃ stretch rest, value = stretch ++ rest ∧ Glob isMulti matchesSingle pattern rest := by
  rw [cons_iff]
  unfold Fits
  simp only [if_pos wild, true_and]

theorem cons_single_iff (plain : isMulti token = false) :
    Glob isMulti matchesSingle (token :: pattern) value ↔
      ∃ element rest, value = element :: rest ∧ matchesSingle token element = true ∧
        Glob isMulti matchesSingle pattern rest := by
  rw [cons_iff]
  unfold Fits
  simp only [if_neg (Bool.eq_false_iff.mp plain)]
  constructor
  · rintro ⟨_, rest, rfl, ⟨element, rfl, fits⟩, matched⟩
    exact ⟨element, rest, rfl, fits, matched⟩
  · rintro ⟨element, rest, rfl, fits, matched⟩
    exact ⟨[element], rest, rfl, ⟨element, rfl, fits⟩, matched⟩

/-- **The stretches of a value**, one for each token. -/
theorem iff_stretches : Glob isMulti matchesSingle pattern value ↔
    ∃ stretches : List (List T), value = stretches.flatten ∧
      List.Forall₂ (Fits isMulti matchesSingle) pattern stretches := by
  induction pattern generalizing value with
  | nil =>
    rw [nil_iff]
    constructor
    · rintro rfl
      exact ⟨[], rfl, .nil⟩
    · rintro ⟨_, rfl, each⟩
      cases each
      rfl
  | cons token pattern ih =>
    rw [cons_iff]
    constructor
    · rintro ⟨stretch, rest, rfl, first, matched⟩
      obtain ⟨stretches, rfl, each⟩ := ih.mp matched
      exact ⟨stretch :: stretches, rfl, .cons first each⟩
    · rintro ⟨_, rfl, each⟩
      cases each with
      | @cons _ stretch _ stretches first each =>
        exact ⟨stretch, stretches.flatten, rfl, first, ih.mpr ⟨stretches, rfl, each⟩⟩

/-- A pattern without wildcards has as many elements as tokens. -/
theorem length_eq (plain : ∀ token ∈ pattern, isMulti token = false)
    (matched : Glob isMulti matchesSingle pattern value) : value.length = pattern.length := by
  induction matched with
  | nil => rfl
  | multi stretch wild front ih =>
    rw [plain _ (by simp)] at wild
    cases wild
  | single nowild fits front ih =>
    rw [List.length_append, List.length_append,
      ih fun token member => plain token (List.mem_append_left _ member)]
    rfl

/-- Nothing is matched by wildcards only. -/
theorem nil_value_iff : Glob isMulti matchesSingle pattern ([] : List T) ↔
    ∀ token ∈ pattern, isMulti token = true := by
  constructor
  · intro matched token member
    by_contra plain
    obtain ⟨before, behind, rfl⟩ := List.append_of_mem member
    obtain ⟨left, right, whole, -, second⟩ := matched.of_append
    rw [(List.append_eq_nil_iff.mp whole.symm).2] at second
    obtain ⟨_, _, nonempty, -⟩ := (cons_single_iff (Bool.eq_false_iff.mpr plain)).mp second
    cases nonempty
  · intro wild
    exact (.nil : Glob isMulti matchesSingle [] []).append_multi wild

end Glob

namespace Glob

variable {isMulti : T → Bool} {matchesSingle : T → T → Bool} {pattern value : List T}

/-- Tokens that stand for themselves match only themselves. -/
theorem literal (matched : Glob isMulti matchesSingle pattern value)
    (plain : ∀ token ∈ pattern, isMulti token = false)
    (itself : ∀ token ∈ pattern, ∀ element, matchesSingle token element = true →
      element = token) : value = pattern := by
  induction matched with
  | nil => rfl
  | multi stretch wild front ih =>
    rw [plain _ (by simp)] at wild
    cases wild
  | single nowild fits front ih =>
    rw [ih (fun token member => plain token (List.mem_append_left _ member))
        (fun token member => itself token (List.mem_append_left _ member)),
      itself _ (by simp) _ fits]

end Glob

/-! ## Pieces -/

section

variable [DecidableEq T] {separator : T} {piece text : List T}

/-- What holds no separator goes in front of the first piece. -/
theorem splitOn_append_of_not_mem {front : List T} (free : separator ∉ front) :
    (front ++ text).splitOn separator = (text.splitOn separator).modifyHead (front ++ ·) := by
  induction front with
  | nil =>
    rw [List.nil_append]
    cases text.splitOn separator with
    | nil => rfl
    | cons first rest => rfl
  | cons head tail ih =>
    obtain ⟨different, behind⟩ := not_or.mp (List.mem_cons.not.mp free)
    have unequal : (head == separator) = false := by simpa using Ne.symm different
    rw [List.cons_append, List.splitOn_cons_eq_if_modifyHead, unequal, ih behind]
    cases text.splitOn separator with
    | nil => rfl
    | cons first rest => rfl

/-- A piece of a text stands between separators or ends of the text. -/
theorem mem_splitOn (member : piece ∈ text.splitOn separator) :
    ∃ front back, text = front ++ (piece ++ back) ∧
      (front = [] ∨ ∃ before, front = before ++ [separator]) ∧
        (back = [] ∨ ∃ behind, back = separator :: behind) := by
  obtain ⟨before, after, split⟩ := List.append_of_mem member
  have joined : [separator].intercalate (before ++ piece :: after) = text := by
    rw [← split, List.intercalate_splitOn]
  have tail : ∃ back, [separator].intercalate (piece :: after) = piece ++ back ∧
      (back = [] ∨ ∃ behind, back = separator :: behind) := by
    cases after with
    | nil => exact ⟨[], by simp, .inl rfl⟩
    | cons next rest =>
      refine ⟨separator :: [separator].intercalate (next :: rest), ?_, .inr ⟨_, rfl⟩⟩
      rw [List.intercalate_cons_cons]
      simp
  obtain ⟨back, ended, behind⟩ := tail
  cases before with
  | nil => exact ⟨[], back, by rw [← joined]; exact ended, .inl rfl, behind⟩
  | cons first rest =>
    refine ⟨[separator].intercalate (first :: rest) ++ [separator], back, ?_, .inr ⟨_, rfl⟩,
      behind⟩
    rw [← joined, Text.intercalate_append separator (List.cons_ne_nil _ _)
      (List.cons_ne_nil _ _), ended]
    simp

theorem mem_splitOn_of_between {front back : List T} (free : separator ∉ piece)
    (before : front = [] ∨ ∃ before, front = before ++ [separator])
    (behind : back = [] ∨ ∃ behind, back = separator :: behind) :
    piece ∈ (front ++ (piece ++ back)).splitOn separator := by
  have alone := List.splitOn_eq_singleton free
  have tail : piece ∈ (piece ++ back).splitOn separator := by
    rcases behind with rfl | ⟨rest, rfl⟩
    · rw [List.append_nil, alone]
      exact List.mem_singleton_self piece
    · rw [List.splitOn_append_cons_self, alone]
      exact List.mem_cons_self
  rcases before with rfl | ⟨rest, rfl⟩
  · exact tail
  · rw [List.append_assoc, List.singleton_append, List.splitOn_append_cons_self]
    exact List.mem_append_right _ tail

/-- **A piece without wildcards** of a pattern is a piece of what it matches. -/
theorem Glob.mem_splitOn_of_literal {isMulti : T → Bool} {matchesSingle : T → T → Bool}
    {pattern value : List T} (matched : Glob isMulti matchesSingle pattern value)
    (member : piece ∈ pattern.splitOn separator)
    (plain : ∀ token ∈ separator :: piece, isMulti token = false)
    (itself : ∀ token ∈ separator :: piece, ∀ element, matchesSingle token element = true →
      element = token) : piece ∈ value.splitOn separator := by
  have free := Text.separator_not_mem_of_mem_splitOn separator pattern piece member
  have self : ∀ {tokens stretch : List T}, (∀ token ∈ tokens, token ∈ separator :: piece) →
      Glob isMulti matchesSingle tokens stretch → stretch = tokens := by
    intro tokens stretch inside inner
    exact inner.literal (fun token listed => plain token (inside token listed))
      (fun token listed => itself token (inside token listed))
  obtain ⟨front, back, rfl, before, behind⟩ := mem_splitOn member
  obtain ⟨left, rest, rfl, first, others⟩ := matched.of_append
  obtain ⟨middle, right, rfl, second, last⟩ := others.of_append
  rw [self (fun token listed => List.mem_cons_of_mem _ listed) second]
  apply mem_splitOn_of_between free
  · rcases before with rfl | ⟨start, rfl⟩
    · exact .inl (nil_iff.mp first)
    · obtain ⟨outer, inner, rfl, -, bound⟩ := first.of_append
      rw [self (by simp) bound]
      exact .inr ⟨outer, rfl⟩
  · rcases behind with rfl | ⟨stop, rfl⟩
    · exact .inl (nil_iff.mp last)
    · rw [← List.singleton_append] at last
      obtain ⟨inner, outer, rfl, bound, -⟩ := last.of_append
      rw [self (by simp) bound]
      exact .inr ⟨outer, rfl⟩

end

end ZManager
