import ZManager.Safety.Pattern
import ZManager.Foundation.Glob

/-! # The wildcard matcher is exact

The loop remembers the last wildcard only. What an earlier wildcard could still take in, the
last one can take in as well, so that no match is lost.
-/

namespace ZManager

section

variable {P T : Type} (pattern : List P) (value : List T) (isMulti : P → Bool)
  (matchesSingle : P → T → Bool)

/-- The loop without a bound on its iterations: from two indices and the last wildcard it
comes to a result. -/
inductive WildcardRun : (patternIndex valueIndex : Nat) → (lastStar : Option Nat) →
    (starValueIndex : Nat) → Bool → Prop
  | finished {patternIndex valueIndex starValueIndex : Nat} {lastStar : Option Nat}
      (ended : value[valueIndex]? = none) :
      WildcardRun patternIndex valueIndex lastStar starValueIndex
        ((pattern.drop patternIndex).dropWhile isMulti).isEmpty
  | star {patternIndex valueIndex starValueIndex : Nat} {lastStar : Option Nat} {token : P}
      {current : T} {result : Bool} (present : value[valueIndex]? = some current)
      (next : pattern[patternIndex]? = some token) (wild : isMulti token = true)
      (rest : WildcardRun (patternIndex + 1) valueIndex (some patternIndex) valueIndex result) :
      WildcardRun patternIndex valueIndex lastStar starValueIndex result
  | single {patternIndex valueIndex starValueIndex : Nat} {lastStar : Option Nat} {token : P}
      {current : T} {result : Bool} (present : value[valueIndex]? = some current)
      (next : pattern[patternIndex]? = some token) (plain : isMulti token = false)
      (fits : matchesSingle token current = true)
      (rest : WildcardRun (patternIndex + 1) (valueIndex + 1) lastStar starValueIndex result) :
      WildcardRun patternIndex valueIndex lastStar starValueIndex result
  | backtrack {patternIndex valueIndex starValueIndex starIndex : Nat} {current : T}
      {result : Bool} (present : value[valueIndex]? = some current)
      (stuck : ∀ token ∈ pattern[patternIndex]?,
        isMulti token = false ∧ matchesSingle token current = false)
      (rest : WildcardRun (starIndex + 1) (starValueIndex + 1) (some starIndex)
        (starValueIndex + 1) result) :
      WildcardRun patternIndex valueIndex (some starIndex) starValueIndex result
  | failed {patternIndex valueIndex starValueIndex : Nat} {current : T}
      (present : value[valueIndex]? = some current)
      (stuck : ∀ token ∈ pattern[patternIndex]?,
        isMulti token = false ∧ matchesSingle token current = false) :
      WildcardRun patternIndex valueIndex none starValueIndex false

/-- The tokens behind the last wildcard are single ones that have matched one element each. -/
structure Resumes (patternIndex valueIndex : Nat) (lastStar : Option Nat)
    (starValueIndex : Nat) : Prop where
  inside : valueIndex ≤ value.length
  passed : starValueIndex ≤ valueIndex
  plain : ∀ starIndex ∈ lastStar, ∃ front,
    pattern.drop (starIndex + 1) = front ++ pattern.drop patternIndex ∧
      front.length = valueIndex - starValueIndex ∧ ∀ token ∈ front, isMulti token = false

/-- What is left matches, or the last wildcard can take in more. -/
def Alive (patternIndex valueIndex : Nat) (lastStar : Option Nat) (starValueIndex : Nat) : Prop :=
  Glob isMulti matchesSingle (pattern.drop patternIndex) (value.drop valueIndex) ∨
    ∃ starIndex ∈ lastStar, ∃ later > starValueIndex,
      Glob isMulti matchesSingle (pattern.drop (starIndex + 1)) (value.drop later)

end

section

variable {P T : Type} {pattern : List P} {value : List T} {isMulti : P → Bool}
  {matchesSingle : P → T → Bool} {patternIndex valueIndex starValueIndex : Nat}
  {lastStar : Option Nat}

variable {index : Nat}

variable {current : T}

theorem drop_of_getElem? {α : Type} {items : List α} {item : α}
    (present : items[index]? = some item) : items.drop index = item :: items.drop (index + 1) := by
  obtain ⟨inside, rfl⟩ := List.getElem?_eq_some_iff.mp present
  exact List.drop_eq_getElem_cons inside

theorem lt_of_getElem? {α : Type} {items : List α} {item : α}
    (present : items[index]? = some item) : index < items.length :=
  (List.getElem?_eq_some_iff.mp present).1

namespace Resumes

theorem start : Resumes pattern value isMulti 0 0 none 0 := ⟨Nat.zero_le _, Nat.le_refl _, nofun⟩

/-- Behind a wildcard nothing has matched yet. -/
theorem of_star {starIndex : Nat} (inside : valueIndex ≤ value.length) :
    Resumes pattern value isMulti (starIndex + 1) valueIndex (some starIndex) valueIndex := by
  refine ⟨inside, Nat.le_refl _, fun index same => ?_⟩
  cases same
  exact ⟨[], rfl, (Nat.sub_self _).symm, nofun⟩

theorem single {token : P} {current : T}
    (resumes : Resumes pattern value isMulti patternIndex valueIndex lastStar starValueIndex)
    (present : value[valueIndex]? = some current) (next : pattern[patternIndex]? = some token)
    (plain : isMulti token = false) :
    Resumes pattern value isMulti (patternIndex + 1) (valueIndex + 1) lastStar
      starValueIndex := by
  refine ⟨lt_of_getElem? present, resumes.passed.trans (Nat.le_succ _), fun index same => ?_⟩
  obtain ⟨front, split, length, none⟩ := resumes.plain index same
  refine ⟨front ++ [token], ?_, ?_, ?_⟩
  · rw [split, drop_of_getElem? next, List.append_assoc]
    rfl
  · have passed := resumes.passed
    rw [List.length_append, length, List.length_singleton]
    omega
  · intro other member
    rcases List.mem_append.mp member with member | member
    · exact none other member
    · rw [List.mem_singleton.mp member]
      exact plain

end Resumes

/-- What stands behind single tokens matches behind as many elements. -/
theorem Glob.drop_front {front back : List P} (plain : ∀ token ∈ front, isMulti token = false)
    (matched : Glob isMulti matchesSingle (front ++ back) (value.drop index)) :
    Glob isMulti matchesSingle back (value.drop (index + front.length)) := by
  obtain ⟨left, right, whole, first, second⟩ := matched.of_append
  have behind := congrArg (List.drop left.length) whole
  rw [List.drop_drop, List.drop_left] at behind
  rwa [← first.length_eq plain, behind]

/-- A wildcard in front takes in what comes before. -/
theorem Glob.of_later {token : P} {rest : List P} (wild : isMulti token = true) {later : Nat}
    (order : index ≤ later)
    (matched : Glob isMulti matchesSingle (token :: rest) (value.drop later)) :
    Glob isMulti matchesSingle (token :: rest) (value.drop index) := by
  obtain ⟨stretch, behind, whole, matched⟩ := (cons_multi_iff wild).mp matched
  refine (cons_multi_iff wild).mpr
    ⟨(value.drop index).take (later - index) ++ stretch, behind, ?_, matched⟩
  have split := List.take_append_drop (later - index) (value.drop index)
  rw [List.drop_drop, Nat.add_sub_cancel' order, whole] at split
  rw [List.append_assoc]
  exact split.symm

/-- **What an earlier wildcard can take in, the next one can.** -/
theorem alive_star {token : P}
    (resumes : Resumes pattern value isMulti patternIndex valueIndex lastStar starValueIndex)
    (next : pattern[patternIndex]? = some token) (wild : isMulti token = true) :
    Alive pattern value isMulti matchesSingle patternIndex valueIndex lastStar starValueIndex ↔
      Alive pattern value isMulti matchesSingle (patternIndex + 1) valueIndex (some patternIndex)
        valueIndex := by
  have split := drop_of_getElem? next
  constructor
  · intro alive
    have matched : Glob isMulti matchesSingle (token :: pattern.drop (patternIndex + 1))
        (value.drop valueIndex) := by
      rw [← split]
      rcases alive with matched | ⟨starIndex, same, later, more, matched⟩
      · exact matched
      · obtain ⟨front, whole, length, plain⟩ := resumes.plain starIndex same
        have passed := resumes.passed
        rw [whole] at matched
        have behind := matched.drop_front plain
        rw [split] at behind ⊢
        exact behind.of_later wild (by omega)
    obtain ⟨stretch, rest, whole, matched⟩ := (Glob.cons_multi_iff wild).mp matched
    have same := congrArg (List.drop stretch.length) whole
    rw [List.drop_drop, List.drop_left] at same
    subst same
    by_cases empty : stretch.length = 0
    · rw [empty, Nat.add_zero] at matched
      exact .inl matched
    · exact .inr ⟨patternIndex, rfl, _, Nat.lt_add_of_pos_right (Nat.pos_of_ne_zero empty),
        matched⟩
  · intro alive
    refine .inl ?_
    rw [split]
    rcases alive with matched | ⟨_, same, later, more, matched⟩
    · exact (Glob.cons_multi_iff wild).mpr ⟨[], _, rfl, matched⟩
    · cases same
      exact ((Glob.cons_multi_iff wild).mpr ⟨[], _, rfl, matched⟩ :
        Glob _ _ _ (value.drop later)).of_later wild (Nat.le_of_lt more)

section

variable (present : value[valueIndex]? = some current)
include present

/-- A single token that fits takes one element, and an earlier choice stays open. -/
theorem alive_single {token : P} (next : pattern[patternIndex]? = some token)
    (plain : isMulti token = false) (fits : matchesSingle token current = true) :
    Alive pattern value isMulti matchesSingle patternIndex valueIndex lastStar starValueIndex ↔
      Alive pattern value isMulti matchesSingle (patternIndex + 1) (valueIndex + 1) lastStar
        starValueIndex := by
  unfold Alive
  rw [drop_of_getElem? next, drop_of_getElem? present, Glob.cons_single_iff plain]
  constructor
  · rintro (⟨_, _, whole, -, matched⟩ | later)
    · cases whole
      exact .inl matched
    · exact .inr later
  · rintro (matched | later)
    · exact .inl ⟨current, _, rfl, fits, matched⟩
    · exact .inr later

/-- A token that does not fit leaves the earlier choices only. -/
theorem alive_stuck (stuck : ∀ token ∈ pattern[patternIndex]?,
      isMulti token = false ∧ matchesSingle token current = false) :
    Alive pattern value isMulti matchesSingle patternIndex valueIndex lastStar starValueIndex ↔
      ∃ starIndex ∈ lastStar, ∃ later > starValueIndex,
        Glob isMulti matchesSingle (pattern.drop (starIndex + 1)) (value.drop later) := by
  refine or_iff_right fun matched => ?_
  rw [drop_of_getElem? present] at matched
  cases next : pattern[patternIndex]? with
  | none =>
    rw [List.drop_eq_nil_of_le (List.getElem?_eq_none_iff.mp next), Glob.nil_iff] at matched
    cases matched
  | some token =>
    obtain ⟨plain, misses⟩ := stuck token next
    rw [drop_of_getElem? next, Glob.cons_single_iff plain] at matched
    obtain ⟨_, _, whole, fits, -⟩ := matched
    cases whole
    rw [misses] at fits
    cases fits

theorem alive_backtrack {starIndex : Nat} (stuck : ∀ token ∈ pattern[patternIndex]?,
      isMulti token = false ∧ matchesSingle token current = false) :
    Alive pattern value isMulti matchesSingle patternIndex valueIndex (some starIndex)
        starValueIndex ↔
      Alive pattern value isMulti matchesSingle (starIndex + 1) (starValueIndex + 1)
        (some starIndex) (starValueIndex + 1) := by
  rw [alive_stuck present stuck]
  unfold Alive
  constructor
  · rintro ⟨_, same, later, more, matched⟩
    cases same
    rcases Nat.eq_or_lt_of_le (Nat.succ_le_of_lt more) with rfl | further
    · exact .inl matched
    · exact .inr ⟨starIndex, rfl, later, further, matched⟩
  · rintro (matched | ⟨_, same, later, more, matched⟩)
    · exact ⟨starIndex, rfl, _, Nat.lt_succ_self _, matched⟩
    · cases same
      exact ⟨starIndex, rfl, later, (Nat.lt_succ_self _).trans more, matched⟩

end

/-- At the end of the value only wildcards may be left; an earlier choice comes to the same
tokens with nothing left. -/
theorem alive_finished
    (resumes : Resumes pattern value isMulti patternIndex valueIndex lastStar starValueIndex)
    (ended : value[valueIndex]? = none) :
    Alive pattern value isMulti matchesSingle patternIndex valueIndex lastStar starValueIndex ↔
      ((pattern.drop patternIndex).dropWhile isMulti).isEmpty = true := by
  have atEnd := List.getElem?_eq_none_iff.mp ended
  have whole := Nat.le_antisymm resumes.inside atEnd
  rw [List.isEmpty_iff, List.dropWhile_eq_nil_iff,
    ← @Glob.nil_value_iff _ _ isMulti matchesSingle]
  unfold Alive
  rw [List.drop_eq_nil_of_le atEnd]
  refine or_iff_left_of_imp ?_
  rintro ⟨starIndex, same, later, more, matched⟩
  obtain ⟨front, split, length, plain⟩ := resumes.plain starIndex same
  have passed := resumes.passed
  rw [split] at matched
  have behind := matched.drop_front plain
  have none : value.drop (later + front.length) = [] := List.drop_eq_nil_of_le (by omega)
  rwa [none] at behind

/-- **A run comes to the right result.** -/
theorem WildcardRun.result_iff {result : Bool}
    (run : WildcardRun pattern value isMulti matchesSingle patternIndex valueIndex lastStar
      starValueIndex result)
    (resumes : Resumes pattern value isMulti patternIndex valueIndex lastStar starValueIndex) :
    result = true ↔
      Alive pattern value isMulti matchesSingle patternIndex valueIndex lastStar
        starValueIndex := by
  induction run with
  | finished ended => exact (alive_finished resumes ended).symm
  | star present next wild rest ih =>
    rw [alive_star resumes next wild]
    exact ih (.of_star resumes.inside)
  | single present next plain fits rest ih =>
    rw [alive_single present next plain fits]
    exact ih (resumes.single present next plain)
  | backtrack present stuck rest ih =>
    rw [alive_backtrack present stuck]
    exact ih (.of_star (Nat.succ_le_of_lt (resumes.passed.trans_lt (lt_of_getElem? present))))
  | failed present stuck =>
    rw [alive_stuck present stuck]
    constructor
    · nofun
    · rintro ⟨_, same, -⟩
      cases same

/-- One iteration, with the result of backtracking. -/
theorem run_of_iteration {back starred single : Bool}
    (backtrack : ∀ current, value[valueIndex]? = some current →
      (∀ token ∈ pattern[patternIndex]?,
        isMulti token = false ∧ matchesSingle token current = false) →
      WildcardRun pattern value isMulti matchesSingle patternIndex valueIndex lastStar
        starValueIndex back)
    (star : valueIndex < value.length → patternIndex < pattern.length →
      WildcardRun pattern value isMulti matchesSingle (patternIndex + 1) valueIndex
        (some patternIndex) valueIndex starred)
    (forward : valueIndex < value.length → patternIndex < pattern.length →
      WildcardRun pattern value isMulti matchesSingle (patternIndex + 1) (valueIndex + 1)
        lastStar starValueIndex single) :
    WildcardRun pattern value isMulti matchesSingle patternIndex valueIndex lastStar starValueIndex
      (match value[valueIndex]? with
        | none => ((pattern.drop patternIndex).dropWhile isMulti).isEmpty
        | some current =>
          match pattern[patternIndex]? with
          | none => back
          | some token =>
            if isMulti token then starred
            else if matchesSingle token current then single else back) := by
  cases present : value[valueIndex]? with
  | none => exact .finished present
  | some current =>
    have more := lt_of_getElem? present
    cases next : pattern[patternIndex]? with
    | none =>
      refine backtrack current present fun token same => ?_
      rw [next] at same
      cases same
    | some token =>
      have index := lt_of_getElem? next
      dsimp only
      by_cases wild : isMulti token = true
      · rw [if_pos wild]
        exact .star present next wild (star more index)
      rw [if_neg wild]
      by_cases fits : matchesSingle token current = true
      · rw [if_pos fits]
        exact .single present next (Bool.eq_false_iff.mpr wild) fits (forward more index)
      · rw [if_neg fits]
        refine backtrack current present fun other same => ?_
        rw [next] at same
        cases same
        exact ⟨Bool.eq_false_iff.mpr wild, Bool.eq_false_iff.mpr fits⟩

/-- **The loop terminates**: between two backtracking steps the pattern index grows, and every
backtracking step moves the value index of the wildcard. -/
theorem wildcardLoop_run (fuel : Nat) (inside : patternIndex ≤ pattern.length)
    (passed : starValueIndex ≤ valueIndex) (here : valueIndex ≤ value.length)
    (starred : ∀ starIndex ∈ lastStar, starIndex < pattern.length)
    (enough : (value.length - starValueIndex) * (pattern.length + 1) +
      (pattern.length - patternIndex) < fuel) :
    WildcardRun pattern value isMulti matchesSingle patternIndex valueIndex lastStar
      starValueIndex (wildcardLoop pattern value isMulti matchesSingle fuel patternIndex
        valueIndex lastStar starValueIndex) := by
  induction fuel generalizing patternIndex valueIndex lastStar starValueIndex with
  | zero => cases enough
  | succ fuel ih =>
    unfold wildcardLoop
    refine run_of_iteration (fun current present stuck => ?_) (fun more index => ?_)
      fun more index => ?_
    · cases lastStar with
      | none => exact .failed present stuck
      | some starIndex =>
        have index := starred starIndex rfl
        have more := lt_of_getElem? present
        refine .backtrack present stuck
          (ih index (Nat.le_refl _) (Nat.succ_le_of_lt (passed.trans_lt more)) starred ?_)
        have fewer : value.length - starValueIndex =
            value.length - (starValueIndex + 1) + 1 := by omega
        rw [fewer, Nat.add_mul, Nat.one_mul] at enough
        omega
    · refine ih index (Nat.le_refl _) here (fun _ same => by cases same; exact index) ?_
      have less : (value.length - valueIndex) * (pattern.length + 1) ≤
          (value.length - starValueIndex) * (pattern.length + 1) :=
        Nat.mul_le_mul_right _ (Nat.sub_le_sub_left passed _)
      omega
    · exact ih index (passed.trans (Nat.le_succ _)) more starred (by omega)

theorem wildcardMatchesCustom_run :
    WildcardRun pattern value isMulti matchesSingle 0 0 none 0
      (wildcardMatchesCustom pattern value isMulti matchesSingle) := by
  refine wildcardLoop_run _ (Nat.zero_le _) (Nat.le_refl _) (Nat.zero_le _) nofun ?_
  rw [Nat.sub_zero, Nat.sub_zero, Nat.add_mul, Nat.one_mul, Nat.mul_add value.length _ 2,
    Nat.mul_add value.length _ 1]
  omega

/-- The matcher in terms of patterns and what they match. -/
theorem wildcardMatchesCustom_eq_true :
    wildcardMatchesCustom pattern value isMulti matchesSingle = true ↔
      Glob isMulti matchesSingle pattern value := by
  rw [wildcardMatchesCustom_run.result_iff .start]
  exact or_iff_left nofun

end

/-- **The wildcard matcher is exact.** The loop comes to an end with one result, which is `true`
exactly when the value is a row of stretches, one for each token: any stretch for a wildcard,
and one element that it matches for another token. -/
theorem wildcard_matcher_is_exact {P T : Type} (pattern : List P) (value : List T)
    (isMulti : P → Bool) (matchesSingle : P → T → Bool) :
    (∀ result, WildcardRun pattern value isMulti matchesSingle 0 0 none 0 result ↔
      result = wildcardMatchesCustom pattern value isMulti matchesSingle) ∧
    (wildcardMatchesCustom pattern value isMulti matchesSingle = true ↔
      ∃ stretches : List (List T), value = stretches.flatten ∧
        List.Forall₂ (fun token stretch => if isMulti token then True
          else ∃ element, stretch = [element] ∧ matchesSingle token element) pattern
          stretches) := by
  constructor
  · intro result
    constructor
    · intro run
      refine Bool.eq_iff_iff.mpr (Iff.trans ?_ wildcardMatchesCustom_eq_true.symm)
      rw [run.result_iff .start]
      exact or_iff_left nofun
    · rintro rfl
      exact wildcardMatchesCustom_run
  · rw [wildcardMatchesCustom_eq_true]
    exact Glob.iff_stretches

example : wildcardMatches "*a*b*c".toUTF8.toList "xxaxxbxxcxxc".toUTF8.toList = true := by
  decide +kernel

end ZManager
