import ZManager.Manifest.Gitignore
import ZManager.Safety.Wildcard

/-! # What the rule of an ignore file matches

Paths are told apart by the part below the base of the rule, and rows of segments by the
wildcards of a pattern.
-/

namespace ZManager

variable {text path : Text}

/-! ## Rows with something behind -/

namespace Glob

section

variable {P T : Type} {isMulti : P → Bool} {matchesSingle : P → T → Bool}
variable {pattern : List P} {value behind : List T}

/-- A part of the pattern has matched where a part of the value ends. -/
theorem of_append_value (matched : Glob isMulti matchesSingle pattern (value ++ behind)) :
    ∃ front back rest, pattern = front ++ back ∧ Glob isMulti matchesSingle front value ∧
      Glob isMulti matchesSingle back rest := by
  induction pattern generalizing value with
  | nil =>
    obtain ⟨rfl, rfl⟩ := List.append_eq_nil_iff.mp (nil_iff.mp matched)
    exact ⟨[], [], [], rfl, .nil, .nil⟩
  | cons token pattern ih =>
    obtain ⟨stretch, left, whole, fits, inner⟩ := cons_iff.mp matched
    rcases List.append_eq_append_iff.mp whole with ⟨more, rfl, rfl⟩ | ⟨more, rfl, rfl⟩
    · -- the token takes in the end of the value
      by_cases wild : isMulti token = true
      · exact ⟨[token], pattern, left, rfl,
          (cons_multi_iff wild).mpr ⟨value, [], (List.append_nil _).symm, .nil⟩, inner⟩
      · unfold Fits at fits
        rw [if_neg wild] at fits
        obtain ⟨element, single, fits⟩ := fits
        rcases List.append_eq_singleton_iff.mp single with ⟨rfl, rfl⟩ | ⟨rfl, rfl⟩
        · exact ⟨[], token :: pattern, element :: left, rfl, .nil,
            (cons_single_iff (Bool.eq_false_iff.mpr wild)).mpr ⟨element, left, rfl, fits,
              inner⟩⟩
        · exact ⟨[token], pattern, left, rfl,
            (cons_single_iff (Bool.eq_false_iff.mpr wild)).mpr ⟨element, [], rfl, fits, .nil⟩,
            inner⟩
    · obtain ⟨front, back, rest, rfl, first, second⟩ := ih inner
      exact ⟨token :: front, back, rest, rfl, cons_iff.mpr ⟨stretch, more, rfl, fits, first⟩,
        second⟩

/-- Tokens that match every element match any other row of the same length. -/
theorem of_length_eq {usable : T → Prop} {other : List T}
    (matched : Glob isMulti matchesSingle pattern value)
    (every : ∀ token ∈ pattern, isMulti token = false →
      ∀ element, usable element → matchesSingle token element = true)
    (same : other.length = value.length) (all : ∀ element ∈ other, usable element) :
    Glob isMulti matchesSingle pattern other := by
  induction pattern generalizing value other with
  | nil =>
    rw [nil_iff.mp matched, List.length_nil] at same
    rw [List.eq_nil_of_length_eq_zero same]
    exact .nil
  | cons token pattern ih =>
    have later : ∀ token ∈ pattern, isMulti token = false →
        ∀ element, usable element → matchesSingle token element = true :=
      fun other member => every other (List.mem_cons_of_mem _ member)
    cases wild : isMulti token with
    | true =>
      obtain ⟨stretch, rest, rfl, inner⟩ := (cons_multi_iff wild).mp matched
      rw [List.length_append] at same
      refine (cons_multi_iff wild).mpr ⟨other.take stretch.length, other.drop stretch.length,
        (List.take_append_drop _ _).symm, ih inner later ?_ ?_⟩
      · rw [List.length_drop]
        omega
      · exact fun element member => all element (List.mem_of_mem_drop member)
    | false =>
      obtain ⟨element, rest, rfl, -, inner⟩ := (cons_single_iff wild).mp matched
      cases other with
      | nil => cases same
      | cons first others =>
        exact (cons_single_iff wild).mpr ⟨first, others, rfl,
          every token List.mem_cons_self wild first (all first List.mem_cons_self),
          ih inner later (Nat.succ.inj same)
            fun element member => all element (List.mem_cons_of_mem _ member)⟩

/-- A wildcard and, behind it, only tokens that match every element. -/
def OpenEnded (isMulti : P → Bool) (matchesSingle : P → T → Bool) (usable : T → Prop)
    (pattern : List P) : Prop :=
  ∃ front star tail, pattern = front ++ star :: tail ∧ isMulti star = true ∧
    ∀ token ∈ tail, isMulti token = false →
      ∀ element, usable element → matchesSingle token element = true

/-- **An open end takes in what follows.** -/
theorem append_of_openEnded {usable : T → Prop}
    (opened : OpenEnded isMulti matchesSingle usable pattern)
    (matched : Glob isMulti matchesSingle pattern value)
    (all : ∀ element ∈ value ++ behind, usable element) :
    Glob isMulti matchesSingle pattern (value ++ behind) := by
  obtain ⟨front, star, tail, rfl, wild, every⟩ := opened
  obtain ⟨left, right, rfl, first, second⟩ := matched.of_append
  obtain ⟨stretch, rest, rfl, last⟩ := (cons_multi_iff wild).mp second
  rw [List.append_assoc]
  refine first.append ((cons_multi_iff wild).mpr
    ⟨stretch ++ (rest ++ behind).take behind.length, (rest ++ behind).drop behind.length, ?_,
      last.of_length_eq every ?_ ?_⟩)
  · rw [List.append_assoc, List.append_assoc, List.take_append_drop]
  · rw [List.length_drop, List.length_append]
    omega
  · intro element member
    have inside := List.mem_of_mem_drop member
    apply all
    rw [List.append_assoc, List.append_assoc]
    exact List.mem_append_right _ (List.mem_append_right _ inside)

/-- Without an open end some row may not follow. -/
theorem exists_not_append {usable : T → Prop} (some : ∃ element, usable element)
    (closed : ¬OpenEnded isMulti matchesSingle usable pattern) :
    ∃ behind : List T, behind ≠ [] ∧ (∀ element ∈ behind, usable element) ∧
      ∀ value, ¬Glob isMulti matchesSingle pattern (value ++ behind) := by
  obtain ⟨element, fine⟩ := some
  induction pattern using List.reverseRecOn with
  | nil =>
    refine ⟨[element], List.cons_ne_nil _ _, ?_, fun value matched => ?_⟩
    · intro other member
      rwa [List.mem_singleton.mp member]
    · have empty := nil_iff.mp matched
      rw [List.append_eq_nil_iff] at empty
      cases empty.2
  | append_singleton front token ih =>
    have plain : isMulti token = false := by
      by_contra wild
      exact closed ⟨front, token, [], rfl, Bool.not_eq_false _ ▸ wild, nofun⟩
    have last {value : List T} {final : T}
        (matched : Glob isMulti matchesSingle (front ++ [token]) (value ++ [final])) :
        matchesSingle token final = true ∧ Glob isMulti matchesSingle front value := by
      obtain ⟨left, right, whole, first, second⟩ := matched.of_append
      obtain ⟨other, rest, rfl, fits, none⟩ := (cons_single_iff plain).mp second
      rw [nil_iff.mp none] at whole
      obtain ⟨rfl, same⟩ := List.append_inj' whole rfl
      cases same
      exact ⟨fits, first⟩
    by_cases every : ∀ element, usable element → matchesSingle token element = true
    · have closed' : ¬OpenEnded isMulti matchesSingle usable front := by
        rintro ⟨before, star, tail, rfl, wild, each⟩
        refine closed ⟨before, star, tail ++ [token], by simp, wild, fun other member => ?_⟩
        rcases List.mem_append.mp member with member | member
        · exact each other member
        · rw [List.mem_singleton.mp member]
          exact fun _ => every
      obtain ⟨behind, -, all, fails⟩ := ih closed'
      refine ⟨behind ++ [element], by simp, fun other member => ?_, fun value matched => ?_⟩
      · rcases List.mem_append.mp member with member | member
        · exact all other member
        · rwa [List.mem_singleton.mp member]
      · rw [← List.append_assoc] at matched
        exact fails value (last matched).2
    · push Not at every
      obtain ⟨other, usable, misses⟩ := every
      refine ⟨[other], List.cons_ne_nil _ _, fun _ member => ?_, fun value matched => ?_⟩
      · rwa [List.mem_singleton.mp member]
      · exact misses (last matched).1

end

/-- Tokens that match themselves match a row of them. -/
theorem self {T : Type} {isMulti : T → Bool} {matchesSingle : T → T → Bool} {pattern : List T}
    (itself : ∀ token ∈ pattern, matchesSingle token token = true) :
    Glob isMulti matchesSingle pattern pattern := by
  induction pattern with
  | nil => exact .nil
  | cons token pattern ih =>
    refine cons_iff.mpr ⟨[token], pattern, rfl, ?_,
      ih fun other member => itself other (List.mem_cons_of_mem _ member)⟩
    unfold Fits
    split
    next => trivial
    next => exact ⟨token, rfl, itself token List.mem_cons_self⟩

end Glob

/-! ## Paths below a base -/

theorem stripPrefix_eq_some {front rest : Text} :
    Text.stripPrefix front text = some rest ↔ text = front ++ rest := by
  unfold Text.stripPrefix
  constructor
  · intro stripped
    split at stripped
    next starts =>
      obtain ⟨more, rfl⟩ := starts
      cases stripped
      rw [List.drop_left]
    next => cases stripped
  · rintro rfl
    rw [if_pos (List.prefix_append front rest), List.drop_left]

theorem relativeArchivePath_eq_some {base relative : Text} :
    relativeArchivePath base path = some relative ↔
      (path = base ∧ relative = []) ∨ path = base ++ '/' :: relative := by
  unfold relativeArchivePath
  by_cases same : path = base
  · rw [if_pos same]
    subst same
    constructor
    · intro found
      exact .inl ⟨rfl, (Option.some.inj found).symm⟩
    · rintro (⟨-, rfl⟩ | longer)
      · rfl
      · have length := congrArg List.length longer
        rw [List.length_append, List.length_cons] at length
        omega
  · rw [if_neg same, Option.bind_eq_some_iff]
    simp only [stripPrefix_eq_some]
    constructor
    · rintro ⟨_, rfl, rfl⟩
      exact .inr rfl
    · rintro (⟨here, -⟩ | longer)
      · exact absurd here same
      · exact ⟨'/' :: relative, longer, rfl⟩

/-- Below a directory that is below the base. -/
theorem relativeArchivePath_below {base directory relative rest : Text}
    (inside : relativeArchivePath base directory = some relative) (some : relative ≠ []) :
    relativeArchivePath base (directory ++ '/' :: rest) = .some (relative ++ '/' :: rest) := by
  rcases relativeArchivePath_eq_some.mp inside with ⟨-, none⟩ | rfl
  · exact absurd none some
  · refine relativeArchivePath_eq_some.mpr (.inr ?_)
    rw [List.append_assoc, List.cons_append]

/-- One segment of a path. -/
def IsName (name : Text) : Prop := name ≠ [] ∧ '/' ∉ name

theorem isName_of_mem {path name : Text} (member : name ∈ splitPathSegments path) :
    IsName name := by
  obtain ⟨inside, some⟩ := List.mem_filter.mp member
  exact ⟨of_decide_eq_true some, Text.separator_not_mem_of_mem_splitOn '/' path name inside⟩

theorem splitPathSegments_append (front back : Text) :
    splitPathSegments (front ++ '/' :: back) =
      splitPathSegments front ++ splitPathSegments back := by
  unfold splitPathSegments
  rw [List.splitOn_append_cons_self, List.filter_append]

theorem splitPathSegments_name {name : Text} (single : IsName name) :
    splitPathSegments name = [name] := by
  unfold splitPathSegments
  rw [List.splitOn_eq_singleton single.2]
  exact List.filter_cons_of_pos (decide_eq_true single.1)

/-- Names with slashes between them are those names. -/
theorem splitPathSegments_join {names : List Text} (all : ∀ name ∈ names, IsName name) :
    splitPathSegments (['/'].intercalate names) = names := by
  induction names with
  | nil => rfl
  | cons name names ih =>
    have single := all name List.mem_cons_self
    cases names with
    | nil =>
      rw [List.intercalate_singleton]
      exact splitPathSegments_name single
    | cons next rest =>
      rw [List.intercalate_cons_cons, List.append_assoc, List.singleton_append,
        splitPathSegments_append, splitPathSegments_name single,
        ih fun other member => all other (List.mem_cons_of_mem _ member)]
      rfl

/-! ## Patterns -/

/-- The wildcard for any row of segments. -/
def isDoubleStar (segment : Text) : Bool := segment == ['*', '*']

def segmentMatches (segment value : Text) : Bool := segmentPatternMatches value segment

abbrev SegmentsMatch : List Text → List Text → Prop := Glob isDoubleStar segmentMatches

theorem pathSegmentsMatch_eq_true {pattern path : List Text} :
    pathSegmentsMatch pattern path = true ↔ SegmentsMatch pattern path :=
  wildcardMatchesCustom_eq_true

theorem pathPatternMatches_eq_true {pattern : Text} :
    pathPatternMatches path pattern = true ↔
      SegmentsMatch (splitPathSegments pattern) (splitPathSegments path) :=
  pathSegmentsMatch_eq_true

theorem pathPatternMatchesOrContainsDescendant_eq_true {pattern : Text} :
    pathPatternMatchesOrContainsDescendant path pattern = true ↔
      SegmentsMatch (splitPathSegments pattern) (splitPathSegments path) ∨
        pattern ++ ['/'] <+: path := by
  unfold pathPatternMatchesOrContainsDescendant
  rw [Bool.or_eq_true, pathPatternMatches_eq_true, Option.any_eq_true]
  refine or_congr_right ?_
  simp only [stripPrefix_eq_some]
  constructor
  · rintro ⟨_, rfl, starts⟩
    obtain ⟨rest, rfl⟩ := of_decide_eq_true starts
    exact ⟨rest, List.append_assoc _ _ _⟩
  · rintro ⟨rest, rfl⟩
    exact ⟨'/' :: rest, List.append_assoc _ _ _, decide_eq_true ⟨rest, rfl⟩⟩

/-- A segment of a pattern matches itself. -/
theorem segmentMatches_self (segment : Text) : segmentMatches segment segment = true := by
  refine wildcardMatchesCustom_eq_true.mpr (Glob.self fun token _ => ?_)
  rw [beq_self_eq_true, Bool.or_true]

theorem segmentsMatch_self (segments : List Text) : SegmentsMatch segments segments :=
  Glob.self fun segment _ => segmentMatches_self segment

/-! ## Rules that are parsed -/

theorem slash_suffix_trimStart (slash : ['/'] <:+ text) : ['/'] <:+ Text.trimStart text := by
  obtain ⟨front, rfl⟩ := slash
  unfold Text.trimStart
  rw [List.dropWhile_append]
  split
  next => exact ⟨[], by decide⟩
  next => exact List.suffix_append _ _

theorem slash_suffix_trim (slash : ['/'] <:+ text) : ['/'] <:+ Text.trim text := by
  obtain ⟨front, whole⟩ := slash_suffix_trimStart slash
  unfold Text.trimStart at whole
  rw [Text.trim_eq_rdropWhile, ← whole, List.rdropWhile_concat_neg _ _ _ (by decide)]
  exact List.suffix_append _ _

/-- A rule from a line has a pattern, and is one for directories when the line ends in a
slash. -/
theorem of_parseGitignoreRule {line baseArchivePath : Text} {rule : GitignoreRule}
    (parsed : parseGitignoreRule line baseArchivePath = some rule) :
    rule.pattern ≠ [] ∧ (['/'] <:+ line → rule.scope = .directory) := by
  unfold parseGitignoreRule at parsed
  dsimp only at parsed
  split at parsed
  next => cases parsed
  next some =>
    by_cases bang : ['!'] <+: Text.trim line
    · rw [if_pos bang] at parsed
      dsimp only at parsed
      split at parsed
      next => cases parsed
      next =>
        split at parsed
        next => cases parsed
        next nonempty =>
          cases parsed
          refine ⟨nonempty, fun slash => if_pos (slash_suffix_trimStart ?_)⟩
          obtain ⟨rest, whole⟩ := bang
          have ends := slash_suffix_trim slash
          rw [← whole] at ends ⊢
          exact ((List.suffix_cons_iff.mp ends).resolve_left (by simp) : _)
    · rw [if_neg bang] at parsed
      dsimp only at parsed
      split at parsed
      next => cases parsed
      next =>
        split at parsed
        next => cases parsed
        next nonempty =>
          cases parsed
          exact ⟨nonempty, fun slash => if_pos (slash_suffix_trim slash)⟩

end ZManager
