import Mathlib.Data.List.DropRight
import ZManager.Foundation.Glob
import ZManager.Safety.Planner

/-! # Selecting one entry by its name

Retained 7z entries are extracted by making their raw names the include patterns of
the planner. A pattern is compared with the normalized path of an entry, and of a
raw name only the backslashes are folded.
-/

namespace ZManager

/-! ## The wildcard matcher -/

section

variable {P T : Type} {pattern : List P} {value : List T} {isMulti : P → Bool}
variable {matchesSingle : P → T → Bool}

/-- What the loop accepts is matched. What lies before the two indices is matched, and
what lies before the last wildcard up to where its stretch began. -/
theorem wildcardLoop_sound {fuel patternIndex valueIndex starValueIndex : Nat}
    {lastStar : Option Nat}
    (matched : Glob isMulti matchesSingle (pattern.take patternIndex) (value.take valueIndex))
    (starred : ∀ index, lastStar = some index → ∃ token, pattern[index]? = some token ∧
      isMulti token = true ∧
        Glob isMulti matchesSingle (pattern.take (index + 1)) (value.take starValueIndex))
    (accepted : wildcardLoop pattern value isMulti matchesSingle fuel patternIndex valueIndex
      lastStar starValueIndex = true) : Glob isMulti matchesSingle pattern value := by
  induction fuel generalizing patternIndex valueIndex lastStar starValueIndex with
  | zero => cases accepted
  | succ fuel ih =>
    have backtrack : ∀ index, lastStar = some index →
        wildcardLoop pattern value isMulti matchesSingle fuel (index + 1) (starValueIndex + 1)
          lastStar (starValueIndex + 1) = true → Glob isMulti matchesSingle pattern value := by
      intro index last again
      obtain ⟨token, found, wild, before⟩ := starred index last
      have longer : Glob isMulti matchesSingle (pattern.take (index + 1))
          (value.take (starValueIndex + 1)) := by
        rw [List.take_add_one, found] at before ⊢
        rw [@List.take_add_one _ value]
        exact before.extend wild _
      refine ih longer ?_ again
      intro other same
      rw [last] at same
      cases same
      exact ⟨token, found, wild, longer⟩
    unfold wildcardLoop at accepted
    simp only at accepted
    cases present : value[valueIndex]? with
    | none =>
      rw [present] at accepted
      have ended : value.take valueIndex = value :=
        List.take_of_length_le (List.getElem?_eq_none_iff.mp present)
      rw [ended] at matched
      have stars : ∀ token ∈ pattern.drop patternIndex, isMulti token = true :=
        List.dropWhile_eq_nil_iff.mp (List.isEmpty_iff.mp accepted)
      have whole := matched.append_multi stars
      rwa [List.take_append_drop] at whole
    | some current =>
      rw [present] at accepted
      have valueStep : value.take (valueIndex + 1) = value.take valueIndex ++ [current] := by
        rw [List.take_add_one, present]
        rfl
      cases token : pattern[patternIndex]? with
      | none =>
        rw [token] at accepted
        cases lastStar with
        | none => cases accepted
        | some index => exact backtrack index rfl accepted
      | some first =>
        rw [token] at accepted
        have patternStep : pattern.take (patternIndex + 1) =
            pattern.take patternIndex ++ [first] := by
          rw [List.take_add_one, token]
          rfl
        simp only at accepted
        by_cases wild : isMulti first = true
        · rw [if_pos wild] at accepted
          have passed : Glob isMulti matchesSingle (pattern.take (patternIndex + 1))
              (value.take valueIndex) := by
            have added := Glob.multi [] wild matched
            rwa [List.append_nil, ← patternStep] at added
          refine ih passed ?_ accepted
          intro index same
          cases same
          exact ⟨first, token, wild, passed⟩
        · rw [if_neg wild] at accepted
          by_cases fits : matchesSingle first current = true
          · rw [if_pos fits] at accepted
            refine ih ?_ starred accepted
            rw [patternStep, valueStep]
            exact .single (Bool.eq_false_iff.mpr wild) fits matched
          · rw [if_neg fits] at accepted
            cases lastStar with
            | none => cases accepted
            | some index => exact backtrack index rfl accepted

/-- **The wildcard matcher** accepts only values that the pattern matches. -/
theorem wildcardMatchesCustom_sound
    (accepted : wildcardMatchesCustom pattern value isMulti matchesSingle = true) :
    Glob isMulti matchesSingle pattern value := by
  refine wildcardLoop_sound ?_ ?_ accepted
  · exact .nil
  · intro index same
    cases same

end

/-! ## Separators in bytes -/

/-- A byte of the lower half stands for one character. -/
theorem eq_of_mem_utf8EncodeChar {char : Char} {byte : UInt8} (low : byte.toNat < 128)
    (member : byte ∈ String.utf8EncodeChar char) : char.toNat = byte.toNat := by
  unfold String.utf8EncodeChar at member
  simp only at member
  split_ifs at member
  all_goals simp only [List.mem_cons, List.not_mem_nil, or_false] at member
  · subst member
    simp only [UInt8.toNat_ofNat'] at low ⊢
    change char.val.toNat = _
    omega
  · rcases member with rfl | rfl
    all_goals
      simp only [UInt8.toNat_ofNat'] at low
      omega
  · rcases member with rfl | rfl | rfl
    all_goals
      simp only [UInt8.toNat_ofNat'] at low
      omega
  · rcases member with rfl | rfl | rfl | rfl
    all_goals
      simp only [UInt8.toNat_ofNat'] at low
      omega

/-- A text splits at slashes as its bytes do. -/
theorem splitOn_utf8Bytes (text : Text) :
    (utf8Bytes text).splitOn 47 = (text.splitOn '/').map utf8Bytes := by
  induction text with
  | nil => rfl
  | cons char rest ih =>
    rw [utf8Bytes_cons, List.splitOn_cons_eq_if_modifyHead]
    by_cases slash : char = '/'
    · subst slash
      change (47 :: utf8Bytes rest).splitOn 47 = _
      rw [List.splitOn_cons_eq_if_modifyHead, ih]
      simp
      rfl
    · have absent : (47 : UInt8) ∉ String.utf8EncodeChar char := by
        intro member
        have code := eq_of_mem_utf8EncodeChar (by decide) member
        exact slash (Char.toNat_inj.mp code)
      have unequal : (char == '/') = false := by simpa using slash
      rw [splitOn_append_of_not_mem absent, ih, unequal]
      cases rest.splitOn '/' with
      | nil => rfl
      | cons first others => rfl

/-! ## Names and their normal form -/

/-- No part of a name is empty or a dot. -/
def PlainParts (text : Text) : Prop :=
  ∀ part ∈ text.splitOn '/', part ≠ [] ∧ part ≠ ['.']

instance (text : Text) : Decidable (PlainParts text) :=
  inferInstanceAs (Decidable (∀ part ∈ text.splitOn '/', _))

/-- The parts that normalization keeps. -/
def keptParts (text : Text) : List Text :=
  (text.splitOn '/').filter fun part => part ≠ [] ∧ part ≠ ['.']

theorem normalizeParts_kept_eq {rawPath : Text} {input parts : List Text}
    (accepted : normalizeParts rawPath input = .ok parts) :
    parts = input.filter fun part => part ≠ [] ∧ part ≠ ['.'] := by
  induction input generalizing parts with
  | nil =>
    cases accepted
    rfl
  | cons head rest ih =>
    unfold normalizeParts at accepted
    split_ifs at accepted with _ _ dropped dotdot
    · rw [List.filter_cons_of_neg (by simpa [imp_iff_not_or] using dropped)]
      exact ih accepted
    · cases tail : normalizeParts rawPath rest with
      | error failure =>
        rw [tail] at accepted
        cases accepted
      | ok kept =>
        rw [tail] at accepted
        cases accepted
        rw [List.filter_cons_of_pos (by simpa [not_or] using dropped), ih tail]

/-- An accepted name becomes its kept parts, joined. -/
theorem normalizeArchivePath_eq {rawPath path : Text}
    (accepted : normalizeArchivePath rawPath = .ok path) :
    path = ['/'].intercalate (keptParts (replaceBackslash rawPath)) := by
  obtain ⟨_, -, rest⟩ := Except.bind_eq_ok_iff.mp accepted
  obtain ⟨parts, loop, finished⟩ := Except.bind_eq_ok_iff.mp rest
  split_ifs at finished
  cases finished
  rw [normalizeParts_kept_eq loop]
  rfl

theorem keptParts_of_plain {text : Text} (plain : PlainParts text) :
    keptParts text = text.splitOn '/' := by
  unfold keptParts
  rw [List.filter_eq_self]
  intro part member
  simpa using plain part member

theorem exists_trimEndSlashes (text : Text) :
    ∃ slashes, text = trimEndSlashes text ++ slashes ∧ ∀ char ∈ slashes, char = '/' := by
  refine ⟨(text.reverse.takeWhile (· == '/')).reverse, ?_, ?_⟩
  · unfold trimEndSlashes
    rw [← List.reverse_append, List.takeWhile_append_dropWhile, List.reverse_reverse]
  · intro char member
    have kept := List.mem_takeWhile_imp (List.mem_reverse.mp member)
    simpa using kept

theorem keptParts_trimEndSlashes (text : Text) :
    keptParts (trimEndSlashes text) = keptParts text := by
  obtain ⟨slashes, whole, only⟩ := exists_trimEndSlashes text
  generalize trimEndSlashes text = clean at whole ⊢
  subst whole
  cases slashes with
  | nil => rw [List.append_nil]
  | cons first rest =>
    have slash := only first List.mem_cons_self
    subst slash
    have dropped : keptParts rest = [] := by
      unfold keptParts
      rw [List.filter_eq_nil_iff]
      intro part member
      have empty : part = [] := by
        by_contra filled
        obtain ⟨char, inside⟩ := List.exists_mem_of_ne_nil part filled
        have same := only char (List.mem_cons_of_mem _
          (Text.mem_of_mem_splitOn '/' rest part member char inside))
        subst same
        exact Text.separator_not_mem_of_mem_splitOn '/' rest part member inside
      simp [empty]
    unfold keptParts at dropped ⊢
    rw [List.splitOn_append_cons_self, List.filter_append, dropped, List.append_nil]

section

variable {rawPath path : Text}

section

variable (accepted : normalizeArchivePath rawPath = .ok path)
include accepted

/-- The normal form has plain parts and no backslash. -/
theorem plain_of_accepted :
    PlainParts path ∧ '\\' ∉ path := by
  obtain ⟨names, member, plain⟩ := normalizeArchivePath_plain accepted
  constructor
  · intro part inside
    rw [member.splitOn_eq] at inside
    exact ⟨(plain part inside).ne_nil, (plain part inside).ne_dot⟩
  · intro backslash
    rw [member.text] at backslash
    rcases Text.mem_intercalate backslash with slash | ⟨name, inside, within⟩
    · cases slash
    · exact (plain name inside).no_backslash within

/-- A name with plain parts, up to slashes at its end, is its own normal form. -/
theorem eq_trimEndSlashes_of_plain
    (plain : PlainParts (trimEndSlashes (replaceBackslash rawPath))) :
    path = trimEndSlashes (replaceBackslash rawPath) := by
  rw [normalizeArchivePath_eq accepted, ← keptParts_trimEndSlashes, keptParts_of_plain plain,
    List.intercalate_splitOn]

theorem eq_of_plain (plain : PlainParts (replaceBackslash rawPath)) :
    path = replaceBackslash rawPath := by
  rw [normalizeArchivePath_eq accepted, keptParts_of_plain plain, List.intercalate_splitOn]

end

/-- The parts before a slash are parts of the whole. -/
theorem PlainParts.front {front back : Text} (plain : PlainParts (front ++ '/' :: back)) :
    PlainParts front := by
  intro part member
  apply plain part
  rw [List.splitOn_append_cons_self]
  exact List.mem_append_left _ member

/-- A wildcard pattern that matches a name with plain parts has plain parts. -/
theorem plainParts_of_wildcardMatches {pattern value : Text} (plain : PlainParts value)
    (accepted : wildcardMatches (utf8Bytes pattern) (utf8Bytes value) = true) :
    PlainParts pattern := by
  have matched := wildcardMatchesCustom_sound accepted
  have literal : ∀ part : Text, (part = [] ∨ part = ['.']) → part ∈ pattern.splitOn '/' →
      part ∈ value.splitOn '/' := by
    intro part kind member
    have tokens : ∀ token ∈ (47 : UInt8) :: utf8Bytes part, token = 47 ∨ token = 46 := by
      rcases kind with rfl | rfl
      · simp [utf8Bytes]
      · intro token inside
        have two : utf8Bytes ['.'] = [46] := by decide
        rw [two] at inside
        simpa using inside
    have inside : utf8Bytes part ∈ (utf8Bytes value).splitOn 47 := by
      apply matched.mem_splitOn_of_literal
      · rw [splitOn_utf8Bytes]
        exact List.mem_map_of_mem member
      · intro token listed
        rcases tokens token listed with rfl | rfl
        · rfl
        · rfl
      · intro token listed element same
        rcases tokens token listed with rfl | rfl
        · have equal : (47 : UInt8) = element := by simpa using same
          exact equal.symm
        · have equal : (46 : UInt8) = element := by simpa using same
          exact equal.symm
    rw [splitOn_utf8Bytes] at inside
    obtain ⟨other, listed, same⟩ := List.mem_map.mp inside
    rwa [← utf8Bytes_injective same]
  intro part member
  constructor
  · intro empty
    exact (plain part (literal part (.inl empty) member)).1 empty
  · intro dot
    exact (plain part (literal part (.inr dot) member)).2 dot

/-! ## Patterns made of names -/

/-- The name selects itself: its parts are plain, or it has no wildcards and its parts
are plain up to slashes at its end. -/
def SelectsItself (rawPath : Text) : Prop :=
  PlainParts (replaceBackslash rawPath) ∨
    '*' ∉ replaceBackslash rawPath ∧ '?' ∉ replaceBackslash rawPath ∧
      PlainParts (trimEndSlashes (replaceBackslash rawPath))

instance (rawPath : Text) : Decidable (SelectsItself rawPath) :=
  inferInstanceAs (Decidable (_ ∨ _))

theorem trimEndSlashes_concat (text : Text) :
    trimEndSlashes (text ++ ['/']) = trimEndSlashes text := by
  simp [trimEndSlashes]

theorem trimEndSlashes_idem (text : Text) :
    trimEndSlashes (trimEndSlashes text) = trimEndSlashes text := by
  unfold trimEndSlashes
  rw [List.reverse_reverse, (List.dropWhile_idempotent _ _)]

theorem mem_trimEndSlashes {text : Text} {char : Char} (other : char ≠ '/') :
    char ∈ trimEndSlashes text ↔ char ∈ text := by
  obtain ⟨slashes, whole, only⟩ := exists_trimEndSlashes text
  constructor
  · intro inside
    rw [whole]
    exact List.mem_append_left _ inside
  · intro inside
    rw [whole] at inside
    rcases List.mem_append.mp inside with kept | slash
    · exact kept
    · exact absurd (only char slash) other

/-- The four ways in which a pattern matches a path without backslashes. -/
theorem isMatch_iff (noBackslash : '\\' ∉ path) :
    (CompiledPattern.new rawPath).isMatch path = true ↔
      replaceBackslash rawPath = path ∨
        (['/', '*', '*'] <:+ replaceBackslash rawPath ∧
          (replaceBackslash rawPath).take ((replaceBackslash rawPath).length - 2) <+: path) ∨
        ((trimEndSlashes (replaceBackslash rawPath) ≠ [] ∧
            '*' ∉ trimEndSlashes (replaceBackslash rawPath) ∧
            '?' ∉ trimEndSlashes (replaceBackslash rawPath)) ∧
          (path = trimEndSlashes (replaceBackslash rawPath) ∨
            trimEndSlashes (replaceBackslash rawPath) ++ ['/'] <+: path)) ∨
        (¬ (trimEndSlashes (replaceBackslash rawPath) ≠ [] ∧
            '*' ∉ trimEndSlashes (replaceBackslash rawPath) ∧
            '?' ∉ trimEndSlashes (replaceBackslash rawPath)) ∧
          ('*' ∈ replaceBackslash rawPath ∨ '?' ∈ replaceBackslash rawPath) ∧
            wildcardMatches (utf8Bytes (replaceBackslash rawPath)) (utf8Bytes path) = true) := by
  have folded := replaceBackslash_of_plain noBackslash
  have trimmed : trimEndSlashes (trimEndSlashes (replaceBackslash rawPath) ++ ['/']) =
      trimEndSlashes (replaceBackslash rawPath) := by
    rw [trimEndSlashes_concat, trimEndSlashes_idem]
  by_cases literal : trimEndSlashes (replaceBackslash rawPath) ≠ [] ∧
      '*' ∉ trimEndSlashes (replaceBackslash rawPath) ∧
        '?' ∉ trimEndSlashes (replaceBackslash rawPath)
  · have made : CompiledPattern.new rawPath = ⟨replaceBackslash rawPath,
        some (trimEndSlashes (replaceBackslash rawPath) ++ ['/']),
        if ['/', '*', '*'] <:+ replaceBackslash rawPath then
          some ((replaceBackslash rawPath).take ((replaceBackslash rawPath).length - 2))
        else none, false⟩ := if_pos literal
    rw [made]
    unfold CompiledPattern.isMatch
    rw [folded]
    by_cases suffix : ['/', '*', '*'] <:+ replaceBackslash rawPath
    · simp [suffix, literal, trimmed]
    · simp [suffix, literal, trimmed]
  · have made : CompiledPattern.new rawPath = ⟨replaceBackslash rawPath, none,
        if ['/', '*', '*'] <:+ replaceBackslash rawPath then
          some ((replaceBackslash rawPath).take ((replaceBackslash rawPath).length - 2))
        else none,
        decide ('*' ∈ replaceBackslash rawPath ∨ '?' ∈ replaceBackslash rawPath)⟩ := if_neg literal
    rw [made]
    unfold CompiledPattern.isMatch
    rw [folded]
    by_cases suffix : ['/', '*', '*'] <:+ replaceBackslash rawPath
    · simp [suffix, literal]
    · simp [suffix, literal]

theorem isMatch_of_selectsItself (accepted : normalizeArchivePath rawPath = .ok path)
    (selects : SelectsItself rawPath) : (CompiledPattern.new rawPath).isMatch path = true := by
  obtain ⟨plain, noBackslash⟩ := plain_of_accepted accepted
  apply (isMatch_iff noBackslash).mpr
  rcases selects with exactly | ⟨noStar, noQuestion, nearly⟩
  · exact .inl (eq_of_plain accepted exactly).symm
  · have same := eq_trimEndSlashes_of_plain accepted nearly
    have filled : trimEndSlashes (replaceBackslash rawPath) ≠ [] := by
      intro empty
      rw [empty] at nearly
      exact (nearly [] (by simp)).1 rfl
    refine .inr (.inr (.inl ⟨⟨filled, ?_, ?_⟩, .inl same⟩))
    · rwa [mem_trimEndSlashes (by decide)]
    · rwa [mem_trimEndSlashes (by decide)]

theorem selectsItself_of_isMatch (accepted : normalizeArchivePath rawPath = .ok path)
    (matched : (CompiledPattern.new rawPath).isMatch path = true) : SelectsItself rawPath := by
  obtain ⟨plain, noBackslash⟩ := plain_of_accepted accepted
  rcases (isMatch_iff noBackslash).mp matched with same | ⟨suffix, front⟩ | ⟨literal, clean⟩ |
    ⟨-, -, wild⟩
  · rw [← same] at plain
    exact .inl plain
  · -- The pattern is `front/**`, and the path goes on behind `front/`.
    obtain ⟨start, whole⟩ := suffix
    have shape : (replaceBackslash rawPath).take ((replaceBackslash rawPath).length - 2) =
        start ++ ['/'] := by
      have split : replaceBackslash rawPath = (start ++ ['/']) ++ ['*', '*'] := by
        rw [← whole]
        simp
      rw [split]
      exact List.take_left' (by simp)
    obtain ⟨back, ended⟩ := front
    rw [shape, List.append_assoc, List.singleton_append] at ended
    rw [← ended] at plain
    left
    intro part member
    rw [← whole, List.splitOn_append_cons_self] at member
    rcases List.mem_append.mp member with inside | last
    · exact plain.front part inside
    · have stars : (['*', '*'] : Text).splitOn '/' = [['*', '*']] := by decide
      rw [stars] at last
      rw [List.mem_singleton.mp last]
      decide
  · obtain ⟨-, noStar, noQuestion⟩ := literal
    rw [mem_trimEndSlashes (by decide)] at noStar noQuestion
    refine .inr ⟨noStar, noQuestion, ?_⟩
    rcases clean with same | ⟨back, ended⟩
    · rwa [← same]
    · rw [List.append_assoc, List.singleton_append] at ended
      rw [← ended] at plain
      exact plain.front
  · exact .inl (plainParts_of_wildcardMatches plain wild)

end

/-! ## Retained 7z entries -/

/-- Stable path-based identity for a 7z entry retained by the engine session. -/
structure SevenZEntrySelector where
  path : Text
  occurrence : Nat

/-- `Vec::dedup`. -/
def dedupAdjacent : List Text → List Text
  | first :: second :: rest =>
    if first = second then dedupAdjacent (second :: rest)
    else first :: dedupAdjacent (second :: rest)
  | rest => rest

/-- The policy under which `extract_7z_entries_by_name_occurrence_with_context` plans. -/
def selectedPolicy (policy : ExtractionPolicy) (selectors : List SevenZEntrySelector) :
    ExtractionPolicy :=
  { policy with includePatterns := dedupAdjacent ((selectors.map SevenZEntrySelector.path).mergeSort
      fun left right => decide (utf8Bytes left ≤ utf8Bytes right)) }

theorem mem_dedupAdjacent {paths : List Text} {path : Text} (member : path ∈ paths) :
    path ∈ dedupAdjacent paths := by
  induction paths using dedupAdjacent.induct with
  | case1 second rest ih =>
    unfold dedupAdjacent
    rw [if_pos rfl]
    rcases List.mem_cons.mp member with rfl | inside
    · exact ih List.mem_cons_self
    · exact ih inside
  | case2 first second rest different ih =>
    unfold dedupAdjacent
    rw [if_neg different]
    rcases List.mem_cons.mp member with rfl | inside
    · exact List.mem_cons_self
    · exact List.mem_cons_of_mem _ (ih inside)
  | case3 paths single =>
    unfold dedupAdjacent
    split
    · exact absurd rfl (single _ _ _)
    · exact member

theorem mem_selectedPolicy {policy : ExtractionPolicy} {selectors : List SevenZEntrySelector}
    {path : Text} (member : path ∈ selectors.map SevenZEntrySelector.path) :
    path ∈ (selectedPolicy policy selectors).includePatterns :=
  mem_dedupAdjacent (List.mem_mergeSort.mpr member)

/-- An entry named by a selector is not left out: its own pattern matches, and it is
never skipped as filtered where the caller excludes nothing of its path. -/
def SelectedByName (rawPath path : Text) : Prop :=
  (CompiledPattern.new rawPath).isMatch path = true ∧
    ∀ (policy : ExtractionPolicy) (selectors : List SevenZEntrySelector) (planner : Planner)
      (entry : ExtractionEntry), rawPath ∈ selectors.map SevenZEntrySelector.path →
        planner.compiledIncludes =
          (selectedPolicy policy selectors).includePatterns.map CompiledPattern.new →
        (∀ pattern ∈ planner.compiledExcludes, pattern.isMatch path = false) →
        entry.archivePath = rawPath →
          Planner.selectMember planner entry ≠
            .ok (.inl (path, "filtered by include/exclude policy"))

theorem selectMember_ne_filtered {planner : Planner} {entry : ExtractionEntry}
    {rawPath path : Text} (accepted : normalizeArchivePath rawPath = .ok path)
    (named : entry.archivePath = rawPath) (selected : planner.isPathSelected path = true) :
    Planner.selectMember planner entry ≠
      .ok (.inl (path, "filtered by include/exclude policy")) := by
  unfold Planner.selectMember
  rw [named, accepted]
  simp only [bind, Except.bind, selected, ↓reduceIte]
  split_ifs
  · cases stripArchiveComponents path planner.policy.stripComponents with
    | none => simp [pure, Except.pure]
    | some stripped => simp [pure, Except.pure]
  · simp [pure, Except.pure]

/-- **Which names select their entries.** The pattern made of a name matches the
normal form of the name exactly when no part of the name is empty or a dot, except
for separators at the end of a name without wildcards. -/
theorem retained_entry_selected_iff {rawPath path : Text}
    (accepted : normalizeArchivePath rawPath = .ok path) :
    SelectedByName rawPath path ↔ SelectsItself rawPath := by
  constructor
  · intro selected
    exact selectsItself_of_isMatch accepted selected.1
  · intro selects
    have matched := isMatch_of_selectsItself accepted selects
    refine ⟨matched, ?_⟩
    intro policy selectors planner entry listed includes excludes named
    apply selectMember_ne_filtered accepted named
    have included : planner.compiledIncludes.any (·.isMatch path) = true := by
      rw [includes, List.any_eq_true]
      exact ⟨_, List.mem_map_of_mem (mem_selectedPolicy listed), matched⟩
    have kept : planner.compiledExcludes.any (·.isMatch path) = false := by
      rw [List.any_eq_false]
      intro pattern member
      rw [excludes pattern member]
      exact Bool.false_ne_true
    unfold Planner.isPathSelected compiledPatternMatchesAny
    rw [included, kept, Bool.or_true]
    rfl

/-- A directory whose name ends with a separator. -/
theorem retained_directory_selected :
    SelectedByName "docs/a.txt/".toList "docs/a.txt".toList :=
  (retained_entry_selected_iff (by decide +kernel)).mpr (by decide +kernel)

/-- An entry that is stored as `./a` is accepted but not matched by its own name. -/
theorem retained_entry_filtered :
    normalizeArchivePath "./a".toList = .ok "a".toList ∧
      ¬ SelectedByName "./a".toList "a".toList := by
  refine ⟨by decide +kernel, ?_⟩
  intro selected
  exact absurd selected.1 (by decide +kernel)

end ZManager
