import ZManager.Manifest.GitignoreMatch

/-! # Ignore files and what stands below a directory

When a rule that matches a directory matches everything below it, which paths a rule for
directories matches, and whether a later rule may include something below a directory.
-/

namespace ZManager

namespace GitignoreRule

variable {rule : GitignoreRule} {path directory relative rest : Text}
  {fileType : ManifestFileType}

/-! ## What a rule matches -/

theorem isMatch_eq_true : rule.isMatch path fileType = true ↔
    ∃ relative, relativeArchivePath rule.baseArchivePath path = some relative ∧ relative ≠ [] ∧
      if rule.isAnchoredOrPathPattern then
        SegmentsMatch (splitPathSegments rule.pattern) (splitPathSegments relative) ∨
          rule.pattern ++ ['/'] <+: relative
      else
        (∃ segment ∈ relative.splitOn '/', segmentMatches rule.pattern segment) ∨
          (rule.scope ≠ .directory ∧ fileType = .directory ∧
            segmentMatches rule.pattern relative) := by
  unfold isMatch
  cases below : relativeArchivePath rule.baseArchivePath path with
  | none => simp
  | some relative =>
    by_cases empty : relative = []
    · simp [empty]
    by_cases pathPattern : rule.isAnchoredOrPathPattern = true
    · simp only [empty, ↓reduceIte, matchesDirectory, pathPattern, ite_self,
        pathPatternMatchesOrContainsDescendant_eq_true, Option.some.injEq, exists_eq_left',
        ne_eq, not_false_eq_true, true_and]
    · simp only [empty, ↓reduceIte, matchesDirectory, pathPattern, Option.some.injEq,
        exists_eq_left', ne_eq, not_false_eq_true, true_and]
      by_cases only : rule.scope = .directory
      · simp [only, segmentMatches]
      · simp [only, segmentMatches]

theorem isMatch_path (pathPattern : rule.isAnchoredOrPathPattern = true)
    (below : relativeArchivePath rule.baseArchivePath path = some relative)
    (some : relative ≠ []) : rule.isMatch path fileType = true ↔
      SegmentsMatch (splitPathSegments rule.pattern) (splitPathSegments relative) ∨
        rule.pattern ++ ['/'] <+: relative := by
  rw [isMatch_eq_true]
  simp only [below, Option.some.injEq, exists_eq_left', some, ne_eq, not_false_eq_true, true_and,
    pathPattern, ↓reduceIte]

theorem isMatch_name (name : rule.isAnchoredOrPathPattern ≠ true)
    (below : relativeArchivePath rule.baseArchivePath path = some relative)
    (some : relative ≠ []) : rule.isMatch path fileType = true ↔
      (∃ segment ∈ relative.splitOn '/', segmentMatches rule.pattern segment) ∨
        (rule.scope ≠ .directory ∧ fileType = .directory ∧
          segmentMatches rule.pattern relative) := by
  rw [isMatch_eq_true]
  simp only [below, Option.some.injEq, exists_eq_left', some, ne_eq, not_false_eq_true, true_and,
    name, Bool.false_eq_true, ↓reduceIte]

/-! ## Everything below a directory -/

/-- A pattern that covers what is below a path: a name on the path for a name, and for a path
the path or one above it, letter by letter, or an open end. -/
def CoversBelow (rule : GitignoreRule) (relative : Text) : Prop :=
  if rule.isAnchoredOrPathPattern then
    relative = rule.pattern ∨ rule.pattern ++ ['/'] <+: relative ∨
      Glob.OpenEnded isDoubleStar segmentMatches IsName (splitPathSegments rule.pattern)
  else ∃ segment ∈ relative.splitOn '/', segmentMatches rule.pattern segment

/-- A pattern that a path below a directory begins with is spelled along the directory. -/
theorem spelled_cases {pattern : Text}
    (starts : pattern ++ ['/'] <+: relative ++ '/' :: rest) :
    relative = pattern ∨ pattern ++ ['/'] <+: relative ∨ relative ++ ['/'] <+: pattern := by
  rcases Nat.lt_trichotomy pattern.length relative.length with shorter | same | longer
  · refine .inr (.inl (List.prefix_of_prefix_length_le starts (List.prefix_append _ _) ?_))
    rw [List.length_append, List.length_singleton]
    exact shorter
  · refine .inl ?_
    obtain ⟨tail, whole⟩ := starts
    rw [List.append_assoc] at whole
    exact (List.append_inj_left whole same).symm
  · have ours : relative ++ ['/'] <+: relative ++ '/' :: rest := ⟨rest, List.append_assoc _ _ _⟩
    refine .inr (.inr (List.prefix_of_prefix_length_le ours
      ((List.prefix_append _ _).trans starts) ?_))
    rw [List.length_append, List.length_singleton]
    exact longer

/-- A path that begins with a pattern does so before a name that is longer than the pattern. -/
theorem prefix_of_long {pattern name : Text} (single : '/' ∉ name)
    (long : pattern.length < name.length)
    (starts : pattern ++ ['/'] <+: relative ++ '/' :: (name ++ rest)) :
    relative = pattern ∨ pattern ++ ['/'] <+: relative := by
  refine (spelled_cases starts).imp_right fun either => either.resolve_right ?_
  -- the slash behind the pattern would stand in the name
  rintro ⟨middle, rfl⟩
  rw [List.append_assoc, List.append_assoc, List.singleton_append, List.prefix_append_right_inj,
    List.cons_prefix_cons] at starts
  have inside : middle ++ ['/'] <+: name := by
    refine List.prefix_of_prefix_length_le starts.2 (List.prefix_append _ _) ?_
    rw [List.length_append, List.length_append, List.length_singleton] at long
    rw [List.length_append, List.length_singleton]
    omega
  exact single (inside.subset (List.mem_append_right _ (List.mem_singleton_self _)))

section

variable (below : relativeArchivePath rule.baseArchivePath directory = some relative)
  (some : relative ≠ [])
include below some

/-- **What covers a directory covers everything below it.** -/
theorem isMatch_below (matched : rule.isMatch directory .directory = true)
    (covers : rule.CoversBelow relative) (rest : Text) (fileType : ManifestFileType) :
    rule.isMatch (directory ++ '/' :: rest) fileType = true := by
  have below' := @relativeArchivePath_below _ _ _ rest below some
  have some' : relative ++ '/' :: rest ≠ [] := List.append_ne_nil_of_left_ne_nil some _
  unfold CoversBelow at covers
  by_cases pathPattern : rule.isAnchoredOrPathPattern = true
  · rw [if_pos pathPattern] at covers
    rw [isMatch_path pathPattern below' some']
    rcases covers with rfl | ⟨more, rfl⟩ | opened
    · exact .inr ⟨rest, by simp⟩
    · exact .inr ⟨more ++ '/' :: rest, by simp⟩
    · rcases (isMatch_path pathPattern below some).mp matched with whole | ⟨more, rfl⟩
      · rw [splitPathSegments_append]
        refine .inl (whole.append_of_openEnded opened fun name member => ?_)
        rcases List.mem_append.mp member with member | member
        · exact isName_of_mem member
        · exact isName_of_mem member
      · exact .inr ⟨more ++ '/' :: rest, by simp⟩
  · rw [if_neg pathPattern] at covers
    rw [isMatch_name pathPattern below' some']
    obtain ⟨segment, member, fits⟩ := covers
    refine .inl ⟨segment, ?_, fits⟩
    rw [List.splitOn_append_cons_self]
    exact List.mem_append_left _ member

/-- **What does not cover a directory misses something below it.** -/
theorem exists_not_isMatch_below (covers : ¬rule.CoversBelow relative) :
    ∃ rest, rest ≠ [] ∧ rule.isMatch (directory ++ '/' :: rest) .file = false := by
  unfold CoversBelow at covers
  by_cases pathPattern : rule.isAnchoredOrPathPattern = true
  · rw [if_pos pathPattern] at covers
    obtain ⟨other, covers⟩ := not_or.mp covers
    obtain ⟨above, closed⟩ := not_or.mp covers
    obtain ⟨behind, -, names, fails⟩ := Glob.exists_not_append (T := Text)
      ⟨['a'], by decide, by decide⟩ closed
    -- a name longer than the pattern, and the row that may not follow
    have long : IsName (List.replicate (rule.pattern.length + 1) 'a') :=
      ⟨List.cons_ne_nil _ _, fun slash => absurd (List.eq_of_mem_replicate slash) (by decide)⟩
    have all : ∀ name ∈ List.replicate (rule.pattern.length + 1) 'a' :: behind, IsName name := by
      intro name member
      rcases List.mem_cons.mp member with rfl | member
      · exact long
      · exact names name member
    obtain ⟨rest, joined⟩ : ∃ rest, ['/'].intercalate
        (List.replicate (rule.pattern.length + 1) 'a' :: behind) =
          List.replicate (rule.pattern.length + 1) 'a' ++ rest := by
      cases behind with
      | nil => exact ⟨[], by simp⟩
      | cons next others => exact ⟨'/' :: ['/'].intercalate (next :: others), by simp⟩
    refine ⟨['/'].intercalate (List.replicate (rule.pattern.length + 1) 'a' :: behind), ?_, ?_⟩
    · rw [joined]
      exact List.cons_ne_nil _ _
    · refine Bool.eq_false_iff.mpr fun matched => ?_
      rw [isMatch_path pathPattern (relativeArchivePath_below below some)
        (List.append_ne_nil_of_left_ne_nil some _)] at matched
      rcases matched with whole | starts
      · rw [splitPathSegments_append, splitPathSegments_join all, ← List.singleton_append,
          ← List.append_assoc] at whole
        exact fails _ whole
      · rw [joined] at starts
        rcases prefix_of_long long.2 (by rw [List.length_replicate]; exact Nat.lt_succ_self _)
          starts with same | same
        · exact other same
        · exact above same
  · rw [if_neg pathPattern] at covers
    refine ⟨relative, some, Bool.eq_false_iff.mpr fun matched => ?_⟩
    rw [isMatch_name pathPattern (relativeArchivePath_below below some)
      (List.append_ne_nil_of_left_ne_nil some _)] at matched
    rcases matched with ⟨segment, member, fits⟩ | ⟨-, wrong, -⟩
    · rw [List.splitOn_append_cons_self] at member
      rcases List.mem_append.mp member with member | member
      · exact covers ⟨segment, member, fits⟩
      · exact covers ⟨segment, member, fits⟩
    · cases wrong

end

end GitignoreRule

/-- **A rule and what stands below a directory that it matches.** It matches every path below
exactly when its pattern covers what is below. -/
theorem gitignore_rule_covers_subtree_iff {rule : GitignoreRule} {directory relative : Text}
    (below : relativeArchivePath rule.baseArchivePath directory = some relative)
    (matched : rule.isMatch directory .directory = true) :
    (∀ rest fileType, rest ≠ [] → rule.isMatch (directory ++ '/' :: rest) fileType = true) ↔
      rule.CoversBelow relative := by
  obtain ⟨relative', below', some, -⟩ := GitignoreRule.isMatch_eq_true.mp matched
  cases below.symm.trans below'
  constructor
  · intro all
    by_contra covers
    obtain ⟨rest, nonempty, missed⟩ := GitignoreRule.exists_not_isMatch_below below some covers
    rw [all rest .file nonempty] at missed
    cases missed
  · intro covers rest fileType _
    exact GitignoreRule.isMatch_below below some matched covers rest fileType

theorem gitignore_rule_covers_target :
    GitignoreRule.isMatch ⟨"p".toList, "target".toList, .ignore, .directory, .anywhere⟩
      ("p/target".toList ++ '/' :: "app".toList) .file = true := by
  have covers : ∀ rest fileType, rest ≠ [] →
      GitignoreRule.isMatch ⟨"p".toList, "target".toList, .ignore, .directory, .anywhere⟩
        ("p/target".toList ++ '/' :: rest) fileType = true :=
    (@gitignore_rule_covers_subtree_iff _ _ "target".toList (by decide +kernel)
      (by decide +kernel)).mpr ⟨"target".toList, by decide +kernel, by decide +kernel⟩
  exact covers "app".toList .file (by decide)

/-- A rule with a wildcard that matches a directory, and not what is in it. -/
theorem wildcard_rule_misses_subtree : ¬∀ line baseArchivePath rule,
    parseGitignoreRule line baseArchivePath = some rule → ∀ directory,
      rule.isMatch directory .directory = true → ∀ rest fileType, rest ≠ [] →
        rule.isMatch (directory ++ '/' :: rest) fileType = true := by
  intro all
  have missed := all "/build*".toList "p".toList
    ⟨"p".toList, "build*".toList, .ignore, .any, .anchored⟩ (by decide +kernel)
    "p/builds".toList (by decide +kernel) "out.o".toList .file (by decide)
  exact absurd missed (by decide +kernel)

/-! ## Rules for directories -/

namespace GitignoreRule

variable {rule : GitignoreRule} {path relative : Text} {fileType : ManifestFileType}

/-- The pattern matches the path as a whole, or the last name on it. -/
def MatchesItself (rule : GitignoreRule) (relative : Text) : Prop :=
  if rule.isAnchoredOrPathPattern then
    SegmentsMatch (splitPathSegments rule.pattern) (splitPathSegments relative)
  else ∃ last ∈ (relative.splitOn '/').getLast?, segmentMatches rule.pattern last

/-- The pattern matches a path above, or a name on it. -/
def MatchesAbove (rule : GitignoreRule) (relative : Text) : Prop :=
  ∃ front rest, relative = front ++ '/' :: rest ∧ front ≠ [] ∧
    if rule.isAnchoredOrPathPattern then
      SegmentsMatch (splitPathSegments rule.pattern) (splitPathSegments front)
    else ∃ name ∈ front.splitOn '/', segmentMatches rule.pattern name

/-- A pattern that matches no characters matches any name. -/
theorem segmentMatches_of_nil {pattern : Text} (some : pattern ≠ [])
    (nothing : segmentMatches pattern [] = true) (name : Text) :
    segmentMatches pattern name = true := by
  have matched : Glob (· == 42) (fun token byte : UInt8 => token == 63 || token == byte)
      (utf8Bytes pattern) (utf8Bytes []) := wildcardMatchesCustom_eq_true.mp nothing
  have wild := Glob.nil_value_iff.mp matched
  refine wildcardMatchesCustom_eq_true.mpr ?_
  cases bytes : utf8Bytes pattern with
  | nil =>
    obtain ⟨first, rest, rfl⟩ := List.exists_cons_of_ne_nil some
    unfold utf8Bytes at bytes
    rw [List.flatMap_cons, List.append_eq_nil_iff] at bytes
    exact absurd (congrArg List.length bytes.1)
      (by rw [String.length_utf8EncodeChar]; exact Nat.ne_of_gt first.utf8Size_pos)
  | cons star stars =>
    rw [bytes] at wild
    have first : Glob (· == 42) (fun token byte : UInt8 => token == 63 || token == byte)
        [star] (utf8Bytes name) := Glob.singleton_iff.mpr
      (by unfold Glob.Fits; rw [if_pos (wild star List.mem_cons_self)]; trivial)
    exact first.append_multi fun token member => wild token (List.mem_cons_of_mem _ member)

/-- The directories above a path that a rule for directories matches. -/
theorem exists_ancestor_iff (only : rule.scope = .directory) (pattern : rule.pattern ≠ [])
    (below : relativeArchivePath rule.baseArchivePath path = some relative)
    (some : relative ≠ []) :
    (∃ ancestor rest, path = ancestor ++ '/' :: rest ∧
      rule.isMatch ancestor .directory = true) ↔ rule.MatchesAbove relative := by
  constructor
  · rintro ⟨ancestor, rest, rfl, matched⟩
    obtain ⟨front, inside, nonempty, fits⟩ := isMatch_eq_true.mp matched
    cases (relativeArchivePath_below inside nonempty).symm.trans below
    unfold MatchesAbove
    by_cases pathPattern : rule.isAnchoredOrPathPattern = true
    · simp only [pathPattern, ↓reduceIte] at fits ⊢
      rcases fits with whole | ⟨more, rfl⟩
      · exact ⟨front, rest, rfl, nonempty, whole⟩
      · exact ⟨rule.pattern, more ++ '/' :: rest, by simp, pattern, segmentsMatch_self _⟩
    · simp only [pathPattern, Bool.false_eq_true, ↓reduceIte] at fits ⊢
      rcases fits with name | ⟨wrong, -⟩
      · exact ⟨front, rest, rfl, nonempty, name⟩
      · exact absurd only wrong
  · rintro ⟨front, rest, rfl, nonempty, fits⟩
    rcases relativeArchivePath_eq_some.mp below with ⟨-, none⟩ | rfl
    · exact absurd none some
    refine ⟨rule.baseArchivePath ++ '/' :: front, rest, by simp, isMatch_eq_true.mpr
      ⟨front, relativeArchivePath_eq_some.mpr (.inr rfl), nonempty, ?_⟩⟩
    split
    next pathPattern =>
      rw [if_pos pathPattern] at fits
      exact .inl fits
    next name =>
      rw [if_neg name] at fits
      exact .inl fits

/-- A name on a path is the last one or stands on a path above. -/
theorem name_cases {pattern segment : Text} (some : pattern ≠ [])
    (member : segment ∈ relative.splitOn '/') (fits : segmentMatches pattern segment = true) :
    (∃ last ∈ (relative.splitOn '/').getLast?, segmentMatches pattern last) ∨
      ∃ front rest, relative = front ++ '/' :: rest ∧ front ≠ [] ∧
        ∃ name ∈ front.splitOn '/', segmentMatches pattern name := by
  obtain ⟨init, last, split⟩ : ∃ init last, relative.splitOn '/' = init ++ [last] :=
    ⟨_, _, (List.dropLast_append_getLast (List.splitOn_ne_nil '/' relative)).symm⟩
  rw [split, List.getLast?_concat]
  rw [split] at member
  rcases List.mem_append.mp member with inside | here
  · have nonempty := List.ne_nil_of_mem inside
    have whole : relative = ['/'].intercalate init ++ '/' :: last := by
      have joined := @List.intercalate_splitOn _ relative _ _ '/'
      rw [split, Text.intercalate_append '/' nonempty (List.cons_ne_nil _ _),
        List.intercalate_singleton] at joined
      rw [← joined]
    have names : (['/'].intercalate init).splitOn '/' = init := by
      refine List.splitOn_intercalate '/' (fun name listed => ?_) nonempty
      refine Text.separator_not_mem_of_mem_splitOn '/' relative name ?_
      rw [split]
      exact List.mem_append_left _ listed
    by_cases above : ['/'].intercalate init = []
    · rw [above] at names
      rw [← names, List.splitOn_nil, List.mem_singleton] at inside
      subst inside
      exact .inl ⟨last, rfl, segmentMatches_of_nil some fits last⟩
    · exact .inr ⟨_, last, whole, above, segment, by rwa [names], fits⟩
  · rw [List.mem_singleton.mp here] at fits
    exact .inl ⟨last, rfl, fits⟩

/-- What a rule matches as a path, it matches as a path above as well. -/
theorem matchesItself_or_matchesAbove (only : rule.scope = .directory) (pattern : rule.pattern ≠ [])
    (below : relativeArchivePath rule.baseArchivePath path = some relative)
    (some : relative ≠ []) (matched : rule.isMatch path fileType = true) :
    rule.MatchesItself relative ∨ rule.MatchesAbove relative := by
  unfold MatchesItself MatchesAbove
  by_cases pathPattern : rule.isAnchoredOrPathPattern = true
  · simp only [pathPattern, ↓reduceIte]
    rcases (isMatch_path pathPattern below some).mp matched with whole | ⟨rest, rfl⟩
    · exact .inl whole
    · exact .inr ⟨rule.pattern, rest, by simp, pattern, segmentsMatch_self _⟩
  · simp only [pathPattern, Bool.false_eq_true, ↓reduceIte]
    rcases (isMatch_name pathPattern below some).mp matched with ⟨segment, member, fits⟩ | wrong
    · exact name_cases pattern member fits
    · exact absurd only wrong.1

theorem isMatch_of_matchesItself (itself : rule.MatchesItself relative)
    (below : relativeArchivePath rule.baseArchivePath path = some relative)
    (some : relative ≠ []) : rule.isMatch path fileType = true := by
  unfold MatchesItself at itself
  by_cases pathPattern : rule.isAnchoredOrPathPattern = true
  · rw [if_pos pathPattern] at itself
    exact (isMatch_path pathPattern below some).mpr (.inl itself)
  · rw [if_neg pathPattern] at itself
    obtain ⟨last, here, fits⟩ := itself
    exact (isMatch_name pathPattern below some).mpr
      (.inl ⟨last, List.mem_of_getLast? here, fits⟩)

end GitignoreRule

/-- **Rules for directories.** A path, whatever it is of, is matched only together with a
directory above it exactly when the pattern matches the path itself only together with a path
above. -/
theorem directory_rule_matches_below_iff {line baseArchivePath path : Text}
    {rule : GitignoreRule} {fileType : ManifestFileType}
    (parsed : parseGitignoreRule line baseArchivePath = some rule) (slash : ['/'] <:+ line) :
    (rule.isMatch path fileType = true → ∃ ancestor rest, path = ancestor ++ '/' :: rest ∧
      rule.isMatch ancestor .directory = true) ↔
      ∀ relative, relativeArchivePath rule.baseArchivePath path = some relative →
        relative ≠ [] → rule.MatchesItself relative → rule.MatchesAbove relative := by
  obtain ⟨pattern, only⟩ := of_parseGitignoreRule parsed
  have only := only slash
  constructor
  · intro ancestors relative below some itself
    exact (GitignoreRule.exists_ancestor_iff only pattern below some).mp
      (ancestors (GitignoreRule.isMatch_of_matchesItself itself below some))
  · intro above matched
    obtain ⟨relative, below, some, -⟩ := GitignoreRule.isMatch_eq_true.mp matched
    refine (GitignoreRule.exists_ancestor_iff only pattern below some).mpr ?_
    exact (GitignoreRule.matchesItself_or_matchesAbove only pattern below some matched).elim
      (above relative below some) id

theorem directory_rule_matches_target_below :
    ∃ ancestor rest, "p/target/app".toList = ancestor ++ '/' :: rest ∧
      GitignoreRule.isMatch ⟨"p".toList, "target".toList, .ignore, .directory, .anywhere⟩
        ancestor .directory = true :=
  (@directory_rule_matches_below_iff "target/".toList "p".toList "p/target/app".toList
    ⟨"p".toList, "target".toList, .ignore, .directory, .anywhere⟩ .file
    (by decide +kernel) (by decide +kernel)).mpr (fun relative below _ _ => by
      cases (show relativeArchivePath "p".toList "p/target/app".toList =
        some "target/app".toList by decide +kernel).symm.trans below
      exact ⟨"target".toList, "app".toList, by decide, by decide, "target".toList,
        by decide +kernel, by decide +kernel⟩) (by decide +kernel)

/-- A file that is ignored by a rule for directories with its own name. -/
theorem directory_rule_ignores_file : ¬∀ line baseArchivePath rule,
    parseGitignoreRule line baseArchivePath = some rule → ['/'] <:+ line →
      ∀ path fileType, fileType ≠ .directory → rule.isMatch path fileType = true →
        ∃ ancestor rest, path = ancestor ++ '/' :: rest ∧
          rule.isMatch ancestor .directory = true := by
  intro all
  obtain ⟨ancestor, rest, whole, matched⟩ := all "build/".toList "p".toList
    ⟨"p".toList, "build".toList, .ignore, .directory, .anywhere⟩ (by decide +kernel)
    (by decide +kernel) "p/build".toList .file (by decide) (by decide +kernel)
  obtain ⟨relative, below, some, -⟩ := GitignoreRule.isMatch_eq_true.mp matched
  rcases relativeArchivePath_eq_some.mp below with ⟨-, none⟩ | rfl
  · exact some none
  · -- a second slash
    have slashes := congrArg (List.count '/') whole
    simp only [List.count_append, List.count_cons_self] at slashes
    have one : List.count '/' "p/build".toList = 1 := by decide
    omega

/-! ## Rules that include something below -/

theorem gitignoreDecision_concat (path : Text) (fileType : ManifestFileType)
    (front : List GitignoreRule) (rule : GitignoreRule) :
    gitignoreDecision path fileType (front ++ [rule]) =
      if rule.isMatch path fileType then some (decide (rule.polarity = .ignore), front.length)
      else gitignoreDecision path fileType front := by
  unfold gitignoreDecision
  rw [List.zipIdx_append, List.filter_append, List.map_append]
  split
  next matched =>
    simp only [List.zipIdx_singleton, List.filter_singleton, matched, cond_true,
      List.map_singleton, List.getLast?_concat, Nat.zero_add]
  next missed =>
    simp only [List.zipIdx_singleton, List.filter_singleton, missed, cond_false, List.map_nil,
      List.append_nil]

/-- Behind the rule that decides, no rule matches. -/
theorem not_isMatch_of_decision {path : Text} {fileType : ManifestFileType}
    {rules : List GitignoreRule} {ignored : Bool} {index later : Nat} {rule : GitignoreRule}
    (decided : gitignoreDecision path fileType rules = some (ignored, index))
    (behind : index < later) (here : rules[later]? = some rule) :
    rule.isMatch path fileType = false := by
  induction rules using List.reverseRecOn with
  | nil => cases here
  | append_singleton front last ih =>
    rw [gitignoreDecision_concat] at decided
    have inside : later < front.length + 1 := by
      have bound := (List.getElem?_eq_some_iff.mp here).1
      rwa [List.length_append, List.length_singleton] at bound
    split at decided
    next =>
      cases decided
      exact absurd inside (Nat.not_lt.mpr behind)
    next missed =>
      by_cases final : later = front.length
      · rw [final, List.getElem?_concat_length] at here
        cases here
        exact Bool.eq_false_iff.mpr missed
      · rw [List.getElem?_append_left (by omega)] at here
        exact ih decided here

namespace GitignoreRule

variable {rule : GitignoreRule} {directory : Text} {fileType : ManifestFileType}

/-- What the prediction looks at: the directory is the base of the rule, the pattern is a name,
or it begins with the directory, letter by letter. -/
def SpellsBelow (rule : GitignoreRule) (directory : Text) : Prop :=
  ∃ relative, relativeArchivePath rule.baseArchivePath directory = some relative ∧
    (relative = [] ∨ rule.isAnchoredOrPathPattern ≠ true ∨ relative ++ ['/'] <+: rule.pattern)

/-- A pattern that reaches below a directory: the base of the rule is the directory or stands
below it, the pattern is a name, or the directory fits a part of its segments with some behind. -/
def ReachesBelow (rule : GitignoreRule) (directory : Text) : Prop :=
  match relativeArchivePath rule.baseArchivePath directory with
  | none => directory ++ ['/'] <+: rule.baseArchivePath
  | some relative =>
    relative = [] ∨ rule.isAnchoredOrPathPattern ≠ true ∨
      ∃ front back, splitPathSegments rule.pattern = front ++ back ∧ back ≠ [] ∧
        SegmentsMatch front (splitPathSegments relative)

theorem couldIncludeBelow_eq_true : rule.couldIncludeBelow directory = true ↔
    rule.polarity = .include ∧ rule.SpellsBelow directory := by
  unfold couldIncludeBelow SpellsBelow
  by_cases includes : rule.polarity = .include
  · cases relativeArchivePath rule.baseArchivePath directory with
    | none => simp [includes]
    | some relative =>
      by_cases empty : relative = []
      · simp [includes, empty]
      · by_cases pathPattern : rule.isAnchoredOrPathPattern = true
        · simp [includes, empty, pathPattern]
        · simp [includes, empty, pathPattern]
  · simp [includes]

theorem gitignoreHasLaterNegatedDescendant_eq_true {rules : List GitignoreRule} {index : Nat} :
    gitignoreHasLaterNegatedDescendant directory rules index = true ↔
      ∃ rule ∈ rules.drop (index + 1), rule.polarity = .include ∧ rule.SpellsBelow directory := by
  unfold gitignoreHasLaterNegatedDescendant
  rw [List.any_eq_true]
  simp only [couldIncludeBelow_eq_true]

/-- A rule matches its own pattern below its base. -/
theorem isMatch_own_pattern (pattern : rule.pattern ≠ []) :
    rule.isMatch (rule.baseArchivePath ++ '/' :: rule.pattern) fileType = true := by
  have below : relativeArchivePath rule.baseArchivePath
      (rule.baseArchivePath ++ '/' :: rule.pattern) = some rule.pattern :=
    relativeArchivePath_eq_some.mpr (.inr rfl)
  by_cases pathPattern : rule.isAnchoredOrPathPattern = true
  · exact (isMatch_path pathPattern below pattern).mpr (.inl (segmentsMatch_self _))
  · refine (isMatch_name pathPattern below pattern).mpr
      (.inl ⟨rule.pattern, ?_, segmentMatches_self _⟩)
    unfold isAnchoredOrPathPattern at pathPattern
    rw [Bool.or_eq_true, not_or, decide_eq_true_eq, decide_eq_true_eq] at pathPattern
    rw [List.splitOn_eq_singleton pathPattern.2]
    exact List.mem_singleton_self _

/-- A rule whose base is not above a directory matches below it if its base stands there. -/
theorem exists_isMatch_below_iff_of_none (pattern : rule.pattern ≠ [])
    (outside : relativeArchivePath rule.baseArchivePath directory = none) :
    (∃ rest fileType, rest ≠ [] ∧ rule.isMatch (directory ++ '/' :: rest) fileType = true) ↔
      directory ++ ['/'] <+: rule.baseArchivePath := by
  constructor
  · rintro ⟨rest, fileType, -, matched⟩
    obtain ⟨relative, below, some, -⟩ := isMatch_eq_true.mp matched
    rcases relativeArchivePath_eq_some.mp below with ⟨-, none⟩ | whole
    · exact absurd none some
    have starts : directory ++ ['/'] <+: rule.baseArchivePath ++ '/' :: relative :=
      ⟨rest, by rw [← whole, List.append_assoc, List.singleton_append]⟩
    rcases Nat.lt_or_ge directory.length rule.baseArchivePath.length with longer | shorter
    · refine List.prefix_of_prefix_length_le starts (List.prefix_append _ _) ?_
      rw [List.length_append, List.length_singleton]
      exact longer
    · -- the base would stand above the directory
      exfalso
      have above : rule.baseArchivePath <+: directory :=
        List.prefix_of_prefix_length_le ⟨_, rfl⟩ (whole ▸ List.prefix_append _ _) shorter
      obtain ⟨middle, rfl⟩ := above
      rw [List.append_assoc] at whole
      have tails := List.append_cancel_left whole
      cases middle with
      | nil =>
        rw [relativeArchivePath_eq_some.mpr (.inl ⟨List.append_nil _, rfl⟩)] at outside
        cases outside
      | cons slash middle =>
        cases (List.cons.inj tails).1
        rw [relativeArchivePath_eq_some.mpr (.inr rfl)] at outside
        cases outside
  · rintro ⟨middle, whole⟩
    refine ⟨middle ++ '/' :: rule.pattern, .file, by simp, ?_⟩
    have spelled : directory ++ '/' :: (middle ++ '/' :: rule.pattern) =
        rule.baseArchivePath ++ '/' :: rule.pattern := by
      rw [← whole, List.append_assoc, List.append_assoc, List.singleton_append]
    rw [spelled]
    exact isMatch_own_pattern pattern

/-- **What reaches below a directory.** A rule that matches neither the directory nor is spelled
below it matches something below exactly when its pattern reaches there. -/
theorem exists_isMatch_below_iff (pattern : rule.pattern ≠ [])
    (missed : rule.isMatch directory .directory = false) (unspelled : ¬rule.SpellsBelow directory) :
    (∃ rest fileType, rest ≠ [] ∧ rule.isMatch (directory ++ '/' :: rest) fileType = true) ↔
      rule.ReachesBelow directory := by
  unfold ReachesBelow
  cases inside : relativeArchivePath rule.baseArchivePath directory with
  | none => exact exists_isMatch_below_iff_of_none pattern inside
  | some relative =>
    dsimp only
    obtain ⟨some, others⟩ := not_or.mp fun spelled => unspelled ⟨relative, inside, spelled⟩
    obtain ⟨named, unlike⟩ := not_or.mp others
    have pathPattern := not_not.mp named
    have apart : ¬SegmentsMatch (splitPathSegments rule.pattern) (splitPathSegments relative) ∧
        ¬rule.pattern ++ ['/'] <+: relative := by
      rw [← not_or, ← isMatch_path pathPattern inside some, missed]
      exact Bool.false_ne_true
    constructor
    · rintro ⟨rest, fileType, -, matched⟩
      rw [isMatch_path pathPattern (relativeArchivePath_below inside some)
        (List.append_ne_nil_of_left_ne_nil some _)] at matched
      rcases matched with whole | starts
      · rw [splitPathSegments_append] at whole
        obtain ⟨front, back, tail, split, first, -⟩ := whole.of_append_value
        refine .inr (.inr ⟨front, back, split, ?_, first⟩)
        rintro rfl
        rw [List.append_nil] at split
        exact apart.1 (split ▸ first)
      · -- the pattern is the directory, or one spells the other
        exfalso
        rcases spelled_cases starts with rfl | above | below
        · exact apart.1 (segmentsMatch_self _)
        · exact apart.2 above
        · exact unlike below
    · rintro (empty | name | ⟨front, back, split, more, first⟩)
      · exact absurd empty some
      · exact absurd pathPattern name
      · have names : ∀ name ∈ back, IsName name := fun name member =>
          @isName_of_mem rule.pattern name (split ▸ List.mem_append_right _ member)
        have joined := splitPathSegments_join names
        refine ⟨['/'].intercalate back, .file, ?_, ?_⟩
        · intro nothing
          rw [nothing] at joined
          exact more joined.symm
        · refine (isMatch_path pathPattern (relativeArchivePath_below inside some)
            (List.append_ne_nil_of_left_ne_nil some _)).mpr (.inl ?_)
          rw [splitPathSegments_append, joined, split]
          exact first.append (segmentsMatch_self _)

end GitignoreRule

/-- **Pruned directories and what is included below them.** When the last rule that matches a
directory ignores it, pruning it hides nothing that a later rule includes exactly when a later
rule that includes is spelled below the directory, or none reaches below it. -/
theorem pruning_hides_nothing_iff {rules : List GitignoreRule} {directory : Text} {index : Nat}
    (parsed : ∀ rule ∈ rules, ∃ line baseArchivePath,
      parseGitignoreRule line baseArchivePath = some rule)
    (decided : gitignoreDecision directory .directory rules = some (true, index)) :
    (gitignoreHasLaterNegatedDescendant directory rules index = false →
      ∀ later rule, index < later → rules[later]? = some rule → rule.polarity = .include →
        ∀ rest fileType, rest ≠ [] →
          rule.isMatch (directory ++ '/' :: rest) fileType = false) ↔
      (∃ rule ∈ rules.drop (index + 1),
        rule.polarity = .include ∧ rule.SpellsBelow directory) ∨
      ∀ rule ∈ rules.drop (index + 1),
        rule.polarity = .include → ¬rule.ReachesBelow directory := by
  have behind {rule : GitignoreRule} : rule ∈ rules.drop (index + 1) ↔
      ∃ later, index < later ∧ rules[later]? = some rule := by
    rw [List.mem_iff_getElem?]
    simp only [List.getElem?_drop]
    constructor
    · rintro ⟨offset, here⟩
      exact ⟨_, by omega, here⟩
    · rintro ⟨later, after, here⟩
      exact ⟨later - (index + 1), by rwa [Nat.add_sub_cancel' after]⟩
  by_cases spelled : ∃ rule ∈ rules.drop (index + 1),
      rule.polarity = .include ∧ rule.SpellsBelow directory
  · have entered := GitignoreRule.gitignoreHasLaterNegatedDescendant_eq_true.mpr spelled
    refine iff_of_true (fun pruned => ?_) (.inl spelled)
    cases entered.symm.trans pruned
  have pruned : gitignoreHasLaterNegatedDescendant directory rules index = false :=
    Bool.eq_false_iff.mpr fun entered =>
      spelled (GitignoreRule.gitignoreHasLaterNegatedDescendant_eq_true.mp entered)
  have reaches {later : Nat} {rule : GitignoreRule} (after : index < later)
      (here : rules[later]? = some rule) (includes : rule.polarity = .include) :
      (∃ rest fileType, rest ≠ [] ∧ rule.isMatch (directory ++ '/' :: rest) fileType = true) ↔
        rule.ReachesBelow directory := by
    obtain ⟨line, baseArchivePath, parsed⟩ := parsed rule (List.mem_of_getElem? here)
    exact GitignoreRule.exists_isMatch_below_iff (of_parseGitignoreRule parsed).1
      (not_isMatch_of_decision decided after here) fun spells =>
        spelled ⟨rule, behind.mpr ⟨later, after, here⟩, includes, spells⟩
  constructor
  · intro hidden
    refine .inr fun rule member includes reached => ?_
    obtain ⟨later, after, here⟩ := behind.mp member
    obtain ⟨rest, fileType, nonempty, matched⟩ := (reaches after here includes).mpr reached
    rw [hidden pruned later rule after here includes rest fileType nonempty] at matched
    cases matched
  · intro either _ later rule after here includes rest fileType nonempty
    refine Bool.eq_false_iff.mpr fun matched => ?_
    exact either.resolve_left spelled rule (behind.mpr ⟨later, after, here⟩) includes
      ((reaches after here includes).mp ⟨rest, fileType, nonempty, matched⟩)

theorem pruning_hides_nothing_elsewhere :
    let rules : List GitignoreRule := [⟨"p".toList, "build".toList, .ignore, .any, .anchored⟩,
      ⟨"q".toList, "keep.txt".toList, .include, .any, .anywhere⟩]
    gitignoreHasLaterNegatedDescendant "p/build".toList rules 0 = false →
      ∀ later rule, 0 < later → rules[later]? = some rule → rule.polarity = .include →
        ∀ rest fileType, rest ≠ [] →
          rule.isMatch ("p/build".toList ++ '/' :: rest) fileType = false :=
  (pruning_hides_nothing_iff (fun rule member => by
      rcases List.mem_pair.mp member with rfl | rfl
      · exact ⟨"/build".toList, "p".toList, by decide +kernel⟩
      · exact ⟨"!keep.txt".toList, "q".toList, by decide +kernel⟩)
    (by decide +kernel)).mpr (.inr fun rule member _ reached => by
      cases List.mem_singleton.mp member
      exact absurd (show "p/build".toList ++ ['/'] <+: "q".toList from reached)
        (by decide +kernel))

/-- A file that a later rule includes below a directory that is pruned. -/
theorem pruning_hides_included_file : ¬∀ (rules : List GitignoreRule) (directory : Text)
    (index : Nat), (∀ rule ∈ rules, ∃ line baseArchivePath,
      parseGitignoreRule line baseArchivePath = some rule) →
    gitignoreDecision directory .directory rules = some (true, index) →
    gitignoreHasLaterNegatedDescendant directory rules index = false →
      ∀ later rule, index < later → rules[later]? = some rule → rule.polarity = .include →
        ∀ rest fileType, rest ≠ [] →
          rule.isMatch (directory ++ '/' :: rest) fileType = false := by
  intro all
  have missed := all [⟨"p".toList, "build".toList, .ignore, .any, .anchored⟩,
      ⟨"p".toList, "*/keep.txt".toList, .include, .any, .anchored⟩] "p/build".toList 0
    (fun rule member => by
      rcases List.mem_pair.mp member with rfl | rfl
      · exact ⟨"/build".toList, "p".toList, by decide +kernel⟩
      · exact ⟨"!/*/keep.txt".toList, "p".toList, by decide +kernel⟩)
    (by decide +kernel) (by decide +kernel) 1 _ (by decide) rfl rfl "keep.txt".toList .file
    (by decide)
  exact absurd missed (by decide +kernel)

end ZManager
