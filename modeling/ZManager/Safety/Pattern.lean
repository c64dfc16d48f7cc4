import ZManager.Foundation.Utf8
import ZManager.Safety.ArchivePath

/-! # Include and exclude patterns

Patterns are compiled once and matched against slash-normalized paths: exactly,
as a directory prefix, or with the greedy two-pointer wildcard matcher over
bytes.
-/

namespace ZManager

/-- The loop of `wildcard_matches_custom`. `lastStar` is the index of the last
multi-wildcard passed, `starValueIndex` the value index its match ends at. -/
def wildcardLoop {P T : Type} (pattern : List P) (value : List T) (isMultiWildcard : P → Bool)
    (matchesSingle : P → T → Bool) : (fuel patternIndex valueIndex : Nat) →
    (lastStar : Option Nat) → (starValueIndex : Nat) → Bool
  | 0, _, _, _, _ => false
  | fuel + 1, patternIndex, valueIndex, lastStar, starValueIndex =>
    let backtrack :=
      match lastStar with
      | some starIndex =>
        wildcardLoop pattern value isMultiWildcard matchesSingle fuel (starIndex + 1)
          (starValueIndex + 1) lastStar (starValueIndex + 1)
      | none => false
    match value[valueIndex]? with
    | none => ((pattern.drop patternIndex).dropWhile isMultiWildcard).isEmpty
    | some current =>
      match pattern[patternIndex]? with
      | none => backtrack
      | some token =>
        if isMultiWildcard token then
          wildcardLoop pattern value isMultiWildcard matchesSingle fuel (patternIndex + 1)
            valueIndex (some patternIndex) valueIndex
        else if matchesSingle token current then
          wildcardLoop pattern value isMultiWildcard matchesSingle fuel (patternIndex + 1)
            (valueIndex + 1) lastStar starValueIndex
        else backtrack

/-- Generic greedy wildcard matcher over token lists. Between two backtracking
steps the pattern index grows, and each backtracking step moves the star's
value index, which bounds the number of iterations. -/
def wildcardMatchesCustom {P T : Type} (pattern : List P) (value : List T)
    (isMultiWildcard : P → Bool) (matchesSingle : P → T → Bool) : Bool :=
  wildcardLoop pattern value isMultiWildcard matchesSingle
    ((value.length + 1) * (pattern.length + 2)) 0 0 none 0

/-- Matches bytes using `*` (any sequence) and `?` (any single byte). -/
def wildcardMatches (pattern value : List UInt8) : Bool :=
  wildcardMatchesCustom pattern value (· == 42) fun token byte => token == 63 || token == byte

/-- `str::trim_end_matches('/')`. -/
def trimEndSlashes (text : Text) : Text :=
  (text.reverse.dropWhile (· == '/')).reverse

/-- Pre-compiled include/exclude pattern. -/
structure CompiledPattern where
  normPattern : Text
  cleanPrefix : Option Text
  endsWithDoublestar : Option Text
  isWildcard : Bool

namespace CompiledPattern

def new (pattern : Text) : CompiledPattern :=
  let normPattern := replaceBackslash pattern
  -- A pattern ending in `/**` loses exactly its two stars to the trimming.
  let endsWithDoublestar :=
    if ['/', '*', '*'] <:+ normPattern then some (normPattern.take (normPattern.length - 2))
    else none
  let clean := trimEndSlashes normPattern
  if clean ≠ [] ∧ '*' ∉ clean ∧ '?' ∉ clean then
    ⟨normPattern, some (clean ++ ['/']), endsWithDoublestar, false⟩
  else
    ⟨normPattern, none, endsWithDoublestar, decide ('*' ∈ normPattern ∨ '?' ∈ normPattern)⟩

def isMatch (pattern : CompiledPattern) (path : Text) : Bool :=
  let normPath := replaceBackslash path
  if pattern.normPattern = normPath then true
  else if pattern.endsWithDoublestar.any (·.isPrefixOf normPath) then true
  else if pattern.cleanPrefix.any fun front =>
      normPath == trimEndSlashes front || front.isPrefixOf normPath then true
  else pattern.isWildcard && wildcardMatches (utf8Bytes pattern.normPattern) (utf8Bytes normPath)

end CompiledPattern

/-- Whether a path is included and not excluded. An empty include list includes
everything, and an exclude match wins over an include match. -/
def compiledPatternMatchesAny (path : Text) (includes excludes : List CompiledPattern) : Bool :=
  (includes.isEmpty || includes.any (·.isMatch path)) && !excludes.any (·.isMatch path)

end ZManager
