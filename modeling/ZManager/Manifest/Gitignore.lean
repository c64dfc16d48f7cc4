import ZManager.Safety.Pattern

/-! # Ignore files

Rules are read from the `.gitignore` files along the way to an entry. The last rule
that matches decides; a directory that is ignored is still entered when a later rule
may include something below it.
-/

namespace ZManager

/-- File type captured by the manifest planner. -/
inductive ManifestFileType where
  | file
  | directory
  | symlink
  | other
  deriving DecidableEq

/-- Whether a rule ignores or includes. -/
inductive GitignorePolarity where
  | ignore
  | include
  deriving DecidableEq

/-- Whether a rule is for directories only. -/
inductive GitignoreScope where
  | any
  | directory
  deriving DecidableEq

/-- Whether a rule is bound to its directory. -/
inductive GitignoreAnchor where
  | anywhere
  | anchored
  deriving DecidableEq

/-- A rule of a `.gitignore`. -/
structure GitignoreRule where
  baseArchivePath : Text
  pattern : Text
  polarity : GitignorePolarity
  scope : GitignoreScope
  anchor : GitignoreAnchor
  deriving DecidableEq

/-- `str::strip_prefix`. -/
def Text.stripPrefix (front text : Text) : Option Text :=
  if front <+: text then some (text.drop front.length) else none

/-- `str::trim_start_matches('/')`. -/
def trimStartSlashes (text : Text) : Text := text.dropWhile (· == '/')

/-- What follows a directory and a slash; nothing for the directory itself. -/
def relativeArchivePath (baseArchivePath archivePath : Text) : Option Text :=
  if archivePath = baseArchivePath then some []
  else (Text.stripPrefix baseArchivePath archivePath).bind (Text.stripPrefix ['/'])

def segmentPatternMatches (value pattern : Text) : Bool :=
  wildcardMatches (utf8Bytes pattern) (utf8Bytes value)

def splitPathSegments (path : Text) : List Text :=
  (path.splitOn '/').filter (· ≠ [])

def pathSegmentsMatch (pattern path : List Text) : Bool :=
  wildcardMatchesCustom pattern path (· == ['*', '*'])
    fun segment value => segmentPatternMatches value segment

def pathPatternMatches (path pattern : Text) : Bool :=
  pathSegmentsMatch (splitPathSegments pattern) (splitPathSegments path)

def pathPatternMatchesOrContainsDescendant (path pattern : Text) : Bool :=
  pathPatternMatches path pattern ||
    (Text.stripPrefix pattern path).any fun rest => ['/'] <+: rest

namespace GitignoreRule

def isAnchoredOrPathPattern (rule : GitignoreRule) : Bool :=
  rule.anchor = .anchored || '/' ∈ rule.pattern

def matchesDirectory (rule : GitignoreRule) (relativePath : Text) : Bool :=
  if rule.isAnchoredOrPathPattern then
    pathPatternMatchesOrContainsDescendant relativePath rule.pattern
  else (relativePath.splitOn '/').any (segmentPatternMatches · rule.pattern)

/-- The rule applies to the path. -/
def isMatch (rule : GitignoreRule) (archivePath : Text) (fileType : ManifestFileType) : Bool :=
  match relativeArchivePath rule.baseArchivePath archivePath with
  | none => false
  | some relativePath =>
    if relativePath = [] then false
    else if rule.scope = .directory then rule.matchesDirectory relativePath
    else if rule.isAnchoredOrPathPattern then
      pathPatternMatchesOrContainsDescendant relativePath rule.pattern
    else
      (relativePath.splitOn '/').any (segmentPatternMatches · rule.pattern) ||
        (fileType = .directory && segmentPatternMatches relativePath rule.pattern)

/-- The rule may include something below. -/
def couldIncludeBelow (rule : GitignoreRule) (archivePath : Text) : Bool :=
  if rule.polarity ≠ .include then false
  else
    match relativeArchivePath rule.baseArchivePath archivePath with
    | none => false
    | some relativePath =>
      if relativePath = [] || !rule.isAnchoredOrPathPattern then true
      else relativePath ++ ['/'] <+: rule.pattern

end GitignoreRule

/-- The rule of a line, if it holds one. -/
def parseGitignoreRule (line baseArchivePath : Text) : Option GitignoreRule :=
  let pattern := Text.trim line
  if pattern = [] ∨ ['#'] <+: pattern then none
  else
    let (pattern, polarity) :=
      if ['!'] <+: pattern then (Text.trimStart (pattern.drop 1), GitignorePolarity.include)
      else (pattern, .ignore)
    if pattern = [] then none
    else
      let scope : GitignoreScope := if ['/'] <:+ pattern then .directory else .any
      let pattern := trimEndSlashes pattern
      let anchor : GitignoreAnchor := if ['/'] <+: pattern then .anchored else .anywhere
      let pattern := trimStartSlashes pattern
      if pattern = [] then none else some ⟨baseArchivePath, pattern, polarity, scope, anchor⟩

/-- The rules of a file's contents. -/
def parseGitignore (contents baseArchivePath : Text) : List GitignoreRule :=
  (Text.lines contents).filterMap (parseGitignoreRule · baseArchivePath)

/-- Whether the last rule that matches ignores, and where that rule stands. -/
def gitignoreDecision (archivePath : Text) (fileType : ManifestFileType)
    (rules : List GitignoreRule) : Option (Bool × Nat) :=
  ((rules.zipIdx.filter fun rule => rule.1.isMatch archivePath fileType).map fun rule =>
    (decide (rule.1.polarity = .ignore), rule.2)).getLast?

def gitignoreHasLaterNegatedDescendant (archivePath : Text) (rules : List GitignoreRule)
    (ruleIndex : Nat) : Bool :=
  (rules.drop (ruleIndex + 1)).any (·.couldIncludeBelow archivePath)

end ZManager
