import ZManager.Foundation.Step
import ZManager.Safety.Pattern
import Mathlib.Data.Finset.Basic

/-! # The extraction safety planner

`ExtractionSafetyPlanner` decides, entry by entry, where an archive member may
be written. It remembers the case-folded names it has accepted, the paths it
has planned as symlinks and the paths that have to stay something else, and it
looks at the disk through three probes. Every probe result is a parameter, so
a statement over all `Probe`s holds for every file-system snapshot.
-/

namespace ZManager

/-- Unicode lowercasing of single characters (`char::to_lowercase`), of which
the planner relies on two facts: ASCII characters fold as in
`to_ascii_lowercase`, and an ASCII character that is no letter is only obtained
from itself. -/
structure CaseFolding where
  lower : Char → List Char
  lower_ascii : ∀ c : Char, c.toNat < 128 → lower c = [c.toLower]
  eq_of_mem_lower : ∀ c folded : Char, folded ∈ lower c → folded.toNat < 128 →
    folded.isAlpha = false → c = folded

/-- Lowercasing an ASCII letter gives a letter. -/
theorem eq_toLower_of_toLower_plain {c : Char} (plain : c.toLower.isAlpha = false) :
    c = c.toLower := by
  unfold Char.toLower at plain ⊢
  split_ifs at plain ⊢ with upper
  · exfalso
    obtain ⟨low, high⟩ := upper
    rw [ge_iff_le, UInt32.le_iff_toNat_le] at low
    rw [UInt32.le_iff_toNat_le] at high
    have shifted : (c.val + ('a'.val - 'A'.val)).toNat = c.val.toNat + 32 := by
      have bound : c.val.toNat ≤ 90 := high
      rw [UInt32.toNat_add]
      exact Nat.mod_eq_of_lt (by change c.val.toNat + 32 < 4294967296; omega)
    have notLower : (decide ((c.val + ('a'.val - 'A'.val)) ≥ 'a'.val) &&
        decide ((c.val + ('a'.val - 'A'.val)) ≤ 'z'.val)) = false :=
      (Bool.or_eq_false_iff.mp plain).2
    simp only [ge_iff_le, UInt32.le_iff_toNat_le, shifted] at notLower
    have first : 'a'.val.toNat ≤ c.val.toNat + 32 := Nat.add_le_add_right low 32
    have last : c.val.toNat + 32 ≤ 'z'.val.toNat := Nat.add_le_add_right high 32
    rw [decide_eq_true first, decide_eq_true last] at notLower
    cases notLower
  · rfl

/-- The folding of ASCII letters alone, which is all that ASCII paths need. -/
def CaseFolding.ascii : CaseFolding where
  lower c := [c.toLower]
  lower_ascii _ _ := rfl
  eq_of_mem_lower c folded member _ plain := by
    obtain rfl := List.mem_singleton.mp member
    exact eq_toLower_of_toLower_plain plain

/-- Case-folding collision key shared by extraction and manifest planning. -/
def caseCollisionKey (fold : CaseFolding) (path : Text) : Text :=
  if path.all (·.toNat < 128) then path.map Char.toLower else path.flatMap fold.lower

/-- What the planner asks the disk: the type of an object without following a
final symlink, whether a path leads to something, and where a path leads. -/
structure Probe where
  symlinkMetadata : PathBuf → Except IoError FileType
  pathExists : PathBuf → Bool
  canonicalize : PathBuf → Except IoError PathBuf
  /-- `parent.join(target).canonicalize()`, with the target as it is spelled. -/
  canonicalizeJoin : PathBuf → Text → Except IoError PathBuf

/-- The text of a failed system call on Linux. -/
def IoErrorKind.message : IoErrorKind → String
  | .notFound => "No such file or directory (os error 2)"
  | .notADirectory => "Not a directory (os error 20)"
  | .alreadyExists => "File exists (os error 17)"
  | .isADirectory => "Is a directory (os error 21)"
  | .directoryNotEmpty => "Directory not empty (os error 39)"
  | .filesystemLoop => "Too many levels of symbolic links (os error 40)"
  | .permissionDenied => "Operation not permitted (os error 1)"
  | .invalidData => "invalid data"
  | .invalidInput => "Invalid argument (os error 22)"
  | .unexpectedEof => "unexpected end of file"
  | .other => "other error"

def IoErrorKind.toIoError (kind : IoErrorKind) : IoError :=
  ⟨kind, kind.message⟩

/-- The probes of a file system. -/
def FileSystem.probe {Content : Type} (fs : FileSystem Content) : Probe where
  symlinkMetadata path := (fs.lstat path).mapError IoErrorKind.toIoError
  pathExists path := fs.pathExists path
  canonicalize path := ((fs.resolve path).map Location.toPath).mapError IoErrorKind.toIoError
  canonicalizeJoin parent target :=
    let path := if PathBuf.isAbsoluteText target then linkComponents target
      else parent ++ linkComponents target
    ((fs.resolve path).map Location.toPath).mapError IoErrorKind.toIoError

theorem FileSystem.lstat_of_probe {Content : Type} {fs : FileSystem Content} {path : PathBuf}
    {fileType : FileType} (probed : fs.probe.symlinkMetadata path = .ok fileType) :
    fs.lstat path = .ok fileType := by
  change (fs.lstat path).mapError _ = _ at probed
  cases outcome : fs.lstat path with
  | ok found =>
    rw [outcome] at probed
    cases probed
    rfl
  | error failure =>
    rw [outcome] at probed
    cases probed

/-- Whether a failed probe means that nothing exists at the path. -/
def destinationIsAbsent (error : IoError) : Bool :=
  error.kind == .notFound || error.kind == .notADirectory

/-- `u64::saturating_add`. -/
def saturatingAdd (left right : UInt64) : UInt64 :=
  if left.toNat + right.toNat < 2 ^ 64 then left + right else 18446744073709551615

/-- Maximum deterministic renamed destinations tried for one conflicting path. -/
def maxRenameCandidates : Nat := 10000

/-- First rename suffix to try: the base name conceptually occupies index 1. -/
def firstRenameIndex : Nat := 2

/-- Stateful extraction safety planner for one destination directory. -/
structure Planner where
  destinationRoot : PathBuf
  policy : ExtractionPolicy
  compiledIncludes : List CompiledPattern
  compiledExcludes : List CompiledPattern
  seenPaths : Text → Option Text
  plannedSymlinks : Finset Text
  requiredNonSymlinkPaths : Finset Text
  plannedExpandedBytes : UInt64
  plannedEntries : UInt64
  nextRenameIndex : PathBuf → Option Nat
  /-- The conflicts the overwrite resolver has been asked about. -/
  askedConflicts : List OverwriteConflict

/-- Planner steps may fail, and keep the state changes made before a failure. -/
abbrev PlanM := StepM ExtractionSafetyError Planner

/-- What becomes of an entry at its destination. -/
inductive PlannedDestination where
  | write (plan : PlannedWrite)
  | skip (normalizedArchivePath : Text) (reason : String)

namespace Planner

/-- Creates a planner for one extraction destination. -/
def new (destinationRoot : PathBuf) (policy : ExtractionPolicy) : Planner where
  destinationRoot := lexicallyNormalize destinationRoot
  policy := policy
  compiledIncludes := policy.includePatterns.map CompiledPattern.new
  compiledExcludes := policy.excludePatterns.map CompiledPattern.new
  seenPaths := fun _ => none
  plannedSymlinks := ∅
  requiredNonSymlinkPaths := ∅
  plannedExpandedBytes := 0
  plannedEntries := 0
  nextRenameIndex := fun _ => none
  askedConflicts := []

def isPathSelected (planner : Planner) (path : Text) : Bool :=
  compiledPatternMatchesAny path planner.compiledIncludes planner.compiledExcludes

/-- The destination a member name stands for. -/
def naturalDestination (planner : Planner) (name : Text) : PathBuf :=
  lexicallyNormalize (planner.destinationRoot.join name)

/-- The lexically normalized paths a walk along `path` passes below the root
before its last component. -/
def destinationAncestors (planner : Planner) (path : PathBuf) : List PathBuf :=
  match path.parent.bind (·.stripPrefix planner.destinationRoot) with
  | none => []
  | some relative =>
    (relative.foldl (fun (state : PathBuf × List PathBuf) component =>
      let current := lexicallyNormalize (state.1.push component)
      (current, state.2 ++ [current])) (planner.destinationRoot, [])).2

variable (fold : CaseFolding) (probe : Probe)

/-- The collision key of a path. -/
def pathKey (path : PathBuf) : Text :=
  caseCollisionKey fold path.toText

/-- Refuses a path that is a symlink. -/
def requireNonSymlink (planner : Planner) (path : PathBuf) (archivePath : Text) :
    Except ExtractionSafetyError Unit :=
  let metadata := probe.symlinkMetadata path
  if pathKey fold path ∈ planner.plannedSymlinks ∨ metadata.toOption = some .symlink then
    .error (.symlinkAncestor archivePath path)
  else
    match metadata with
    | .ok _ => .ok ()
    | .error error =>
      if destinationIsAbsent error then .ok ()
      else .error (.destinationProbe archivePath path error.message)

/-- The checks of `requireNonSymlink` over a list of paths, in order. -/
def requireNonSymlinks (planner : Planner) (paths : List PathBuf) (archivePath : Text) :
    Except ExtractionSafetyError Unit :=
  paths.forM fun path => requireNonSymlink fold probe planner path archivePath

/-- The paths a link target walks through, for a symlink entry. -/
def symlinkTargetAncestors (planner : Planner) (entry : ExtractionEntry)
    (plan : PlannedWrite) : List PathBuf :=
  match entry.kind, plan.destinationPath.parent with
  | .symlink target, some parent => planner.destinationAncestors (parent.join target)
  | _, _ => []

/-- The paths that lead to a hardlink source, the source included. -/
def linkTargetPaths (planner : Planner) (plan : PlannedWrite) : List PathBuf :=
  match plan.linkTargetPath with
  | some target => planner.destinationAncestors target ++ [target]
  | none => []

/-- Selected descendants must never traverse a selected symlink. -/
def validateWritePaths (planner : Planner) (entry : ExtractionEntry) (plan : PlannedWrite) :
    Except ExtractionSafetyError Unit := do
  requireNonSymlinks fold probe planner (planner.destinationAncestors plan.destinationPath)
    entry.archivePath
  if entry.kind.isSymlink ∧
      pathKey fold plan.destinationPath ∈ planner.requiredNonSymlinkPaths then
    .error (.symlinkAncestor entry.archivePath plan.destinationPath)
  else do
    requireNonSymlinks fold probe planner (planner.linkTargetPaths plan) entry.archivePath
    requireNonSymlinks fold probe planner (planner.symlinkTargetAncestors entry plan)
      entry.archivePath

/-- The paths a planned write needs to stay something other than a symlink. -/
def requiredPaths (planner : Planner) (entry : ExtractionEntry) (plan : PlannedWrite) :
    List PathBuf :=
  planner.destinationAncestors plan.destinationPath ++
    (if entry.kind.isDirectory then [plan.destinationPath] else []) ++
    planner.linkTargetPaths plan ++ planner.symlinkTargetAncestors entry plan

/-- Remembers what was planned. -/
def recordWritePaths (planner : Planner) (entry : ExtractionEntry) (plan : PlannedWrite) :
    Planner :=
  { planner with
    requiredNonSymlinkPaths := planner.requiredNonSymlinkPaths ∪
      ((planner.requiredPaths entry plan).map (pathKey fold)).toFinset
    plannedSymlinks :=
      if entry.kind.isSymlink then
        insert (pathKey fold plan.destinationPath) planner.plannedSymlinks
      else planner.plannedSymlinks.erase (pathKey fold plan.destinationPath) }

/-- The name of the numbered sibling of a file name. -/
def renamedFileName (name : Text) (index : Nat) : Text :=
  match PathBuf.stemAndExtension name with
  | (stem, some extension) => stem ++ ' ' :: Nat.toDigits 10 index ++ '.' :: extension
  | (stem, none) => stem ++ ' ' :: Nat.toDigits 10 index

/-- The numbered sibling of a path, `"{stem} {index}"` with the extension kept. -/
def renameCandidate (path : PathBuf) (index : Nat) : PathBuf :=
  (path.parent.getD []).join
    (renamedFileName (path.fileName.getD "entry".toList) index)

/-- The first free sibling numbered from `startIndex` on, with the index a later
search for the same name resumes from. -/
def nextAvailableDestinationPathFrom (path : PathBuf) (startIndex candidateBudget : Nat) :
    Option (PathBuf × Nat) :=
  if probe.pathExists path then
    ((List.range' startIndex (candidateBudget + 2 - startIndex)).find? fun index =>
      !probe.pathExists (renameCandidate path index)).map fun index =>
        (renameCandidate path index, index + 1)
  else some (path, startIndex)

variable (resolver : Option OverwriteResolver)

/-- Asks what becomes of an existing file. -/
def resolveOverwriteConflict (entry : ExtractionEntry) (destinationPath : PathBuf) :
    PlanM OverwriteDecision := do
  match resolver with
  | none => throw (.overwritePromptUnavailable entry.archivePath destinationPath)
  | some decide =>
    let planner ← get
    let conflict : OverwriteConflict := ⟨entry.archivePath, destinationPath⟩
    set { planner with askedConflicts := planner.askedConflicts ++ [conflict] }
    return decide planner.askedConflicts conflict

/-- The first free sibling name. -/
def renameCandidateOrError (entry : ExtractionEntry) (destinationPath : PathBuf) :
    PlanM PathBuf := do
  let planner ← get
  let startIndex := (planner.nextRenameIndex destinationPath).getD firstRenameIndex
  match nextAvailableDestinationPathFrom probe destinationPath startIndex maxRenameCandidates with
  | none => throw (.renameDestinationExhausted entry.archivePath destinationPath)
  | some (candidate, resumeIndex) =>
    set { planner with
      nextRenameIndex := Function.update planner.nextRenameIndex destinationPath
        (some resumeIndex) }
    return candidate

/-- Refuses a second entry of a key. -/
def rejectCollision (normalizedArchivePath : Text) : PlanM Unit := do
  let planner ← get
  let collisionKey := caseCollisionKey fold normalizedArchivePath
  set { planner with
    seenPaths := Function.update planner.seenPaths collisionKey (some normalizedArchivePath) }
  match planner.seenPaths collisionKey with
  | some previous => throw (.nameCollision normalizedArchivePath previous)
  | none => return ()

/-- Chooses between the natural destination, a renamed one, a skip and a
refusal. Replacing is selected for every non-directory entry under
`OverwritePolicy.replace`, even when the destination is absent. -/
def planDestinationWrite (entry : ExtractionEntry) (normalizedArchivePath : Text)
    (destinationPath : PathBuf) (linkTargetPath : Option PathBuf) : PlanM PlannedDestination := do
  let policy := (← get).policy
  let plan (destinationPath : PathBuf) (replaceExisting : Bool) : PlannedDestination :=
    .write ⟨normalizedArchivePath, destinationPath, linkTargetPath, replaceExisting⟩
  match probe.symlinkMetadata destinationPath with
  | .error error =>
    if destinationIsAbsent error then
      return plan destinationPath (policy.overwrite = .replace ∧ ¬ entry.kind.isDirectory)
    else throw (.destinationProbe entry.archivePath destinationPath error.message)
  | .ok fileType =>
    let keepsDirectory := entry.kind.isDirectory ∧ fileType = .directory
    match policy.overwrite with
    | .refuse =>
      if keepsDirectory then return plan destinationPath false
      else throw (.destinationExists entry.archivePath destinationPath)
    | .replace =>
      return plan destinationPath (¬ entry.kind.isDirectory ∨ fileType ≠ .directory)
    | .rename =>
      if keepsDirectory then return plan destinationPath false
      else return plan (← renameCandidateOrError probe entry destinationPath) false
    | .ask =>
      if keepsDirectory then return plan destinationPath false
      else
        match ← resolveOverwriteConflict resolver entry destinationPath with
        | .replace => return plan destinationPath true
        | .skip => return .skip normalizedArchivePath "skipped by overwrite prompt"
        | .rename => return plan (← renameCandidateOrError probe entry destinationPath) false
        | .quit => throw (.overwriteAborted entry.archivePath destinationPath)

/-- A symlink target has to stay inside the root lexically, and, where it
already leads somewhere, physically. -/
def validateSymlinkTarget (planner : Planner) (destinationPath : PathBuf) (target : Text) :
    Except ExtractionSafetyError Unit := do
  rejectRawPathHazards target
  if PathBuf.isAbsoluteText target then .error (.linkTargetEscapes target)
  else
    match destinationPath.parent with
    | none => .error (.linkTargetEscapes target)
    | some parent =>
      let resolvedTarget := lexicallyNormalize (parent.join target)
      if planner.destinationRoot <+: resolvedTarget then
        match probe.canonicalizeJoin parent target with
        | .ok actual =>
          let root := ((probe.canonicalize planner.destinationRoot).toOption).getD
            planner.destinationRoot
          if root <+: actual then .ok () else .error (.linkTargetEscapes target)
        | .error error =>
          -- A missing prefix in `missing/../redirect` must not hide an
          -- existing redirect, so the normalized target is probed.
          if destinationIsAbsent error then
            requireNonSymlink fold probe planner resolvedTarget destinationPath.toText
          else
            .error (.destinationProbe destinationPath.toText (parent.join target)
              error.message)
      else .error (.linkTargetEscapes target)

/-- Maps a hardlink target to the destination its member's name stands for. -/
def resolveHardlinkTarget (planner : Planner) (target : Text) :
    Except ExtractionSafetyError PathBuf :=
  match normalizeArchivePath target with
  | .error _ => .error (.linkTargetEscapes target)
  | .ok normalized =>
    let stripped :=
      if planner.policy.stripComponents > 0 then
        stripArchiveComponents normalized planner.policy.stripComponents
      else some normalized
    match stripped with
    | none => .error (.linkTargetEscapes target)
    | some member =>
      let targetPath := planner.naturalDestination member
      if planner.destinationRoot <+: targetPath then .ok targetPath
      else .error (.linkTargetEscapes target)

/-- Rejects an entry whose size grows by more than the permitted ratio. -/
def rejectExpansionRatio (archivePath : Text) (uncompressedSize : UInt64)
    (compressedSize : Option UInt64) (ratioLimit : UInt64) : Except ExtractionSafetyError Unit :=
  match compressedSize with
  | none => .ok ()
  | some compressed =>
    let exceedsLimit :=
      if compressed = 0 then 0 < uncompressedSize
      else compressed.toNat * ratioLimit.toNat < uncompressedSize.toNat
    if exceedsLimit then
      .error (.expansionRatioLimitExceeded archivePath uncompressedSize compressed ratioLimit)
    else .ok ()

/-- Counts an entry against its limit. -/
def reserveEntry (archivePath : Text) : PlanM Unit := do
  let planner ← get
  match planner.policy.limits.maxEntries with
  | none => return ()
  | some limit =>
    let attempted := saturatingAdd planner.plannedEntries 1
    if limit < attempted then throw (.entryCountLimitExceeded archivePath attempted limit)
    else set { planner with plannedEntries := attempted }

/-- Reserves bytes against the expanded-size limit. -/
def reserveExpandedBytes (archivePath : Text) (bytes : UInt64) : PlanM Unit := do
  let planner ← get
  match planner.policy.limits.maxExpandedBytes with
  | none => return ()
  | some totalLimit =>
    let attempted := saturatingAdd planner.plannedExpandedBytes bytes
    if totalLimit < attempted then
      throw (.expandedSizeLimitExceeded archivePath attempted totalLimit)
    else set { planner with plannedExpandedBytes := attempted }

/-- The ratio check of an entry whose uncompressed size is known. -/
def checkExpansionRatio (policy : ExtractionPolicy) (entry : ExtractionEntry)
    (uncompressedSize : UInt64) : Except ExtractionSafetyError Unit :=
  match policy.limits.maxEntryExpansionRatio with
  | some ratioLimit =>
    rejectExpansionRatio entry.archivePath uncompressedSize entry.compressedSize ratioLimit
  | none => .ok ()

/-- Counts the bytes of a file against their limit. -/
def reserveExpandedSize (entry : ExtractionEntry) : PlanM Unit :=
  match entry.kind, entry.uncompressedSize with
  | .file, some uncompressedSize => do
      liftM (checkExpansionRatio (← get).policy entry uncompressedSize)
      reserveExpandedBytes entry.archivePath uncompressedSize
  | _, _ => return ()

/-- The link checks of one entry: a skip reason, or the resolved hardlink
source. -/
def planLink (planner : Planner) (entry : ExtractionEntry) (destinationPath : PathBuf) :
    Except ExtractionSafetyError (String ⊕ Option PathBuf) :=
  match entry.kind with
  | .symlink target =>
    if planner.policy.ignoreSymlinks then .ok (.inl "skipped symbolic link by policy")
    else do
      validateSymlinkTarget fold probe planner destinationPath target
      return .inr none
  | .hardlink target => do
      return .inr (some (← resolveHardlinkTarget planner target))
  | .device | .special =>
    if planner.policy.unsafeFile = .skip then .ok (.inl "unsafe file type skipped by policy")
    else .error (.unsafeFileType entry.archivePath)
  | .file | .directory => .ok (.inr none)

/-- The selected and stripped name of an entry, or the reason to skip it. -/
def selectMember (planner : Planner) (entry : ExtractionEntry) :
    Except ExtractionSafetyError ((Text × String) ⊕ Text) := do
  let normalized ← normalizeArchivePath entry.archivePath
  if planner.isPathSelected normalized then
    if planner.policy.stripComponents > 0 then
      match stripArchiveComponents normalized planner.policy.stripComponents with
      | some stripped => return .inr stripped
      | none => return .inl (normalized, "path removed by strip-components policy")
    else return .inr normalized
  else return .inl (normalized, "filtered by include/exclude policy")

/-- Refuses paths outside of the root. -/
def ensureInsideDestination (destinationRoot destinationPath : PathBuf) (archivePath : Text) :
    Except ExtractionSafetyError Unit :=
  if destinationRoot <+: destinationPath then .ok ()
  else .error (.destinationEscape archivePath destinationRoot destinationPath)

/-- Names may repeat only under `OverwritePolicy.replace`. -/
def rejectCollisionUnlessReplacing (normalizedArchivePath : Text) : PlanM Unit := do
  if (← get).policy.overwrite ≠ .replace then rejectCollision fold normalizedArchivePath
  else return ()

/-- Validates one archive entry before extraction. -/
def validateEntry (entry : ExtractionEntry) : PlanM ExtractionDecision := do
  match ← liftM (selectMember (← get) entry) with
  | .inl (normalizedArchivePath, reason) => return .skip normalizedArchivePath reason
  | .inr normalizedArchivePath => do
      reserveEntry normalizedArchivePath
      let planner ← get
      let destinationPath := planner.naturalDestination normalizedArchivePath
      liftM (ensureInsideDestination planner.destinationRoot destinationPath entry.archivePath)
      match ← liftM (planLink fold probe planner entry destinationPath) with
      | .inl reason => return .skip normalizedArchivePath reason
      | .inr linkTargetPath => do
          rejectCollisionUnlessReplacing fold normalizedArchivePath
          match ← planDestinationWrite probe resolver entry normalizedArchivePath destinationPath
              linkTargetPath with
          | .skip normalizedArchivePath reason => return .skip normalizedArchivePath reason
          | .write plan => do
              liftM (validateWritePaths fold probe (← get) entry plan)
              reserveExpandedSize entry
              modify (recordWritePaths fold · entry plan)
              return .write plan

end Planner

end ZManager
