import Mathlib.Data.List.Lex
import ZManager.Foundation.StableSort
import ZManager.Foundation.Step
import ZManager.Manifest.Gitignore
import ZManager.Safety.Planner

/-! # Planning an archive

A walk over the source tree decides for every object whether it becomes an entry, and
does not enter directories that it excludes. The rules of `.gitignore` files are a
stack that grows on the way down and is cut back on the way up. What the walk found is
sorted afterwards.
-/

namespace ZManager

/-- What is read of an object besides its type. -/
structure SourceMetadata where
  len : UInt64
  modified : Option Nat
  readonly : Bool
  unixMode : Option Nat

/-- A place in the source file system. -/
abbrev NodeId := Nat

/-- What is at a place. For a directory, how reading its `.gitignore` and listing it
go; for a symbolic link, how reading its target goes. -/
inductive SourceObject where
  | file (metadata : SourceMetadata)
  | directory (metadata : SourceMetadata) (gitignore : Except IoError Text)
      (children : Except IoError (List (Text × NodeId)))
  | symlink (metadata : SourceMetadata) (target : Except IoError PathBuf)
  | other (metadata : SourceMetadata)

/-- The file system under the sources. -/
structure SourceFs where
  /-- `fs::symlink_metadata`. -/
  object : NodeId → Except IoError SourceObject
  /-- Where a path leads when links are followed. -/
  follow : NodeId → Except IoError NodeId
  canonicalize : NodeId → Except IoError NodeId
  /-- Children have distinct names. -/
  named : ∀ node metadata gitignore children,
    object node = .ok (.directory metadata gitignore (.ok children)) →
      (∀ child ∈ children, IsEntryName child.1) ∧ (children.map Prod.fst).Nodup

/-- Portable permission details for a manifest entry. -/
structure PermissionSnapshot where
  readonly : Bool
  unixMode : Option Nat

/-- One file-system item that will become an archive entry. -/
structure ManifestEntry where
  archivePath : Text
  sourcePath : PathBuf
  fileType : ManifestFileType
  size : UInt64
  modified : Option Nat
  permissions : PermissionSnapshot
  symlinkTarget : Option PathBuf

/-- One file-system item skipped by planner rules. -/
structure ExcludedEntry where
  archivePath : Text
  sourcePath : PathBuf
  reason : String
  size : UInt64

/-- Non-fatal manifest planning issue. -/
structure ManifestWarning where
  sourcePath : PathBuf
  message : String

/-- The planned archive contents before any archive bytes are written. -/
structure ArchiveManifest where
  root : PathBuf
  entries : List ManifestEntry
  totalBytes : UInt64
  excludedEntries : List ExcludedEntry
  excludedBytes : UInt64
  warnings : List ManifestWarning

/-- Default exclusion profile applied while planning archive entries. -/
inductive ExclusionProfile where
  | minimal
  | cleanSource
  | unrestricted
  deriving DecidableEq

/-- User-configurable manifest planner options. -/
structure PlanOptions where
  exclusionProfile : ExclusionProfile := .minimal
  respectGitignore : Bool := false
  excludeNames : List Text := []
  excludeArchivePaths : List Text := []
  includeArchivePaths : List Text := []
  followSymlinks : Bool := false

/-- Error returned by manifest planning. -/
inductive PlanError where
  | missingFileName (path : PathBuf)
  | metadata (path : PathBuf) (source : IoError)
  | readDir (path : PathBuf) (source : IoError)

/-! ## Exclusion -/

/-- True when `path` lies strictly below `ancestor`. -/
def isStrictDescendantPath (path ancestor : Text) : Bool :=
  (Text.stripPrefix ancestor path).any fun rest => ['/'] <+: rest

def pathMatchesOrIsDescendant (path includePath : Text) : Bool :=
  path = includePath || isStrictDescendantPath path includePath

def cleanSourceExcludeNames : List Text :=
  [".DS_Store", ".cache", ".git", ".gradle", ".hg", ".idea", ".mypy_cache", ".next", ".nuxt",
    ".pytest_cache", ".ruff_cache", ".svn", ".turbo", ".vscode", "DerivedData", "Thumbs.db",
    "__pycache__", "build", "dist", "node_modules", "target"].map String.toList

def cleanSourceExcludeName (name : Text) : Bool := name ∈ cleanSourceExcludeNames

namespace PlanOptions

/-- A path that the options include. -/
def isExplicitlyIncluded (options : PlanOptions) (archivePath : Text) : Bool :=
  options.includeArchivePaths.any (pathMatchesOrIsDescendant archivePath)

/-- Something below the path is included. -/
def hasExplicitIncludeDescendant (options : PlanOptions) (archivePath : Text) : Bool :=
  options.includeArchivePaths.any (isStrictDescendantPath · archivePath)

/-- Why the defaults leave a path out. -/
def cleanSourceExclusionReason (options : PlanOptions) (archivePath : Text)
    (fileType : ManifestFileType) : Option String :=
  match ((archivePath.splitOn '/').drop 1).find? cleanSourceExcludeName with
  | none => none
  | some matchedName =>
    if fileType = .directory ∧ options.hasExplicitIncludeDescendant archivePath then none
    else some ("clean source exclusion: " ++ String.ofList matchedName)

/-- The rule of `.gitignore` files. -/
def gitignoreExclusionReason (options : PlanOptions) (archivePath : Text)
    (fileType : ManifestFileType) (gitignoreRules : List GitignoreRule) : Option String :=
  if options.respectGitignore then
    match gitignoreDecision archivePath fileType gitignoreRules with
    | some (true, ruleIndex) =>
      if fileType = .directory ∧
          gitignoreHasLaterNegatedDescendant archivePath gitignoreRules ruleIndex then none
      else some "ignored by .gitignore"
    | _ => none
  else none

/-- Why a path is left out. -/
def exclusionReason (options : PlanOptions) (sourcePath : PathBuf) (archivePath : Text)
    (fileType : ManifestFileType) (gitignoreRules : List GitignoreRule) : Option String :=
  match sourcePath.fileName with
  | none => none
  | some fileName =>
    if options.isExplicitlyIncluded archivePath then none
    else if options.exclusionProfile ≠ .unrestricted ∧ fileName = ".DS_Store".toList then
      some "default macOS metadata exclusion"
    else
      match if options.exclusionProfile = .cleanSource then
          options.cleanSourceExclusionReason archivePath fileType else none with
      | some reason => some reason
      | none =>
        if fileName ∈ options.excludeNames then
          if fileType = .directory ∧ options.hasExplicitIncludeDescendant archivePath then none
          else some ("excluded name: " ++ String.ofList fileName)
        else if archivePath ∈ options.excludeArchivePaths then
          if fileType = .directory ∧ options.hasExplicitIncludeDescendant archivePath then none
          else some ("excluded archive path: " ++ String.ofList archivePath)
        else options.gitignoreExclusionReason archivePath fileType gitignoreRules

end PlanOptions

/-! ## Entries -/

namespace SourceObject

def metadata : SourceObject → SourceMetadata
  | file metadata | directory metadata _ _ | symlink metadata _ | other metadata => metadata

/-- `manifest_file_type`. -/
def fileType : SourceObject → ManifestFileType
  | file _ => .file
  | directory _ _ _ => .directory
  | symlink _ _ => .symlink
  | other _ => .other

/-- `estimate_regular_file_bytes`. -/
def regularFileBytes : SourceObject → UInt64
  | file metadata => metadata.len
  | directory _ _ _ | symlink _ _ | other _ => 0

end SourceObject

/-- The target of a link; a failure is a warning. -/
def readSymlinkTarget (sourcePath : PathBuf) : SourceObject →
    Option PathBuf × List ManifestWarning
  | .symlink _ (.ok target) => (some target, [])
  | .symlink _ (.error failure) =>
    (none, [⟨sourcePath, "failed to read symlink target: " ++ failure.message⟩])
  | .file _ | .directory _ _ _ | .other _ => (none, [])

def buildEntry (sourcePath : PathBuf) (archivePath : Text) (object : SourceObject) :
    ManifestEntry where
  archivePath := archivePath
  sourcePath := sourcePath
  fileType := object.fileType
  size := object.regularFileBytes
  modified := object.metadata.modified
  permissions := ⟨object.metadata.readonly, object.metadata.unixMode⟩
  symlinkTarget := (readSymlinkTarget sourcePath object).1

/-- The rules of a directory; a failure other than a missing file is a warning. -/
def readGitignoreRules (sourcePath : PathBuf) (archivePath : Text) (gitignore :
    Except IoError Text) :
    List GitignoreRule × List ManifestWarning :=
  match gitignore with
  | .ok contents => (parseGitignore contents archivePath, [])
  | .error failure =>
    if failure.kind = .notFound then ([], [])
    else ([], [⟨sourcePath ++ [Component.normal ".gitignore".toList],
      "failed to read .gitignore: " ++ failure.message⟩])

/-! ## The walk -/

/-- What the planner has gathered, the stack of rules, and the directories that are
being walked. -/
structure ManifestPlanner where
  entries : List ManifestEntry := []
  excludedEntries : List ExcludedEntry := []
  warnings : List ManifestWarning := []
  totalBytes : UInt64 := 0
  excludedBytes : UInt64 := 0
  gitignoreRules : List GitignoreRule := []
  activeDirs : List NodeId := []

/-- The place that a path leads to. -/
def SourceFs.place (fs : SourceFs) (options : PlanOptions) (node : NodeId) :
    Except IoError NodeId :=
  if options.followSymlinks then fs.follow node else .ok node

/-- `fs::metadata` or `fs::symlink_metadata`: the object that a path leads to, and its
place. -/
def SourceFs.metadata (fs : SourceFs) (options : PlanOptions) (node : NodeId) :
    Except IoError (NodeId × SourceObject) := do
  let place ← fs.place options node
  let object ← fs.object place
  return (place, object)

namespace ManifestPlanner

def exclude (planner : ManifestPlanner) (sourcePath : PathBuf) (archivePath : Text)
    (reason : String) (object : SourceObject) : ManifestPlanner :=
  { planner with
    excludedBytes := saturatingAdd planner.excludedBytes object.regularFileBytes
    excludedEntries := planner.excludedEntries ++
      [⟨archivePath, sourcePath, reason, object.regularFileBytes⟩] }

def pushEntry (planner : ManifestPlanner) (sourcePath : PathBuf) (archivePath : Text)
    (object : SourceObject) : ManifestPlanner :=
  let entry := buildEntry sourcePath archivePath object
  { planner with
    warnings := planner.warnings ++ (readSymlinkTarget sourcePath object).2
    totalBytes :=
      if entry.fileType = .file then saturatingAdd planner.totalBytes entry.size
      else planner.totalBytes
    entries := planner.entries ++ [entry] }

def warn (planner : ManifestPlanner) (warnings : List ManifestWarning) : ManifestPlanner :=
  { planner with warnings := planner.warnings ++ warnings }

end ManifestPlanner

/-- What is done with a directory before it is listed. -/
inductive DirectoryStart where
  /-- It is being walked already. -/
  | loop
  /-- The directory to put among those being walked. -/
  | enter (marker : Option NodeId)

def startDirectory (fs : SourceFs) (options : PlanOptions) (place : NodeId)
    (activeDirs : List NodeId) : Except IoError DirectoryStart :=
  if options.followSymlinks then
    match fs.canonicalize place with
    | .ok canonical => .ok (if canonical ∈ activeDirs then .loop else .enter (some canonical))
    | .error failure => .error failure
  else .ok (.enter none)

def depthError : IoError := ⟨.invalidInput, "maximum manifest walk depth exceeded"⟩

/-- `ManifestPlanner::walk`. Of the depth only matters whether it is zero and how many
levels, `1025 - depth`, the walk may still go down. -/
def walk (fs : SourceFs) (options : PlanOptions) : (levels : Nat) → (isRoot : Bool) →
    NodeId → PathBuf → Text → ManifestPlanner → Except PlanError ManifestPlanner
  | 0, _, node, sourcePath, _, _ =>
    match fs.metadata options node with
    | .error failure => .error (.metadata sourcePath failure)
    | .ok _ => .error (.metadata sourcePath depthError)
  | levels + 1, isRoot, node, sourcePath, archivePath, planner =>
    match fs.metadata options node with
    | .error failure => .error (.metadata sourcePath failure)
    | .ok (place, object) =>
      match if isRoot then none else options.exclusionReason sourcePath archivePath
          object.fileType planner.gitignoreRules with
      | some reason => .ok (planner.exclude sourcePath archivePath reason object)
      | none =>
        let planner := planner.pushEntry sourcePath archivePath object
        match object with
        | .directory _ gitignore children =>
          match startDirectory fs options place planner.activeDirs with
          | .error failure => .error (.metadata sourcePath failure)
          | .ok .loop =>
            .ok (planner.warn [⟨sourcePath, "skipped symlink directory loop"⟩])
          | .ok (.enter marker) =>
            let planner := { planner with
              activeDirs := planner.activeDirs ++ marker.toList }
            let gitignoreLen := planner.gitignoreRules.length
            let (rules, warnings) :=
              if options.respectGitignore then
                readGitignoreRules sourcePath archivePath gitignore
              else ([], [])
            let planner := { planner.warn warnings with
              gitignoreRules := planner.gitignoreRules ++ rules }
            match children with
            | .error failure => .error (.readDir sourcePath failure)
            | .ok children => do
                let planner ← children.foldlM (fun planner child =>
                  walk fs options levels false child.2 (sourcePath ++
                      [Component.normal child.1])
                    (archivePath ++ '/' :: child.1) planner) planner
                return { planner with
                  gitignoreRules := planner.gitignoreRules.take gitignoreLen
                  activeDirs :=
                    if marker.isSome then planner.activeDirs.dropLast
                    else planner.activeDirs }
        | .file _ | .symlink _ _ | .other _ => .ok planner

/-! ## The manifest -/

def textKey (text : Text) : List Nat := (utf8Bytes text).map UInt8.toNat

/-- The order of path components. -/
def componentKey : Component → List Nat
  | .rootDir => [0]
  | .curDir => [1]
  | .parentDir => [2]
  | .normal name => 3 :: textKey name

/-- The order of paths, component by component. -/
def pathKey (path : PathBuf) : List (List Nat) := path.map componentKey

/-- The warnings of `record_archive_path_collisions`. `seenPaths` holds the last path
of every collision key. -/
def collisionWarnings (fold : CaseFolding) (seenPaths : Text → Option Text) :
    List ManifestEntry → List ManifestWarning
  | [] => []
  | entry :: rest =>
    let collisionKey := caseCollisionKey fold entry.archivePath
    let later := collisionWarnings fold
      (fun key => if key = collisionKey then some entry.archivePath else seenPaths key) rest
    match seenPaths collisionKey with
    | some previousPath =>
      ⟨entry.sourcePath, "archive path may collide with " ++ String.ofList previousPath ++
        " on case-insensitive file systems"⟩ :: later
    | none => later

/-- The manifest of what the walks gathered. -/
def ManifestPlanner.finish (fold : CaseFolding) (planner : ManifestPlanner)
    (manifestRoot : PathBuf) : ArchiveManifest :=
  let entries := sortBy (fun entry : ManifestEntry => textKey entry.archivePath) planner.entries
  { root := manifestRoot
    entries := entries
    totalBytes := planner.totalBytes
    excludedEntries :=
      sortBy (fun entry : ExcludedEntry => textKey entry.archivePath) planner.excludedEntries
    excludedBytes := planner.excludedBytes
    warnings := sortBy (fun warning : ManifestWarning => pathKey warning.sourcePath)
      (planner.warnings ++ collisionWarnings fold (fun _ => none) entries) }

/-- The manifest of several sources. -/
def planArchiveRoots (fold : CaseFolding) (fs : SourceFs) (roots : List (PathBuf × NodeId))
    (manifestRoot : PathBuf) (options : PlanOptions) : Except PlanError ArchiveManifest := do
  let planner ← roots.foldlM (fun planner root =>
    match root.1.fileName with
    | none => .error (.missingFileName root.1)
    | some rootName => walk fs options 1025 true root.2 root.1 rootName
        { planner with gitignoreRules := [], activeDirs := [] }) {}
  return planner.finish fold manifestRoot

/-- Plans archive entries for one source path. -/
def planArchive (fold : CaseFolding) (fs : SourceFs) (root : PathBuf) (node : NodeId)
    (options : PlanOptions) : Except PlanError ArchiveManifest :=
  planArchiveRoots fold fs [(root, node)] root options

end ZManager
