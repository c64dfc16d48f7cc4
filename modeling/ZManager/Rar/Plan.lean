import ZManager.Safety.WritePaths

/-! # Planning a RAR extraction

`plan_rar_entries` sends every listed entry through the safety planner and turns
the accepted ones into `PlannedEntry`s before anything is written. Hardlinks and
file copies name their target from the archive root. The backend rewrites that
target relative to the link's directory for the planner, and computes the source
the link is made from by a formula of its own.
-/

namespace ZManager

/-- Portable RAR entry type. -/
inductive RarEntryKind where
  | file
  | directory
  | symlink
  | hardlink
  | fileCopy
  | special
  deriving DecidableEq, Repr

/-- One RAR archive entry. -/
structure RarEntry where
  path : Text
  unpackedSize : UInt64 := 0
  dictionarySize : UInt64 := 0
  kind : RarEntryKind
  linkTarget : Option Text := none
  fileAttr : UInt32 := 0
  mtime : UInt64 := 0
  deriving DecidableEq

/-- A failure of the bundled UnRAR. -/
inductive UnrarError where
  | invalidPath (path : PathBuf) (reason : String)
  | invalidArchive (path : PathBuf) (reason : String)
  | status (code : Int) (message : String)
  | invalidEntryName
  | invalidDestination (path : PathBuf) (reason : String)
  | destinationTooLong (path : PathBuf)
  | cancelled
  deriving DecidableEq

/-- Why a link target cannot be mapped. -/
inductive InvalidTargetReason where
  | unsafePath (source : ExtractionSafetyError)
  /-- "target is removed by strip-components policy" -/
  | removedByStripping
  deriving DecidableEq

/-- Error returned by the RAR backend. -/
inductive RarBackendError where
  | unrar (source : UnrarError)
  | io (path : PathBuf) (source : IoError)
  | safety (source : ExtractionSafetyError)
  | missingLinkTarget (path : Text)
  | invalidLinkTarget (path target : Text) (reason : InvalidTargetReason)
  | dictionaryTooLarge (path : Text) (size : UInt64)
  | cancelled
  deriving DecidableEq

/-- One planned writable entry, produced without touching the file system. -/
inductive PlannedEntry where
  | directory (destinationPath : PathBuf) (replaceExisting : Bool) (fileAttr : UInt32)
      (mtime : UInt64)
  | file (archivePath : Text) (destinationPath : PathBuf) (replaceExisting : Bool)
      (fileAttr : UInt32) (mtime size : UInt64)
  | symlink (destinationPath : PathBuf) (replaceExisting : Bool) (target : Text)
      (fileAttr : UInt32) (mtime : UInt64)
  | hardlink (destinationPath : PathBuf) (replaceExisting : Bool) (sourcePath : PathBuf)
      (fileAttr : UInt32) (mtime : UInt64)
  | fileCopy (destinationPath : PathBuf) (replaceExisting : Bool) (sourcePath : PathBuf)
      (fileAttr : UInt32) (mtime : UInt64)
  deriving DecidableEq

/-- The path a planned link or copy is made from. -/
def PlannedEntry.sourcePath? : PlannedEntry → Option PathBuf
  | .hardlink _ _ sourcePath _ _ | .fileCopy _ _ sourcePath _ _ => some sourcePath
  | _ => none

/-- Maximum RAR dictionary size accepted by the bundled UnRAR bridge. -/
def maxLargeDictionaryBytes : UInt64 := 512 * mebibyteBytes

def rejectLargeDictionary (entry : RarEntry) : Except RarBackendError Unit :=
  if maxLargeDictionaryBytes < entry.dictionarySize then
    .error (.dictionaryTooLarge entry.path entry.dictionarySize)
  else .ok ()

/-- The target of a link, which must be given. -/
def linkTarget (entry : RarEntry) : Except RarBackendError Text :=
  match entry.linkTarget with
  | some target => .ok target
  | none => .error (.missingLinkTarget entry.path)

def strippedArchivePath (path : Text) (stripComponents : Nat) : Except RarBackendError Text :=
  match normalizeArchivePath path with
  | .error source => .error (.invalidLinkTarget path path (.unsafePath source))
  | .ok normalized =>
    if stripComponents = 0 then .ok normalized
    else
      let components := (normalized.splitOn '/').drop stripComponents
      if components = [] then .error (.invalidLinkTarget path path .removedByStripping)
      else .ok (['/'].intercalate components)

/-- The number of leading parts two lists share. -/
def commonParts (fromParts toParts : List Text) : Nat :=
  ((fromParts.zip toParts).takeWhile fun pair => pair.1 = pair.2).length

/-- The path that leads from one directory to another place of the archive. Its
parts are pushed one by one, so its text joins them. -/
def relativePath (fromParent target : Text) : Text :=
  let fromParts := if fromParent = [] then [] else fromParent.splitOn '/'
  let toParts := target.splitOn '/'
  let common := commonParts fromParts toParts
  ['/'].intercalate
    (List.replicate (fromParts.length - common) ['.', '.'] ++ toParts.drop common)

/-- The directory part of a slash-separated path. -/
def linkParent (strippedLink : Text) : Text :=
  match Text.rsplitOnce '/' strippedLink with
  | some (parent, _) => parent
  | none => []

/-- The target of a link as the safety planner is given it. -/
def relativeArchiveTargetForLink (linkPath strippedTarget : Text) (stripComponents : Nat) :
    Except RarBackendError Text := do
  let strippedLink ← strippedArchivePath linkPath stripComponents
  return relativePath (linkParent strippedLink) strippedTarget

/-- The path a link is made from. -/
def archiveTargetDestination (destination : PathBuf) (strippedTarget : Text) : PathBuf :=
  destination.join strippedTarget

/-- Entries that redirect to another member. -/
def RarEntryKind.isMemberLink : RarEntryKind → Bool
  | .hardlink | .fileCopy => true
  | _ => false

/-- The stripped target of a hardlink or file copy. -/
def strippedLinkTarget (entry : RarEntry) (policy : ExtractionPolicy) :
    Except RarBackendError (Option Text) :=
  if entry.kind.isMemberLink then do
    let target ← linkTarget entry
    return some (← strippedArchivePath target policy.stripComponents)
  else .ok none

/-- The kind the safety planner is given; special entries are not planned. -/
def extractionEntryKind (entry : RarEntry) (policy : ExtractionPolicy)
    (strippedTarget : Option Text) : Except RarBackendError (Option ExtractionEntryKind) :=
  match entry.kind with
  | .file => .ok (some .file)
  | .directory => .ok (some .directory)
  | .symlink => do return some (.symlink (← linkTarget entry))
  | .hardlink | .fileCopy => do
      let target ← linkTarget entry
      let stripped ← match strippedTarget with
        | some stripped => .ok stripped
        | none => strippedArchivePath target policy.stripComponents
      return some (.hardlink
        (← relativeArchiveTargetForLink entry.path stripped policy.stripComponents))
  | .special => .ok none

/-- The planner's decision on an entry. -/
def planEntry (entry : RarEntry) (plan : PlannedWrite) (destination : PathBuf)
    (policy : ExtractionPolicy) (strippedTarget : Option Text) :
    Except RarBackendError PlannedEntry :=
  match entry.kind with
  | .directory =>
    .ok (.directory plan.destinationPath plan.replaceExisting entry.fileAttr entry.mtime)
  | .file => .ok (.file entry.path plan.destinationPath plan.replaceExisting entry.fileAttr
      entry.mtime entry.unpackedSize)
  | .symlink => do
      return .symlink plan.destinationPath plan.replaceExisting (← linkTarget entry)
        entry.fileAttr entry.mtime
  | .hardlink | .fileCopy => do
      let target ← linkTarget entry
      let stripped ← match strippedTarget with
        | some stripped => .ok stripped
        | none => strippedArchivePath target policy.stripComponents
      let sourcePath := archiveTargetDestination destination stripped
      if entry.kind = .hardlink then
        return .hardlink plan.destinationPath plan.replaceExisting sourcePath entry.fileAttr
          entry.mtime
      else
        return .fileCopy plan.destinationPath plan.replaceExisting sourcePath entry.fileAttr
          entry.mtime
  | .special => .error (.io plan.destinationPath
      ⟨.invalidData, "unsupported RAR special entry: " ++ String.ofList entry.path⟩)

/-- What planning makes of one entry. -/
inductive EntryOutcome where
  | planned (plan : PlannedEntry)
  | skipped (warning : String)
  deriving DecidableEq

def skipWarning (path : Text) (reason : String) : String :=
  "skipped " ++ String.ofList path ++ ": " ++ reason

/-- What the safety planner is asked about an entry; special entries are not
presented to it. -/
def safetyEntry (entry : RarEntry) (policy : ExtractionPolicy) (strippedTarget : Option Text) :
    Except RarBackendError (Option ExtractionEntry) := do
  match ← extractionEntryKind entry policy strippedTarget with
  | none => return none
  | some kind => return some ⟨entry.path, kind, some entry.unpackedSize, none⟩

/-- Planning steps of the backend, over the state of the safety planner. -/
abbrev RarPlanM := StepM RarBackendError Planner

section

variable (fold : CaseFolding) (probe : Probe) (resolver : Option OverwriteResolver)
  (destination : PathBuf) (policy : ExtractionPolicy)

/-- The bytes of a file copy are charged here: the safety planner sees a
hardlink, which it does not charge. -/
def chargeFileCopy (entry : RarEntry) : RarPlanM Unit :=
  if entry.kind = .fileCopy then
    StepM.mapError .safety (Planner.reserveExpandedBytes entry.path entry.unpackedSize)
  else return ()

/-- The body of the planning loop. -/
def planRarEntry (entry : RarEntry) : RarPlanM EntryOutcome := do
  liftM (rejectLargeDictionary entry)
  let strippedTarget ← liftM (strippedLinkTarget entry policy)
  match ← liftM (safetyEntry entry policy strippedTarget) with
  | none => return .skipped (skipWarning entry.path "unsupported RAR special entry")
  | some safetyEntry =>
    match ← StepM.mapError .safety (Planner.validateEntry fold probe resolver safetyEntry) with
    | .skip _ reason => return .skipped (skipWarning entry.path reason)
    | .write plan => do
        chargeFileCopy entry
        return .planned (← liftM (planEntry entry plan destination policy strippedTarget))

/-- The planning loop. The token is polled before every entry; `cancelled` gives
the answer to each poll. -/
def planRarLoop (cancelled : Nat → Bool) :
    Nat → List RarEntry → RarPlanM (List (RarEntry × EntryOutcome))
  | _, [] => return []
  | poll, entry :: rest => do
      if cancelled poll then throw .cancelled
      else do
        let outcome ← planRarEntry fold probe resolver destination policy entry
        return (entry, outcome) :: (← planRarLoop cancelled (poll + 1) rest)

/-- The link source the safety planner validates for an entry. -/
def validatedLinkTarget (planner : Planner) (entry : RarEntry) : Option PathBuf :=
  match strippedLinkTarget entry policy >>= safetyEntry entry policy with
  | .ok (some safetyEntry) =>
    match ((Planner.validateEntry fold probe resolver safetyEntry).exec planner).1 with
    | .ok (.write plan) => plan.linkTargetPath
    | _ => none
  | _ => none

end

end ZManager
