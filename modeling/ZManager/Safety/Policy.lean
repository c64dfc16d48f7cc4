import ZManager.Foundation.FileSystem

/-! # Extraction policies, entries, decisions and errors

The data the extraction safety planner works on: the caller's policy, one
archive entry as a backend presents it, the decision the planner returns, and
the error it rejects an entry with. Link targets are kept as the text the
archive stores.
-/

namespace ZManager

/-- Bytes in one mebibyte. -/
def mebibyteBytes : UInt64 := 1024 * 1024

def defaultMaxExtractedMib : UInt64 := 64 * 1024

/-- Default maximum total uncompressed bytes planned for one extraction. -/
def defaultMaxExtractedBytes : UInt64 := defaultMaxExtractedMib * mebibyteBytes

/-- Default maximum entry-level uncompressed-to-compressed size ratio. -/
def defaultMaxEntryExpansionRatio : UInt64 := 1000

/-- Expanded-size guardrails applied while planning extraction writes. -/
structure ExtractionLimits where
  maxExpandedBytes : Option UInt64 := some defaultMaxExtractedBytes
  maxEntryExpansionRatio : Option UInt64 := some defaultMaxEntryExpansionRatio
  maxEntries : Option UInt64 := none

/-- Existing destination handling. -/
inductive OverwritePolicy where
  | refuse
  | replace
  | rename
  | ask
  deriving DecidableEq, Repr

/-- Decision returned by an overwrite resolver. -/
inductive OverwriteDecision where
  | replace
  | skip
  | rename
  | quit
  deriving DecidableEq, Repr

/-- Handling of device files, FIFOs, sockets and unknown special files. -/
inductive UnsafeFilePolicy where
  | reject
  | skip
  deriving DecidableEq, Repr

/-- Reusable extraction safety policy shared by all archive backends. -/
structure ExtractionPolicy where
  overwrite : OverwritePolicy := .refuse
  unsafeFile : UnsafeFilePolicy := .reject
  includePatterns : List Text := []
  excludePatterns : List Text := []
  stripComponents : Nat := 0
  limits : ExtractionLimits := {}
  ignoreSymlinks : Bool := false

/-- Destination conflict presented to an overwrite resolver. -/
structure OverwriteConflict where
  archivePath : Text
  destinationPath : PathBuf

/-- A resolver answers each conflict, and may remember the earlier ones. -/
abbrev OverwriteResolver := List OverwriteConflict → OverwriteConflict → OverwriteDecision

/-- File type requested by an archive backend. -/
inductive ExtractionEntryKind where
  | file
  | directory
  | symlink (target : Text)
  | hardlink (target : Text)
  | device
  | special
  deriving DecidableEq, Repr

namespace ExtractionEntryKind

def isSymlink : ExtractionEntryKind → Bool
  | symlink _ => true
  | _ => false

def isDirectory : ExtractionEntryKind → Bool
  | directory => true
  | _ => false

end ExtractionEntryKind

/-- Archive entry metadata needed before extraction writes to disk. -/
structure ExtractionEntry where
  archivePath : Text
  kind : ExtractionEntryKind
  uncompressedSize : Option UInt64 := none
  compressedSize : Option UInt64 := none
  deriving DecidableEq

/-- The fields of a write decision, which are also those of a planned write. -/
structure PlannedWrite where
  normalizedArchivePath : Text
  destinationPath : PathBuf
  linkTargetPath : Option PathBuf
  replaceExisting : Bool
  deriving DecidableEq

/-- Safe extraction decision for one archive entry. -/
inductive ExtractionDecision where
  | write (plan : PlannedWrite)
  | skip (normalizedArchivePath : Text) (reason : String)
  deriving DecidableEq

/-- A failed file-system call. -/
structure IoError where
  kind : IoErrorKind
  message : String := ""
  deriving DecidableEq, Repr

/-- Extraction safety failure. -/
inductive ExtractionSafetyError where
  | emptyPath
  | nulByte (path : Text)
  | absolutePath (path : Text)
  | windowsPrefix (path : Text)
  | parentTraversal (path : Text)
  | pathTooLong (path : Text)
  | windowsReservedName (path component : Text)
  | destinationEscape (archivePath : Text) (destinationRoot destinationPath : PathBuf)
  | nameCollision (archivePath previousArchivePath : Text)
  | destinationExists (archivePath : Text) (destinationPath : PathBuf)
  | overwritePromptUnavailable (archivePath : Text) (destinationPath : PathBuf)
  | overwriteAborted (archivePath : Text) (destinationPath : PathBuf)
  | destinationProbe (archivePath : Text) (destinationPath : PathBuf) (message : String)
  | symlinkAncestor (archivePath : Text) (ancestorPath : PathBuf)
  | unsafeFileType (archivePath : Text)
  | linkTargetEscapes (target : Text)
  | renameDestinationExhausted (archivePath : Text) (destinationPath : PathBuf)
  | expandedSizeLimitExceeded (archivePath : Text) (attemptedBytes limitBytes : UInt64)
  | expansionRatioLimitExceeded (archivePath : Text)
      (uncompressedSize compressedSize ratioLimit : UInt64)
  | entryCountLimitExceeded (archivePath : Text) (attemptedEntries limitEntries : UInt64)
  deriving DecidableEq

end ZManager
