import ZManager.Identity.Identifiers
import ZManager.Safety.ArchivePath
import ZManager.Wim.Metadata
import ZManager.Wim.Resource

/-! # Opened WIM archives

An archive holds its part files, the table of streams and the metadata resources. Streams that
were read are retained under their hash. Verifying an archive and testing it both walk its
entries, each in a loop of its own.
-/

namespace ZManager

open Bytes

namespace Wim

/-- Failures of the reader. -/
inductive WimError where
  | io (path : Text)
  | invalid (path : Text) (message : String)
  | unsupported (path : Text) (message : String)

abbrev Read (α : Type) := Except (Stop WimError) α

/-! ## Resources of the parts -/

/-- A WIM resource header. -/
structure ResHdr where
  flags : Nat
  offset : Nat
  originalSize : Nat
  compressedSize : Nat

def ResHdr.isCompressed (res : ResHdr) : Prop := res.flags &&& 0x04 ≠ 0

instance (res : ResHdr) : Decidable res.isCompressed := inferInstanceAs (Decidable (_ ≠ _))

/-- One lookup-table row: a stored stream keyed by its SHA-1. -/
structure WimLookupEntry where
  res : ResHdr
  sha1 : List UInt8
  partIndex : Nat

/-- One opened file of a WIM set, with what its header says of resources. -/
structure WimPart where
  path : Text
  file : List UInt8
  chunkSize : Nat
  compression : WimCompression

def maxResourceBytes : Nat := 4 * 1024 * 1024 * 1024

/-- Explains why a compressed WIM cannot be read, and how to convert it. -/
def undecodableReason (compression : WimCompression) : String :=
  let detail := match compression with
    | .lzx => "LZX resources use WIM's LZX dialect, which differs from CAB/[MS-PATCH] LZX in " ++
        "its block header"
    | .xpress => "XPRESS resources use XPRESS with Huffman coding ([MS-XCA] 2.4), not plain " ++
        "LZ77 XPRESS"
    | .lzms => "LZMS resources (typically .esd distribution images) use an undocumented " ++
        "Microsoft codec"
    | .none => "the image is uncompressed"
  detail ++ "; convert the image with \x60wimlib-imagex export <wim> all <out.wim> " ++
    "--compress=none\x60"

/-- Whether this build can decode a compression. -/
def decodes : WimCompression → Bool
  | .lzms => false
  | _ => true

/-- Reads a complete resource from a part, decompressing chunked resources. -/
def readResource (codecs : ChunkCodecs) (part : WimPart) (res : ResHdr) : Read (List UInt8) :=
  if res.originalSize = 0 then .ok []
  else if maxResourceBytes < res.originalSize then
    .error (.refused (.invalid part.path (s!"resource declares {
      res.originalSize} uncompressed bytes, above the {maxResourceBytes} byte limit")))
  else
    let storedSize := if res.isCompressed then res.compressedSize else res.originalSize
    if part.file.length < storedSize ∨ part.file.length - storedSize < res.offset then
      .error (.refused (.invalid part.path (s!"resource at offset {res.offset} declares {
        storedSize} stored bytes, past the end of the {part.file.length} byte file")))
    else
      let stored := (part.file.drop res.offset).take storedSize
      if ¬ res.isCompressed ∨ part.compression = .none then .ok (stored.take res.originalSize)
      else if part.compression = .lzx ∧ maxWimChunkSize < part.chunkSize then
        .error (.refused (.unsupported part.path (s!"WIM LZX chunk size {
          part.chunkSize} exceeds this decoder's {maxWimChunkSize} byte limit")))
      else if ¬ decodes part.compression then
        .error (.refused (.unsupported part.path (undecodableReason part.compression)))
      else
        match decompressResource (codecs.decompressChunk part.compression) stored res.originalSize
          part.chunkSize with
        | .ok bytes => .ok bytes
        | .error message => .error (.refused (.invalid part.path message))

/-! ## Entries -/

/-- A text of an even number of bytes, which lies in the buffer. -/
def utf16Slice (buffer : List UInt8) (offset length : Nat) : Option Text :=
  if length = 0 ∨ length % 2 ≠ 0 ∨ buffer.length < offset + length then none
  else some (Utf16.decodeLossy (utf16Units ((buffer.drop offset).take length)))

/-- Converts an NTFS reparse target into a portable path. -/
def normalizeReparseTarget (target : Text) : Text :=
  let nt := "\\??\\".toList
  replaceBackslash (if nt <+: target then target.drop nt.length else target)

/-- Decodes a symlink or junction target from a WIM reparse data buffer. -/
def decodeReparseTarget (payload : List UInt8) (reparseTag : Nat) : Option Text :=
  if payload.length < 8 then none
  else
    let candidates :=
      if reparseTag = ioReparseTagSymlink then [12]
      else if reparseTag = ioReparseTagMountPoint then [8]
      else [12, 8]
    candidates.findSome? fun start =>
      if payload.length < start then none
      else
        let buffer := payload.drop start
        let named (offset length : Nat) : Option Text :=
          utf16Slice buffer (readU16 payload offset) (readU16 payload length)
        -- The print name, or the substitute name where there is none.
        (((named 4 6).filter (· ≠ [])).or (named 0 2)).bind fun target =>
          let normalized := normalizeReparseTarget target
          if normalized ≠ [] then some normalized else none

/-- The parts and tables of an opened WIM. -/
structure WimSet where
  first : WimPart
  others : List WimPart
  /-- Streams keyed by SHA-1. -/
  lut : List UInt8 → Option WimLookupEntry
  metadataResources : List WimLookupEntry

namespace WimSet

variable (codecs : ChunkCodecs) (set : WimSet)

def path : Text := set.first.path

/-- The part that holds a resource. -/
def part (entry : WimLookupEntry) : Read WimPart :=
  match (set.first :: set.others)[entry.partIndex]? with
  | some part => .ok part
  | none => .error .panicked

/-- Reads the whole resource of a lookup entry from its owning part. -/
def readStream (entry : WimLookupEntry) : Read (List UInt8) := do
  readResource codecs (← set.part entry) entry.res

/-- Fills in sizes from the lookup table and decodes reparse-point targets. -/
def resolveEntryDetails : List WimEntry → Read (List WimEntry)
  | [] => .ok []
  | entry :: rest => do
      let resolved ←
        if entry.sha1 = noHash then pure entry
        else
          match set.lut entry.sha1 with
          | none => pure entry
          | some lookup =>
            if entry.kind = .symlink then do
              let data ← set.readStream codecs lookup
              pure { entry with linkTarget := decodeReparseTarget data entry.reparseTag }
            else pure { entry with size := lookup.res.originalSize }
      return resolved :: (← resolveEntryDetails rest)

/-- Reads the metadata resource of one image and parses its directory tree. -/
def readImageEntries (metadata : WimLookupEntry) (under : Option Text) (nextIndex : Nat) :
    Read (List WimEntry × Nat) := do
  let bytes ← set.readStream codecs metadata
  let part ← set.part metadata
  if inMemory : bytes.length < 2 ^ 63 then
    match parseDentries ⟨bytes, inMemory⟩ under nextIndex with
    | .error .panicked => .error .panicked
    | .error (.refused message) => .error (.refused (.invalid part.path message))
    | .ok (entries, nextIndex) => return (← set.resolveEntryDetails codecs entries, nextIndex)
  else .error .panicked

/-- The entries of the images from a number on. -/
def imagesEntries (multiImage : Bool) : (images : List WimLookupEntry) → (number nextIndex : Nat) →
    Read (List WimEntry)
  | [], _, _ => .ok []
  | metadata :: images, number, nextIndex => do
      let under := if multiImage then some ("image".toList ++ Nat.toDigits 10 number) else none
      let (entries, nextIndex) ← set.readImageEntries codecs metadata under nextIndex
      return entries ++ (← imagesEntries multiImage images (number + 1) nextIndex)

/-- Walks every image, producing one flat entry list. -/
def entries : Read (List WimEntry) :=
  if set.metadataResources = [] then
    .error (.refused (.invalid set.path "no image metadata resource found in WIM"))
  else
    set.imagesEntries codecs (1 < set.metadataResources.length) set.metadataResources 1 0

end WimSet

/-! ## Retained streams -/

def resourceCacheBudgetBytes : Nat := 64 * 1024 * 1024

/-- Decompressed streams retained by SHA-1, and how many bytes they are. -/
structure ResourceCache where
  retained : List UInt8 → Option (List UInt8) := fun _ => none
  bytes : Nat := 0

/-- Retains a decoded stream for reuse by other entries sharing its SHA-1. -/
def ResourceCache.retainResource (cache : ResourceCache) (sha1 data : List UInt8) :
    ResourceCache :=
  if data = [] ∨ resourceCacheBudgetBytes < data.length then cache
  else
    let room : ResourceCache :=
      if resourceCacheBudgetBytes < cache.bytes + data.length then {} else cache
    { retained := Function.update room.retained sha1 (some data)
      bytes := if (room.retained sha1).isNone then room.bytes + data.length else room.bytes }

section

variable (codecs : ChunkCodecs) (set : WimSet)

/-- Reads the stream backing one directory entry; a zero hash stands for none. -/
def readEntryData (cache : ResourceCache) (entry : WimEntry) :
    Read (Option (List UInt8) × ResourceCache) :=
  if entry.sha1 = noHash then .ok (none, cache)
  else
    match cache.retained entry.sha1 with
    | some retained => .ok (some retained, cache)
    | none =>
      match set.lut entry.sha1 with
      | none =>
        .error (.refused (.invalid set.path (s!"entry {
          String.ofList entry.path} references stream {
          String.ofList (Identity.hexLower entry.sha1)} which is not in the lookup table")))
      | some lookup =>
        match set.readStream codecs lookup with
        | .error stopped => .error stopped
        | .ok data => .ok (some data, cache.retainResource entry.sha1 data)

/-! ## Verifying and testing -/

variable (sha1 : List UInt8 → List UInt8)

/-- The checks that verifying and testing make of a stream. -/
def checkStream (path : Text) (entry : WimEntry) (data : List UInt8) : Except WimError Unit :=
  if data.length ≠ entry.size then
    .error (.invalid path (s!"WIM entry {String.ofList entry.path} decoded to {
      data.length} bytes, expected {entry.size}"))
  else if sha1 data ≠ entry.sha1 then
    .error (.invalid path (s!"WIM entry {String.ofList entry.path} hashes to {
      String.ofList (Identity.hexLower (sha1 data))}, but the lookup table records {
      String.ofList (Identity.hexLower entry.sha1)}"))
  else .ok ()

/-- `u64::saturating_add`. -/
def saturatingAdd (one two : Nat) : Nat := min (one + two) (2 ^ 64 - 1)

/-- The loop of `verify`. -/
def verifyLoop : List WimEntry → ResourceCache → Nat → Read Nat
  | [], _, verified => .ok verified
  | entry :: rest, cache, verified =>
    if entry.kind ≠ .file then verifyLoop rest cache verified
    else
      match readEntryData codecs set cache entry with
      | .error stopped => .error stopped
      | .ok (none, _) =>
        .error (.refused (.invalid set.path (s!"file entry {
          String.ofList entry.path} has no data stream")))
      | .ok (some data, cache) =>
        match checkStream sha1 set.path entry data with
        | .error error => .error (.refused error)
        | .ok () => verifyLoop rest cache (saturatingAdd verified data.length)

/-- Verifies every regular-file stream against its recorded size and SHA-1. -/
def verify (cache : ResourceCache) : Read Nat := do
  verifyLoop codecs set sha1 (← set.entries codecs) cache 0

/-- Failures of the backend. -/
inductive WimBackendError where
  | io (path : Text)
  | invalid (path : Text) (message : String)
  | unsupported (path : Text) (message : String)
  | cancelled

def WimBackendError.ofWimError : WimError → WimBackendError
  | .io path => .io path
  | .invalid path message => .invalid path message
  | .unsupported path message => .unsupported path message

/-- How a backend call stops when a read does. -/
def backendStop : Stop WimError → Stop WimBackendError
  | .panicked => .panicked
  | .refused error => .refused (.ofWimError error)

/-- The report on a test. -/
structure WimReport where
  entries : Nat := 0
  skippedEntries : Nat := 0
  bytes : Nat := 0

/-- What is tested, and until when. -/
structure TestOptions where
  selectedPaths : List Text := []
  /-- What the token says at each entry. -/
  cancellation : Option (Nat → Bool) := none

def TestOptions.selects (options : TestOptions) (path : Text) : Bool :=
  options.selectedPaths.isEmpty || options.selectedPaths.contains path

def TestOptions.isCancelled (options : TestOptions) (check : Nat) : Bool :=
  options.cancellation.any fun token => token check

/-- The loop of `test`. -/
def testLoop (options : TestOptions) :
    List WimEntry → Nat → ResourceCache → WimReport → Except (Stop WimBackendError) WimReport
  | [], _, _, report => .ok report
  | entry :: rest, check, cache, report =>
    if options.isCancelled check then .error (.refused .cancelled)
    else if ¬ options.selects entry.path then
      testLoop options rest (check + 1) cache
        { report with skippedEntries := saturatingAdd report.skippedEntries 1 }
    else if entry.kind = .file then
      match readEntryData codecs set cache entry with
      | .error stopped => .error (backendStop stopped)
      | .ok (none, cache) =>
        testLoop options rest (check + 1) cache
          { report with entries := saturatingAdd report.entries 1 }
      | .ok (some data, cache) =>
        match checkStream sha1 set.path entry data with
        | .error error => .error (.refused (.ofWimError error))
        | .ok () =>
          testLoop options rest (check + 1) cache
            { report with
              entries := saturatingAdd report.entries 1
              bytes := saturatingAdd report.bytes data.length }
    else
      testLoop options rest (check + 1) cache
        { report with entries := saturatingAdd report.entries 1 }

/-- Verifies selected or all files of the archive that `open_and_collect` opens. -/
def test (options : TestOptions) : Except (Stop WimBackendError) WimReport :=
  match set.entries codecs with
  | .error stopped => .error (backendStop stopped)
  | .ok entries => testLoop codecs set sha1 options entries 0 {} {}

end

end Wim

end ZManager
