import ZManager.Extract.Stream
import ZManager.Foundation.Step
import ZManager.Zip.SplitVolumes

/-! # Testing the entries of a ZIP archive

The selected entries are read to their end and counted. On a host with several
processors and with at least four selected entries, chunks of entries are read
by workers that open the file at the archive's path themselves; otherwise the
entries are read one after the other from the archive that is already open.
-/

namespace ZManager

/-- An entry opened for reading. -/
structure ZipFile where
  isDir : Bool
  reader : EntryReader

/-- What the zip crate makes of the bytes of an archive. -/
structure ZipArchive where
  len : Nat
  nameForIndex : Nat → Option (Except ZipError Text)
  byIndex : Nat → Option (List UInt8) → Except ZipError ZipFile

/-- `ZipArchive::new`, as a function of the bytes it is given. -/
abbrev ZipDecoder := List UInt8 → Except ZipError ZipArchive

/-- The report on a test. -/
structure ZipTestReport where
  testedEntries : Nat
  skippedEntries : Nat
  testedBytes : Nat
  deriving DecidableEq

/-- `normalized_password` as bytes: an empty password is none. -/
def passwordBytes (password : Option String) : Option (List UInt8) :=
  (password.filter (· ≠ "")).map (·.toUTF8.toList)

section

variable (path : Text) (cancelled : Bool)

/-- Reads an entry to its end, adding what is read to `bytes`. -/
def countChunks (failure : Option IoError) :
    Nat → List (List UInt8) → Except ZipBackendError Nat
  | bytes, [] =>
    if cancelled then .error .cancelled
    else
      match failure with
      | none => .ok bytes
      | some source => .error (.io path source)
  | bytes, chunk :: rest =>
    if cancelled then .error .cancelled
    else if chunk = [] then .ok bytes
    else countChunks failure (bytes + chunk.length) rest

/-- Tests one entry; the counts are those of the entries and of their bytes. -/
def testZipEntry (archive : ZipArchive) (password : Option (List UInt8)) (counts : Nat × Nat)
    (index : Nat) : Except ZipBackendError (Nat × Nat) :=
  if cancelled then .error .cancelled
  else
    match archive.byIndex index password with
    | .error source => .error (mapZipError source)
    | .ok file =>
      if file.isDir then .ok (counts.1 + 1, counts.2)
      else (countChunks path cancelled file.reader.failure counts.2 file.reader.chunks).map
        fun bytes => (counts.1 + 1, bytes)

/-- Tests entries one after the other. -/
def testZipEntries (archive : ZipArchive) (password : Option (List UInt8)) :
    List Nat → Nat × Nat → Except ZipBackendError (Nat × Nat)
  | [], counts => .ok counts
  | index :: rest, counts => do
      let counts ← testZipEntry path cancelled archive password counts index
      testZipEntries archive password rest counts

/-- The indexes of the selected entries and the number of the others, among the
entries from `index` on. -/
def selectZipEntries (archive : ZipArchive) (selected : Text → Bool) :
    List Nat → Except ZipBackendError (List Nat × Nat)
  | [] => .ok ([], 0)
  | index :: rest =>
    if cancelled then .error .cancelled
    else
      match archive.nameForIndex index with
      | none => .error (mapZipError .fileNotFound)
      | some (.error source) => .error (mapZipError source)
      | some (.ok name) => do
          let (toTest, skipped) ← selectZipEntries archive selected rest
          if selected name then return (index :: toTest, skipped)
          else return (toTest, skipped + 1)

end

/-- `par_chunks`: consecutive pieces of one size, the last of which may be
shorter. -/
def parChunks {α : Type*} (size : Nat) (items : List α) : List (List α) :=
  (List.range ((items.length + (size - 1)) / size)).map fun piece =>
    (items.drop (piece * size)).take size

/-- One worker: opens the file at the archive's path and tests a chunk. -/
def testZipChunk (decoder : ZipDecoder) (folder : ArchiveFolder) (path : Text) (cancelled : Bool)
    (password : Option (List UInt8)) (chunk : List Nat) : Except ZipBackendError (Nat × Nat) :=
  match openFile folder path with
  | .error source => .error (.io path source)
  | .ok bytes =>
    match decoder bytes with
    | .error source => .error (mapZipError source)
    | .ok archive => testZipEntries path cancelled archive password chunk (0, 0)

/-- Tests selected entries in an already opened archive. `parallelism` is the
number of processors when there are at least two. Of several failing workers
the first in chunk order is reported. -/
def testZipArchive (decoder : ZipDecoder) (folder : ArchiveFolder) (parallelism : Option Nat)
    (archive : ZipArchive) (path : Text) (password : Option String) (cancelled : Bool)
    (selected : Text → Bool) : Except ZipBackendError ZipTestReport := do
  let (toTest, skipped) ← selectZipEntries cancelled archive selected (List.range archive.len)
  if 4 ≤ toTest.length ∧ parallelism.isSome ∧ (folder.lookup path).isSome then
    let results ← (parChunks 32 toTest).mapM
      (testZipChunk decoder folder path cancelled (passwordBytes password))
    return ⟨(results.map Prod.fst).sum, skipped, (results.map Prod.snd).sum⟩
  else
    let counts ← testZipEntries path cancelled archive (passwordBytes password) toTest (0, 0)
    return ⟨counts.1, skipped, counts.2⟩

/-- Tests a ZIP archive from disk. -/
def testZipWithPasswordFilter (decoder : ZipDecoder) (folder : ArchiveFolder)
    (parallelism : Option Nat) (path : Text) (password : Option String)
    (selected : Text → Bool) : Except ZipBackendError ZipTestReport := do
  let stream ← openZipReader folder path
  match decoder stream with
  | .error source => throw (mapZipError source)
  | .ok archive => testZipArchive decoder folder parallelism archive path password false selected

end ZManager
