import ZManager.Create.VolumeNames

/-! # Splitting a finished ZIP archive into volumes

The finished archive is cut into volumes behind a four-byte signature, with the
disk fields of its central directory and its end record rewritten to where their
targets come to lie. The volumes are staged and moved into place together, as
those of a 7z archive are.
-/

namespace ZManager

/-! ## The records of the finished archive -/

def zip64EndOfCentralDirectoryLocatorSignature : Nat := 0x07064b50

def minZipVolumeSizeBytes : Nat := 65536

/-- What splitting needs of the end record. -/
structure ZipEndOfCentralDirectory where
  centralDirectoryOffset : Nat
  centralDirectorySize : Nat
  totalEntries : Nat
  bytes : List UInt8

/-- A ZIP64 locator stands before the end record, inside the tail that was read. -/
def hasZip64Locator (archive : List UInt8) (eocdOffset : Nat) : Bool :=
  20 ≤ eocdOffset &&
    archive.length - min archive.length (zipEocdMinSize + zipEocdMaxCommentSize) ≤
      eocdOffset - 20 &&
    Bytes.readU32 archive (eocdOffset - 20) = zip64EndOfCentralDirectoryLocatorSignature

/-- The end record of a finished archive. -/
def readZipEocd (archive : List UInt8) : Except ZipBackendError ZipEndOfCentralDirectory :=
  match findEndRecord archive with
  | none => .error (.unsupportedSplitZip "archive is missing ZIP end record")
  | some eocdOffset =>
    let eocd := archive.drop eocdOffset
    if hasZip64Locator archive eocdOffset then
      .error (.unsupportedSplitZip "ZIP64 split metadata is not implemented")
    else if Bytes.readU16 eocd 4 ≠ 0 ∨ Bytes.readU16 eocd 6 ≠ 0 then
      .error (.unsupportedSplitZip "archive is already a multi-disk ZIP")
    else if Bytes.readU16 eocd 8 = 65535 ∨ Bytes.readU16 eocd 10 = 65535 ∨
        Bytes.readU32 eocd 12 = 2 ^ 32 - 1 ∨ Bytes.readU32 eocd 16 = 2 ^ 32 - 1 then
      .error (.unsupportedSplitZip
        "ZIP64 central directory markers are not supported for split output")
    else if Bytes.readU16 eocd 8 ≠ Bytes.readU16 eocd 10 then
      .error (.unsupportedSplitZip "central directory entry counts are inconsistent")
    else if Bytes.readU32 eocd 16 + Bytes.readU32 eocd 12 ≠ eocdOffset then
      .error (.unsupportedSplitZip
        "unexpected data between central directory and ZIP end record")
    else
      .ok ⟨Bytes.readU32 eocd 16, Bytes.readU32 eocd 12, Bytes.readU16 eocd 10, eocd⟩

/-- The volume an offset of the split stream lies in, and the offset there. -/
def splitZipLocation (logicalOffset volumeSize : Nat) : Except ZipBackendError (Nat × Nat) :=
  if 65535 ≤ logicalOffset / volumeSize then
    .error (.unsupportedSplitZip "too many ZIP volumes")
  else if 2 ^ 32 ≤ logicalOffset % volumeSize then
    .error (.unsupportedSplitZip "ZIP disk-relative offset overflow")
  else .ok (logicalOffset / volumeSize, logicalOffset % volumeSize)

/-- Where the central directory and the end of the split stream lie. -/
structure ZipSplitLayout where
  centralDirectoryLogicalOffset : Nat
  centralDirectoryDisk : Nat
  centralDirectoryOffsetOnDisk : Nat
  lastDisk : Nat

def ZipSplitLayout.new (logicalSize volumeSize : Nat) (eocd : ZipEndOfCentralDirectory) :
    Except ZipBackendError ZipSplitLayout := do
  let (disk, offset) ← splitZipLocation (eocd.centralDirectoryOffset + 4) volumeSize
  let (lastDisk, _) ← splitZipLocation (logicalSize - 1) volumeSize
  return ⟨eocd.centralDirectoryOffset + 4, disk, offset, lastDisk⟩

/-- Rewrites the records of the central directory from `offset` on: their volume
and their offset in it. Returns them with the number of records, `entries` of
which were counted before, that start in the volume of the end record. -/
def patchSplitZipCentralDirectory (volumeSize centralDirectoryLogicalOffset eocdDisk offset
    entries : Nat) (central : List UInt8) : Except ZipBackendError (List UInt8 × Nat) :=
  if central = [] then .ok ([], entries)
  else if central.length < 46 ∨ Bytes.readU32 central 0 ≠ zipCentralDirectorySignature then
    .error (.unsupportedSplitZip "central directory is malformed")
  else
    let next := 46 + Bytes.readU16 central 28 + Bytes.readU16 central 30 +
      Bytes.readU16 central 32
    if Bytes.readU16 central 34 ≠ 0 then
      .error (.unsupportedSplitZip "archive is already a multi-disk ZIP")
    else if Bytes.readU32 central 42 = 2 ^ 32 - 1 then
      .error (.unsupportedSplitZip "ZIP64 local header offsets are not supported for split output")
    else
      match splitZipLocation (Bytes.readU32 central 42 + 4) volumeSize with
      | .error failure => .error failure
      | .ok (disk, relativeOffset) =>
        match splitZipLocation (centralDirectoryLogicalOffset + offset) volumeSize with
        | .error failure => .error failure
        | .ok (entryDisk, _) =>
          let entries := if entryDisk = eocdDisk then min (entries + 1) 65535 else entries
          if central.length < next then
            .error (.unsupportedSplitZip "central directory entry is truncated")
          else
            match patchSplitZipCentralDirectory volumeSize centralDirectoryLogicalOffset
                eocdDisk (offset + next) entries (central.drop next) with
            | .error failure => .error failure
            | .ok (rest, total) =>
              .ok (Bytes.overwrite (Bytes.overwrite (central.take next) 34
                (Bytes.leU16 disk)) 42 (Bytes.leU32 relativeOffset) ++ rest, total)
termination_by central.length
decreasing_by
  rw [List.length_drop]
  omega

/-- The end record with the disks of a layout put in. -/
def patchSplitZipEocd (eocd : List UInt8) (layout : ZipSplitLayout)
    (totalEntries entriesOnLastDisk : Nat) : Except ZipBackendError (List UInt8) :=
  if eocd.length < zipEocdMinSize ∨ Bytes.readU32 eocd 0 ≠ zipEndOfCentralDirectorySignature then
    .error (.unsupportedSplitZip "ZIP end record is malformed")
  else
    .ok (Bytes.overwrite (Bytes.overwrite eocd 4 (Bytes.leU16 layout.lastDisk ++
      Bytes.leU16 layout.centralDirectoryDisk ++ Bytes.leU16 entriesOnLastDisk ++
      Bytes.leU16 totalEntries)) 16 (Bytes.leU32 layout.centralDirectoryOffsetOnDisk))

/-! ## Writing volumes -/

/-- Writes one volume after the other; a volume that is full is set aside. -/
structure ZipSplitVolumeWriter where
  paths : List PathBuf
  volumeSize : Nat
  nextIndex : Nat
  current : Option AtomicOutputFile
  currentWritten : Nat
  completed : List AtomicOutputFile

namespace ZipSplitVolumeWriter

/-- The outputs that are not committed yet. -/
def outputs (writer : ZipSplitVolumeWriter) : List AtomicOutputFile :=
  writer.completed ++ writer.current.toList

def currentPath (writer : ZipSplitVolumeWriter) : PathBuf :=
  (writer.paths[writer.nextIndex - 1]?).getD [.normal "archive.zip".toList]

/-- Closes the volume that is written. -/
def finishCurrentVolume (writer : ZipSplitVolumeWriter) : ZipSplitVolumeWriter :=
  { writer with current := none, completed := writer.outputs }

/-- Stages the next volume. A failure drops the writer and with it its outputs. -/
def startNextVolume (names : TempNames) (writer : ZipSplitVolumeWriter) (files : Files) :
    Except ZipBackendError ZipSplitVolumeWriter × Files :=
  match writer.paths[writer.nextIndex]? with
  | none =>
    (.error (.unsupportedSplitZip "ZIP split produced too many volumes"),
      AtomicOutputFile.dropAll writer.outputs files)
  | some path =>
    match AtomicOutputFile.create names files path with
    | .error source =>
      (.error (.io (PathBuf.toText path) source), AtomicOutputFile.dropAll writer.outputs files)
    | .ok (output, files) =>
      (.ok { writer with
        current := some output, currentWritten := 0, nextIndex := writer.nextIndex + 1 }, files)

def new (names : TempNames) (paths : List PathBuf) (volumeSize : Nat) (files : Files) :
    Except ZipBackendError ZipSplitVolumeWriter × Files :=
  startNextVolume names ⟨paths, volumeSize, 0, none, 0, []⟩ files

/-- One round of `write_all`: makes room and fills it. Returns how many bytes were
written. -/
def writeSome (names : TempNames) (writer : ZipSplitVolumeWriter) (bytes : List UInt8)
    (files : Files) : Except ZipBackendError (ZipSplitVolumeWriter × Nat) × Files :=
  match (if writer.currentWritten = writer.volumeSize then
      startNextVolume names writer.finishCurrentVolume files else (.ok writer, files)) with
  | (.error failure, files) => (.error failure, files)
  | (.ok writer, files) =>
    let toWrite := min (writer.volumeSize - writer.currentWritten) bytes.length
    match writer.current with
    | none =>
      (.error (.unsupportedSplitZip "missing ZIP volume output"),
        AtomicOutputFile.dropAll writer.outputs files)
    | some output =>
      (.ok ({ writer with currentWritten := writer.currentWritten + toWrite }, toWrite),
        files.appendFile output.tempPath (bytes.take toWrite))

/-- Rounds until all bytes are written. A round of a positive volume size writes at
least one byte, so there are at most as many rounds as bytes. -/
def writeRounds (names : TempNames) :
    Nat → ZipSplitVolumeWriter → List UInt8 → Files →
      Except ZipBackendError ZipSplitVolumeWriter × Files
  | 0, writer, _, files => (.ok writer, files)
  | rounds + 1, writer, bytes, files =>
    if bytes = [] then (.ok writer, files)
    else
      match writeSome names writer bytes files with
      | (.error failure, files) => (.error failure, files)
      | (.ok (writer, written), files) =>
        writeRounds names rounds writer (bytes.drop written) files

def writeAll (names : TempNames) (writer : ZipSplitVolumeWriter) (bytes : List UInt8)
    (files : Files) : Except ZipBackendError ZipSplitVolumeWriter × Files :=
  writeRounds names bytes.length writer bytes files

def copyBufferSize : Nat := 65536

/-- Copies so many bytes of the reader, whose unread bytes are given, a buffer at a
time. -/
def copyFrom (names : TempNames) (sourcePath : PathBuf) (bytesToCopy : Nat)
    (writer : ZipSplitVolumeWriter) (unread : List UInt8) (files : Files) :
    Except ZipBackendError ZipSplitVolumeWriter × Files :=
  if bytesToCopy = 0 then (.ok writer, files)
  else
    let chunkLen := min bytesToCopy copyBufferSize
    if unread.length < chunkLen then
      (.error (.io (PathBuf.toText sourcePath) ⟨.unexpectedEof, "failed to fill whole buffer"⟩),
        AtomicOutputFile.dropAll writer.outputs files)
    else
      match writeAll names writer (unread.take chunkLen) files with
      | (.error failure, files) => (.error failure, files)
      | (.ok writer, files) =>
        copyFrom names sourcePath (bytesToCopy - chunkLen) writer (unread.drop chunkLen) files
termination_by bytesToCopy
decreasing_by
  unfold copyBufferSize
  omega

/-- Removes the old volumes and moves the new ones into place. -/
def finish (writer : ZipSplitVolumeWriter) (destination : PathBuf) (existing : List PathBuf)
    (replaceExisting : Bool) (files : Files) : Except ZipBackendError Unit × Files :=
  let writer := writer.finishCurrentVolume
  if writer.completed.length ≠ writer.paths.length then
    (.error (.unsupportedSplitZip "ZIP split writer did not fill all volumes"),
      AtomicOutputFile.dropAll writer.outputs files)
  else
    match commitSplitVolumes (fun _ => destination) destination existing replaceExisting
        writer.completed files with
    | (.error (path, source), files) => (.error (.io (PathBuf.toText path) source), files)
    | (.ok (), files) => (.ok (), files)

end ZipSplitVolumeWriter

/-! ## Splitting -/

/-- The archive file of a creation that is to be split: its bytes. -/
def readZipArchive (files : Files) (archivePath : PathBuf) :
    Except ZipBackendError (List UInt8) :=
  match files.symlinkMetadata archivePath with
  | some (.file archive) => .ok archive
  | some .directory =>
    .error (.io (PathBuf.toText archivePath) ⟨.isADirectory, "Is a directory (os error 21)"⟩)
  | none =>
    .error (.io (PathBuf.toText archivePath)
      ⟨.notFound, "No such file or directory (os error 2)"⟩)

/-- An archive that fits in one volume is copied to the destination. -/
def writeSingleZipVolume (names : TempNames) (archive : List UInt8) (destination : PathBuf)
    (existing : List PathBuf) (replaceExisting : Bool) (files : Files) :
    Except ZipBackendError Unit × Files :=
  andThen (ZipSplitVolumeWriter.new names [destination] (max archive.length 1) files)
    fun writer files =>
  andThen (writer.copyFrom names destination archive.length archive files) fun writer files =>
  writer.finish destination existing replaceExisting files

/-- The split stream is written behind its signature: the archive up to its central
directory, and the rewritten records. -/
def writeZipVolumes (names : TempNames) (archivePath : PathBuf) (archive : List UInt8)
    (centralDirectoryOffset : Nat) (centralDirectory eocd : List UInt8)
    (volumePaths : List PathBuf) (volumeSize : Nat) (destination : PathBuf)
    (existing : List PathBuf) (replaceExisting : Bool) (files : Files) :
    Except ZipBackendError Unit × Files :=
  andThen (ZipSplitVolumeWriter.new names volumePaths volumeSize files) fun writer files =>
  andThen (writer.writeAll names zipSplitSignature files) fun writer files =>
  andThen (writer.copyFrom names archivePath centralDirectoryOffset archive files)
    fun writer files =>
  andThen (writer.writeAll names centralDirectory files) fun writer files =>
  andThen (writer.writeAll names eocd files) fun writer files =>
  writer.finish destination existing replaceExisting files

/-- The rewritten central directory and end record of a split archive. -/
def splitZipRecords (archive : List UInt8) (volumeSize : Nat) (layout : ZipSplitLayout)
    (eocd : ZipEndOfCentralDirectory) : Except ZipBackendError (List UInt8 × List UInt8) := do
  let (central, entriesOnLastDisk) ← patchSplitZipCentralDirectory volumeSize
    layout.centralDirectoryLogicalOffset layout.lastDisk 0 0
    ((archive.drop eocd.centralDirectoryOffset).take eocd.centralDirectorySize)
  let eocdBytes ← patchSplitZipEocd eocd.bytes layout eocd.totalEntries entriesOnLastDisk
  return (central, eocdBytes)

/-- Splits an archive that does not fit in one volume. -/
def splitZipVolumes (order : ReadOrder) (names : TempNames) (files : Files)
    (archivePath destination : PathBuf) (archive : List UInt8) (eocd : ZipEndOfCentralDirectory)
    (volumeSize : Nat) (replaceExisting : Bool) : Except ZipBackendError Nat × Files :=
  if 2 ^ 64 ≤ archive.length + 4 then
    (.error (.unsupportedSplitZip "archive is too large to split"), files)
  else
    let volumeCount := splitVolumeCount (archive.length + 4) volumeSize
    let prepared : Except ZipBackendError
        (List PathBuf × List PathBuf × List UInt8 × List UInt8) := do
      let layout ← ZipSplitLayout.new (archive.length + 4) volumeSize eocd
      let volumePaths ← splitZipVolumePaths destination volumeCount
      let existing ← existingSplitZipVolumePaths order files destination
      (ensureSplitDestinationsAvailable files destination volumePaths existing
        replaceExisting).mapError fun (path, source) => .io (PathBuf.toText path) source
      let (central, eocdBytes) ← splitZipRecords archive volumeSize layout eocd
      return (volumePaths, existing, central, eocdBytes)
    match prepared with
    | .error failure => (.error failure, files)
    | .ok (volumePaths, existing, central, eocdBytes) =>
      andThen (writeZipVolumes names archivePath archive eocd.centralDirectoryOffset central
        eocdBytes volumePaths volumeSize destination existing replaceExisting files)
        fun _ files => (.ok volumeCount, files)

/-- Splits the archive at `archivePath` into the volumes of `destination`. -/
def splitZipTempArchive (order : ReadOrder) (names : TempNames) (files : Files)
    (archivePath destination : PathBuf) (volumeSize : Nat) (replaceExisting : Bool) :
    Except ZipBackendError Nat × Files :=
  let opened : Except ZipBackendError (List UInt8 × ZipEndOfCentralDirectory) := do
    let archive ← readZipArchive files archivePath
    let eocd ← readZipEocd archive
    return (archive, eocd)
  match opened with
  | .error failure => (.error failure, files)
  | .ok (archive, eocd) =>
    if archive.length ≤ volumeSize then
      let prepared : Except ZipBackendError (List PathBuf) := do
        let existing ← existingSplitZipVolumePaths order files destination
        (ensureSplitDestinationsAvailable files destination [destination] existing
          replaceExisting).mapError fun (path, source) => .io (PathBuf.toText path) source
        return existing
      match prepared with
      | .error failure => (.error failure, files)
      | .ok existing =>
        andThen (writeSingleZipVolume names archive destination existing replaceExisting files)
          fun _ files => (.ok 1, files)
    else
      splitZipVolumes order names files archivePath destination archive eocd volumeSize
        replaceExisting

end ZManager
