import ZManager.Disk.Vdi

/-! # Compressed ISO images

An ISZ image cuts an optical image into blocks and stores each of them as zeros, verbatim or
compressed. A table has a type and a stored length for each chunk, which lie back to back; the last
chunk that was decoded is kept for the next read.
-/

namespace ZManager.Disk

/-! ## The header and the table -/

def iszMagic : List UInt8 := [0x49, 0x73, 0x5a, 0x21]

/-- One chunk pointer; the kinds are zeros, verbatim, zlib and bzip2. -/
structure IszChunk where
  kind : Nat
  storedLength : Nat

/-- The fields of an ISZ header. -/
structure IszHeader where
  headerSize : Nat
  version : Nat
  sectorSize : Nat
  totalSectors : Nat
  encryptionType : Nat
  segmentSize : Nat
  numBlocks : Nat
  blockSize : Nat
  ptrLen : Nat
  segmentCount : Nat
  ptrOffset : Nat
  segmentTableOffset : Nat
  dataOffset : Nat

def readU8 (bytes : List UInt8) (offset : Nat) : Nat := (bytes.getD offset 0).toNat

/-- The fields, which are not aligned. -/
def IszHeader.fields (buf : List UInt8) : IszHeader where
  headerSize := readU8 buf 4
  version := readU8 buf 5
  sectorSize := Bytes.readU16 buf 10
  totalSectors := Bytes.readU32 buf 12
  encryptionType := readU8 buf 16
  segmentSize := Bytes.readU64 buf 17
  numBlocks := Bytes.readU32 buf 25
  blockSize := Bytes.readU32 buf 29
  ptrLen := readU8 buf 33
  segmentCount := readU8 buf 34
  ptrOffset := Bytes.readU32 buf 35
  segmentTableOffset := Bytes.readU32 buf 39
  dataOffset := Bytes.readU32 buf 43

/-- The header at the start of a file. -/
def IszHeader.read (buf : List UInt8) : Except String IszHeader :=
  if buf.length < 48 ∨ buf.take 4 ≠ iszMagic then .error "not an ISZ image"
  else
    let header := fields buf
    if header.encryptionType ≠ 0 then
      .error ("ISZ image is encrypted (encryption type " ++ toString header.encryptionType ++
        "); decrypt it with UltraISO first")
    else if 1 < header.segmentCount then
      .error ("ISZ image is split across " ++ toString header.segmentCount ++
        " segments (.i01, .i02, …), which this reader does not join")
    else if header.blockSize = 0 then .error "ISZ declares a zero chunk size"
    else if header.sectorSize = 0 then .error "ISZ declares a zero sector size"
    else if ¬ (1 ≤ header.ptrLen ∧ header.ptrLen ≤ 4) then
      .error ("ISZ declares " ++ toString header.ptrLen ++
        " bytes per chunk pointer, outside the 1..=4 range")
    else if header.numBlocks = 0 then .error "ISZ declares no chunks"
    else .ok header

/-- A pointer's bytes, the lowest one first. -/
def pointerValue (raw : List UInt8) : Nat :=
  raw.foldr (fun byte rest => byte.toNat + 256 * rest) 0

/-- How many bits of a pointer are the stored length. -/
def IszHeader.typeShift (header : IszHeader) : Nat := header.ptrLen * 8 - 2

def IszHeader.decodeChunkTable (header : IszHeader) (table : List UInt8) :
    Except String (List IszChunk) :=
  let expected := header.numBlocks * header.ptrLen
  if table.length < expected then
    .error ("ISZ chunk table is " ++ toString table.length ++ " bytes, shorter than the " ++
      toString expected ++ " bytes its header declares")
  else
    .ok ((List.range header.numBlocks).map fun index =>
      let value := pointerValue (Bytes.piece header.ptrLen (table.take expected) index)
      ⟨value / 2 ^ header.typeShift, value % 2 ^ header.typeShift⟩)

/-! ## The source -/

/-- The decoders; a failure is one of reading. -/
structure IszCodecs where
  zlib : List UInt8 → Except String (List UInt8)
  bzip2 : List UInt8 → Except String (List UInt8)

/-- Failures of a read from an ISZ image. -/
inductive IszReadError where
  | file (source : VfsError)
  | outOfRange
  | decoder (message : String)
  | unknownKind (kind : Nat)

/-- Failures when an ISZ image is opened. -/
inductive IszOpenError where
  | io (source : VfsError)
  | notDiskImage (message : String)

/-- An opened ISZ image. -/
structure IszSource where
  file : BackingFile
  totalSize : Nat
  blockSize : Nat
  chunks : List (IszChunk × Nat)

/-- Each chunk with the place behind the ones before it; the sum saturates. -/
def placeChunks : Nat → List IszChunk → List (IszChunk × Nat)
  | _, [] => []
  | cursor, chunk :: rest =>
    (chunk, cursor) :: placeChunks (min (cursor + chunk.storedLength) (2 ^ 64 - 1)) rest

/-- The part of `open_optical_source` that builds the source of an ISZ image. -/
def openIszSource (file : BackingFile) : Except IszOpenError IszSource := do
  let hdrBuf ← (file.readExactAt 0 48).mapError IszOpenError.io
  let header ← (IszHeader.read hdrBuf).mapError IszOpenError.notDiskImage
  let table ← (file.readExactAt header.ptrOffset (header.numBlocks * header.ptrLen)).mapError
    IszOpenError.io
  let descriptors ← (header.decodeChunkTable table).mapError IszOpenError.notDiskImage
  pure
    { file := file
      totalSize := min (header.totalSectors * header.sectorSize) (2 ^ 64 - 1)
      blockSize := header.blockSize
      chunks := placeChunks header.dataOffset descriptors }

section

variable (codecs : IszCodecs)

/-- The bytes of a chunk, by its kind. -/
def IszSource.decodeChunk (source : IszSource) (blockIdx : Nat) :
    Except IszReadError (List UInt8) :=
  match source.chunks[blockIdx]? with
  | none => .error .outOfRange
  | some (chunk, offset) =>
    if chunk.kind = 0 then .ok (List.replicate source.blockSize 0)
    else do
      let stored ← (source.file.readExactAt offset chunk.storedLength).mapError IszReadError.file
      if chunk.kind = 1 then .ok stored
      else if chunk.kind = 2 then (codecs.zlib stored).mapError IszReadError.decoder
      else if chunk.kind = 3 then (codecs.bzip2 stored).mapError IszReadError.decoder
      else .error (.unknownKind chunk.kind)

/-- The block that was decoded last. -/
abbrev IszCache := Option (Nat × List UInt8)

/-- The bytes of a block, from the cache or decoded into it. -/
def IszSource.cachedChunk (source : IszSource) (cache : IszCache) (blockIdx : Nat) :
    Except IszReadError (List UInt8) × IszCache :=
  match cache with
  | some (cachedIdx, data) =>
    if cachedIdx = blockIdx then (.ok data, cache) else decodeInto
  | none => decodeInto
where
  decodeInto : Except IszReadError (List UInt8) × IszCache :=
    match source.decodeChunk codecs blockIdx with
    | .error failure => (.error failure, cache)
    | .ok decoded => (.ok decoded, some (blockIdx, decoded))

/-- One turn of the loop: the part of one block, or zeros behind the end of a short one. -/
def IszSource.readPiece (source : IszSource) (cache : IszCache) (cursor room : Nat) :
    Except IszReadError (List UInt8) × IszCache :=
  let inBlockOffset := cursor % source.blockSize
  let bytesAvail := min (min (source.blockSize - inBlockOffset) room) (source.totalSize - cursor)
  match source.cachedChunk codecs cache (cursor / source.blockSize) with
  | (.error failure, next) => (.error failure, next)
  | (.ok blockBytes, next) =>
    if inBlockOffset < blockBytes.length then
      (.ok ((blockBytes.drop inBlockOffset).take
        (min bytesAvail (blockBytes.length - inBlockOffset))), next)
    else (.ok (List.replicate bytesAvail 0), next)

/-- `read_at` with a buffer of a length: the bytes that it fills, and the cache behind it. -/
def IszSource.readAt (source : IszSource) (cache : IszCache) (offset room : Nat) :
    Option (Except IszReadError (List UInt8) × IszCache) :=
  if source.totalSize ≤ offset ∨ room = 0 then some (.ok [], cache)
  else readPieces (source.readPiece codecs) source.totalSize (room + 1) cache offset room

/-- Reads one after the other, each with its offset and the length of its buffer. -/
def IszSource.readMany (source : IszSource) :
    IszCache → List (Nat × Nat) → Option (List (Except IszReadError (List UInt8)))
  | _, [] => some []
  | cache, (offset, room) :: rest => do
      let (result, next) ← source.readAt codecs cache offset room
      let results ← readMany source next rest
      pure (result :: results)

end

end ZManager.Disk
