import ZManager.Foundation.ByteReader
import ZManager.Foundation.Step
import ZManager.Safety.Policy

/-! # Decoding routes

A compressed file is decoded as a raw stream, as the input of a compressed TAR adapter,
or as a payload of a DEB package. Each route picks the decoder of its own; the decoders
come from other packages and are parameters here.
-/

namespace ZManager

/-! ## Decoders -/

/-- Raw single-file stream formats. -/
inductive RawStreamFormat where
  | zstd | gzip | bzip2 | xz | lzma | lzip | brotli | lz4 | lzo | unixCompress | uu

/-- The decoder types that the routes construct. -/
inductive DecoderKind where
  | zstdDecoder
  | gzDecoder
  | multiGzDecoder
  | bzDecoder
  | xzReader (allowMultipleStreams : Bool)
  | lzmaReader
  | lzipReader
  | brotliDecompressor
  | lz4FrameDecoder
  | lzopReader
  | unixCompressReader
  | uuDecoder

/-- What a decoder makes of the bytes of a file: construction may fail, and so may every
read. -/
abbrev Decoders := DecoderKind → List UInt8 → Except IoError (ByteReader IoError)

/-- What stops a route. -/
inductive DecodeError where
  | io (source : IoError)
  | unsupportedOperation (message : String)
  | cancelled

/-- Opens the decoder of a kind. -/
def openDecoder (decoders : Decoders) (kind : DecoderKind) (file : List UInt8) :
    Except DecodeError (ByteReader IoError) :=
  (decoders kind file).mapError .io

/-- `open_decoder_from_reader`. -/
def openDecoderFromReader (decoders : Decoders) (file : List UInt8) :
    RawStreamFormat → Except DecodeError (ByteReader IoError)
  | .zstd => openDecoder decoders .zstdDecoder file
  | .gzip => openDecoder decoders .multiGzDecoder file
  | .bzip2 => openDecoder decoders .bzDecoder file
  | .xz => openDecoder decoders (.xzReader true) file
  | .lzma => openDecoder decoders .lzmaReader file
  | .lzip => openDecoder decoders .lzipReader file
  | .brotli => openDecoder decoders .brotliDecompressor file
  | .lz4 => openDecoder decoders .lz4FrameDecoder file
  | .lzo => openDecoder decoders .lzopReader file
  | .unixCompress => openDecoder decoders .unixCompressReader file
  | .uu => openDecoder decoders .uuDecoder file

def defaultIoBufferBytes : Nat := 128 * 1024

/-! ## Raw streams -/

/-- The writer that stops a raw stream at its limit, over a file that takes every byte. -/
structure SizeLimitWriter where
  inner : List UInt8 := []
  maxBytes : Option UInt64
  writtenBytes : Nat := 0

namespace SizeLimitWriter

def expandedSizeLimitError (maxBytes : UInt64) (writtenBytes : Nat) : IoError :=
  ⟨.other, "expanded stream reached " ++ toString writtenBytes ++ " bytes, exceeding the " ++
    toString maxBytes ++ " byte limit"⟩

def write (writer : SizeLimitWriter) (buffer : List UInt8) :
    Except IoError (Nat × SizeLimitWriter) :=
  match writer.maxBytes with
  | none => .ok (buffer.length, { writer with inner := writer.inner ++ buffer })
  | some maxBytes =>
    if maxBytes.toNat ≤ writer.writtenBytes then
      .error (expandedSizeLimitError maxBytes writer.writtenBytes)
    else
      let allowed := min (maxBytes.toNat - writer.writtenBytes) buffer.length
      .ok (allowed, { writer with
        inner := writer.inner ++ buffer.take allowed
        writtenBytes := writer.writtenBytes + allowed })

/-- `Write::write_all`. -/
def writeAll (writer : SizeLimitWriter) (buffer : List UInt8) : Except IoError SizeLimitWriter :=
  if buffer = [] then .ok writer
  else
    match writer.write buffer with
    | .error failure => .error failure
    | .ok (0, _) => .error ⟨.other, "failed to write whole buffer"⟩
    | .ok (count + 1, next) => writeAll next (buffer.drop (count + 1))
  termination_by buffer.length
  decreasing_by
    rename_i unfinished
    have some := List.length_pos_iff.mpr unfinished
    rw [List.length_drop]
    omega

end SizeLimitWriter

/-- `copy_bytes_with_progress`: the bytes of a reader, until a read hands out none. -/
def copyBytes (reader : ByteReader IoError) (output : SizeLimitWriter) :
    Except IoError SizeLimitWriter :=
  match _read : reader.read defaultIoBufferBytes with
  | .error failure => .error failure
  | .ok ([], _) => .ok output
  | .ok (byte :: more, next) =>
    match output.writeAll (byte :: more) with
    | .error failure => .error failure
    | .ok output => copyBytes next output
  termination_by reader.remaining.length
  decreasing_by exact ByteReader.length_read_lt _read

/-- `copy_raw_stream_to_writer` into a writer with a limit. -/
def copyRawStreamToWriter (decoders : Decoders) (file : List UInt8) (format : RawStreamFormat)
    (maxBytes : Option UInt64) : Except DecodeError (List UInt8) := do
  let reader ← openDecoderFromReader decoders file format
  let output ← (copyBytes reader { maxBytes := maxBytes }).mapError .io
  return output.inner

/-! ## TAR inputs -/

/-- The reader that keeps a decoder within the limit of decoded bytes. No route gives it
a cancellation token. -/
structure BoundedDecoder where
  inner : ByteReader IoError
  remaining : Option UInt64

def decodedSizeLimitExceeded : IoError :=
  ⟨.other, "decoded archive exceeds the configured temporary-intermediate byte limit"⟩

/-- A read that counts against the limit. -/
def BoundedDecoder.read (size : Nat) (decoder : BoundedDecoder) :
    Except IoError (List UInt8 × BoundedDecoder) :=
  if size = 0 then .ok ([], decoder)
  else
    match decoder.remaining with
    | none => (decoder.inner.read size).map fun (chunk, inner) => (chunk, ⟨inner, none⟩)
    | some remaining =>
      if remaining = 0 then
        match decoder.inner.read 1 with
        | .error failure => .error failure
        | .ok ([], inner) => .ok ([], ⟨inner, some remaining⟩)
        | .ok (_ :: _, _) => .error decodedSizeLimitExceeded
      else
        (decoder.inner.read (min remaining.toNat size)).map fun (chunk, inner) =>
          (chunk, ⟨inner, some (remaining - UInt64.ofNat chunk.length)⟩)

/-- What a read of a bounded decoder hands out comes from the decoder. -/
theorem BoundedDecoder.read_eq_ok {size : Nat} {decoder next : BoundedDecoder}
    {chunk : List UInt8} (done : decoder.read size = .ok (chunk, next)) :
    decoder.inner.remaining = chunk ++ next.inner.remaining ∧
      next.inner.failure = decoder.inner.failure := by
  unfold BoundedDecoder.read at done
  split_ifs at done with none
  · cases done
    exact ⟨rfl, rfl⟩
  · cases limit : decoder.remaining with
    | none =>
      rw [limit] at done
      obtain ⟨⟨chunk', inner⟩, read, same⟩ := Except.map_eq_ok_iff.mp done
      cases same
      exact ByteReader.read_eq_ok read
    | some remaining =>
      rw [limit] at done
      simp only at done
      split_ifs at done
      · split at done
        · cases done
        · rename_i inner read
          cases done
          exact ByteReader.read_eq_ok read
        · cases done
      · obtain ⟨⟨chunk', inner⟩, read, same⟩ := Except.map_eq_ok_iff.mp done
        cases same
        exact ByteReader.read_eq_ok read

theorem BoundedDecoder.length_read_lt {size : Nat} {decoder next : BoundedDecoder} {byte : UInt8}
    {more : List UInt8} (done : decoder.read size = .ok (byte :: more, next)) :
    next.inner.remaining.length < decoder.inner.remaining.length := by
  rw [(read_eq_ok done).1, List.length_append, List.length_cons]
  omega

/-- The loop of `Decoded::open_validated`: the bytes that are spooled, and how often it
was asked whether the operation is cancelled. `isCancelled` answers the questions in their
order. -/
def spool (isCancelled : Nat → Bool) (asked : Nat) (decoder : BoundedDecoder)
    (spooled : List UInt8) : Except DecodeError (List UInt8 × Nat) :=
  if isCancelled asked then .error .cancelled
  else
    match _read : decoder.read defaultIoBufferBytes with
    | .error failure => .error (.io failure)
    | .ok ([], _) => .ok (spooled, asked + 1)
    | .ok (byte :: more, next) =>
      spool isCancelled (asked + 1) next (spooled ++ byte :: more)
  termination_by decoder.inner.remaining.length
  decreasing_by exact BoundedDecoder.length_read_lt _read

/-! ## The structure of a TAR archive -/

/-- What the walk over an archive does: it reads some bytes at a position, or yields an
entry. -/
inductive WalkStep where
  | read (offset size : Nat)
  | entry (result : Except IoError Unit)

/-- The walk of `tar::Archive` over a seekable archive, with zero records ignored. It is
code of another package. -/
abbrev TarWalk := List UInt8 → Except IoError (List WalkStep)

def tarBlockBytes : Nat := 512

/-- The reader between the walk and the archive, which counts the zero-filled records at
the end of what was read last. -/
structure TarStructureObserver where
  lastObservedEnd : Option Nat := none
  zeroRunStart : Option Nat := none
  zeroRunBytes : Nat := 0
  consecutiveZeroRecords : Nat := 0

namespace TarStructureObserver

/-- The loop over the bytes that were read from an offset on. -/
def countZeros : TarStructureObserver → Nat → List UInt8 → TarStructureObserver
  | observer, _, [] => observer
  | observer, offset, byte :: rest =>
    if byte = 0 then
      countZeros { observer with
        zeroRunStart := some (observer.zeroRunStart.getD offset)
        zeroRunBytes := observer.zeroRunBytes + 1 } (offset + 1) rest
    else countZeros { observer with zeroRunStart := none, zeroRunBytes := 0 } (offset + 1) rest

def read (observer : TarStructureObserver) (offset : Nat) (output : List UInt8) :
    TarStructureObserver :=
  let observer :=
    if observer.lastObservedEnd ≠ some offset then
      { observer with zeroRunStart := none, zeroRunBytes := 0 }
    else observer
  let observer := observer.countZeros offset output
  { observer with
    lastObservedEnd := some (offset + output.length)
    consecutiveZeroRecords := observer.zeroRunStart.elim 0 fun start =>
      let firstFullBlock := (start + (tarBlockBytes - 1)) / tarBlockBytes * tarBlockBytes
      (start + observer.zeroRunBytes - firstFullBlock) / tarBlockBytes }

end TarStructureObserver

/-- The walk over the spooled archive, watched by the observer. -/
def observeWalk (isCancelled : Nat → Bool) (file : List UInt8) :
    Nat → TarStructureObserver → List WalkStep → Except DecodeError TarStructureObserver
  | _, observer, [] => .ok observer
  | asked, observer, .read offset size :: steps =>
    observeWalk isCancelled file asked (observer.read offset ((file.drop offset).take size)) steps
  | asked, observer, .entry result :: steps =>
    if isCancelled asked then .error .cancelled
    else
      match result with
      | .error failure => .error (.io failure)
      | .ok () => observeWalk isCancelled file (asked + 1) observer steps

/-- Rejects an archive that does not end in its two zero-filled records. -/
def validateTarStructure (walk : TarWalk) (isCancelled : Nat → Bool) (asked : Nat)
    (file : List UInt8) : Except DecodeError Unit := do
  let steps ← (walk file).mapError .io
  let observer ← observeWalk isCancelled file asked {} steps
  if observer.consecutiveZeroRecords < 2 then
    throw (.io ⟨.unexpectedEof, "TAR archive is missing its two zero-filled end records"⟩)

/-- `Decoded::open_validated`: the bytes that the TAR reader will see. -/
def openValidated (walk : TarWalk) (isCancelled : Nat → Bool) (decoder : BoundedDecoder) :
    Except DecodeError (List UInt8) := do
  let (spooled, asked) ← spool isCancelled 0 decoder []
  validateTarStructure walk isCancelled asked spooled
  return spooled

/-! ## TAR adapters -/

/-- The formats of compressed TAR archives. -/
inductive TarFormat where
  | tarGz | tarZst | tarBz2 | tarXz | tarLzma | tarLz | tarLzo | tarCompress | tarLz4 | tarUu

/-- The reader that the adapter of a format opens: `TarGzListAdapter` and
`TarZstListAdapter` have their own, the others are `FilteredTarAdapter`s with the decoder
that they are registered with. -/
def openTarReader (decoders : Decoders) (file : List UInt8) :
    TarFormat → Except DecodeError (ByteReader IoError)
  | .tarGz => openDecoder decoders .gzDecoder file
  | .tarZst => openDecoder decoders .zstdDecoder file
  | .tarBz2 => openDecoderFromReader decoders file .bzip2
  | .tarXz => openDecoderFromReader decoders file .xz
  | .tarLzma => openDecoderFromReader decoders file .lzma
  | .tarLz => openDecoderFromReader decoders file .lzip
  | .tarLzo => openDecoderFromReader decoders file .lzo
  | .tarCompress => openDecoderFromReader decoders file .unixCompress
  | .tarLz4 => openDecoderFromReader decoders file .lz4
  | .tarUu => openDecoderFromReader decoders file .uu

def unsupportedPayload (format : String) : DecodeError :=
  .unsupportedOperation ("unsupported native DEB payload format: " ++ format)

/-- The reader that `extract_payload_archive` opens for a compressed payload. -/
def openPayloadReader (decoders : Decoders) (file : List UInt8) :
    TarFormat → Except DecodeError (ByteReader IoError)
  | .tarGz => openDecoder decoders .gzDecoder file
  | .tarZst => openDecoder decoders .zstdDecoder file
  | .tarBz2 => openDecoderFromReader decoders file .bzip2
  | .tarXz => openDecoderFromReader decoders file .xz
  | .tarLzma => openDecoderFromReader decoders file .lzma
  | .tarLz => .error (unsupportedPayload "TarLz")
  | .tarLzo => .error (unsupportedPayload "TarLzo")
  | .tarCompress => .error (unsupportedPayload "TarCompress")
  | .tarLz4 => .error (unsupportedPayload "TarLz4")
  | .tarUu => .error (unsupportedPayload "TarUu")

/-! ## Routes -/

/-- Where a compressed file is opened. -/
inductive DecodingRoute where
  | rawStream
  | tarAdapter
  | debPayload
  deriving DecidableEq

/-- The compressions that every compressor may write in several members. -/
inductive Compression where
  | gzip | bzip2 | xz | lzip | zstd
  deriving DecidableEq

def Compression.rawStreamFormat : Compression → RawStreamFormat
  | gzip => .gzip
  | bzip2 => .bzip2
  | xz => .xz
  | lzip => .lzip
  | zstd => .zstd

def Compression.tarFormat : Compression → TarFormat
  | gzip => .tarGz
  | bzip2 => .tarBz2
  | xz => .tarXz
  | lzip => .tarLz
  | zstd => .tarZst

/-- The limits of an operation, and when it is cancelled. -/
structure ReadConfig where
  maxExpandedBytes : Option UInt64 := none
  maxDecodedBytes : Option UInt64 := none
  isCancelled : Nat → Bool := fun _ => false

/-- The bytes that a route hands on when it succeeds: what a raw stream writes, or what
the TAR reader sees. -/
def deliver (decoders : Decoders) (walk : TarWalk) (compression : Compression)
    (config : ReadConfig) (file : List UInt8) : DecodingRoute → Except DecodeError (List UInt8)
  | .rawStream =>
    copyRawStreamToWriter decoders file compression.rawStreamFormat config.maxExpandedBytes
  | .tarAdapter => do
      let reader ← openTarReader decoders file compression.tarFormat
      openValidated walk config.isCancelled ⟨reader, config.maxDecodedBytes⟩
  | .debPayload => do
      let reader ← openPayloadReader decoders file compression.tarFormat
      openValidated walk config.isCancelled ⟨reader, config.maxDecodedBytes⟩

end ZManager
