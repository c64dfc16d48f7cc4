import ZManager.Decode.Lzop

/-! # Lzop streams written and read back

A writer of lzop streams, and what the decoder makes of its parts: the payloads of the
blocks, or an error where a checksummed block has been changed.
-/

namespace ZManager

open Lzop

/-! ## Big-endian fields -/

namespace Lzop

/-- A number as so many big-endian bytes. -/
def toBe : Nat → Nat → List UInt8
  | 0, _ => []
  | width + 1, number => toBe width (number / 256) ++ [UInt8.ofNat number]

@[simp] theorem length_toBe (width number : Nat) : (toBe width number).length = width := by
  induction width generalizing number with
  | zero => rfl
  | succ width ih => rw [toBe, List.length_append, ih, List.length_singleton]

theorem fromBe_append_singleton (bytes : List UInt8) (byte : UInt8) :
    fromBe (bytes ++ [byte]) = fromBe bytes * 256 + byte.toNat := by
  unfold fromBe
  rw [List.foldl_append, List.foldl_cons, List.foldl_nil]

theorem fromBe_toBe {width number : Nat} (fits : number < 256 ^ width) :
    fromBe (toBe width number) = number := by
  induction width generalizing number with
  | zero =>
    rw [Nat.pow_zero, Nat.lt_one_iff] at fits
    subst fits
    rfl
  | succ width ih =>
    rw [Nat.pow_succ] at fits
    rw [toBe, fromBe_append_singleton, ih (Nat.div_lt_of_lt_mul (Nat.mul_comm _ _ ▸ fits)),
      UInt8.toNat_ofNat']
    exact Nat.div_add_mod' number 256

theorem hasFlag_or {flags one two : Nat} :
    hasFlag flags (one ||| two) ↔ hasFlag flags one ∨ hasFlag flags two := by
  unfold hasFlag
  rw [Nat.and_or_distrib_left, Ne, Nat.or_eq_zero_iff]
  tauto

end Lzop

/-! ## The writer -/

/-- What a codec for blocks promises: decompression inverts compression, and a checksum is
a number of 32 bits. -/
structure LzopCodec (host : LzopHost) where
  compress : List UInt8 → List UInt8
  inverts : ∀ payload, host.decompress (compress payload) payload.length = .ok payload
  crc32_lt : ∀ data, host.crc32 data < 2 ^ 32
  adler32_lt : ∀ data, host.adler32 data < 2 ^ 32

/-- A part of a stream: the fields of its header, and the payloads of its blocks. -/
structure LzopPart where
  version : UInt16
  library : UInt16
  required : UInt16
  method : UInt8
  level : UInt8
  flags : UInt32
  filter : UInt32
  mode : UInt32
  mtimeLow : UInt32
  mtimeHigh : UInt32
  name : List UInt8
  extra : List UInt8
  blocks : List (List UInt8)
  required_supported : 0x0900 ≤ required.toNat
  method_supported : 1 ≤ method.toNat ∧ method.toNat ≤ 3
  level_valid : level.toNat ≤ 9
  one_uncompressed : ¬(hasFlag flags.toNat flagAdler32Uncompressed ∧
    hasFlag flags.toNat flagCrc32Uncompressed)
  one_compressed : ¬(hasFlag flags.toNat flagAdler32Compressed ∧
    hasFlag flags.toNat flagCrc32Compressed)
  name_length : name.length ≤ 255
  extra_length : extra.length < 2 ^ 32
  blocks_sized : ∀ payload ∈ blocks, 1 ≤ payload.length ∧ payload.length ≤ maxBlockSize

namespace LzopPart

/-- The layout with a required version, a level and a long time. -/
def IsNew (part : LzopPart) : Prop := 0x0940 ≤ part.version.toNat

instance (part : LzopPart) : Decidable part.IsNew := inferInstanceAs (Decidable (_ ≤ _))

/-- The header from behind the magic up to the name. -/
def header (part : LzopPart) : List UInt8 :=
  toBe 2 part.version.toNat ++ toBe 2 part.library.toNat ++
    (if part.IsNew then toBe 2 part.required.toNat else []) ++ toBe 1 part.method.toNat ++
    (if part.IsNew then toBe 1 part.level.toNat else []) ++ toBe 4 part.flags.toNat ++
    (if hasFlag part.flags.toNat flagFilter then toBe 4 part.filter.toNat else []) ++
    toBe 4 part.mode.toNat ++
    (toBe 4 part.mtimeLow.toNat ++ if part.IsNew then toBe 4 part.mtimeHigh.toNat else []) ++
    toBe 1 part.name.length ++ part.name

section

variable (host : LzopHost)

/-- Everything behind the magic and before the blocks. -/
def opening (part : LzopPart) : List UInt8 :=
  part.header ++
    toBe 4 (if hasFlag part.flags.toNat flagCrc32Header then host.crc32 part.header
      else host.adler32 part.header) ++
    if hasFlag part.flags.toNat flagExtraField then
      toBe 4 part.extra.length ++ part.extra
    else []

end

end LzopPart

namespace LzopCodec

variable {host : LzopHost} (codec : LzopCodec host)

/-- A payload is stored raw when compression does not shrink it. -/
def stored (payload : List UInt8) : List UInt8 :=
  if (codec.compress payload).length < payload.length then codec.compress payload else payload

/-- A checksum of each kind that the flags ask for. -/
def checksums (host : LzopHost) (flags adler32 crc32 : Nat) (data : List UInt8) : List UInt8 :=
  (if hasFlag flags adler32 then toBe 4 (host.adler32 data) else []) ++
    if hasFlag flags crc32 then toBe 4 (host.crc32 data) else []

def uncompressedChecksums (host : LzopHost) (flags : Nat) (payload : List UInt8) : List UInt8 :=
  checksums host flags flagAdler32Uncompressed flagCrc32Uncompressed payload

/-- The checksum of the compressed side is there for blocks that have shrunk. -/
def compressedChecksums (flags : Nat) (payload : List UInt8) : List UInt8 :=
  if (codec.stored payload).length < payload.length then
    checksums host flags flagAdler32Compressed flagCrc32Compressed (codec.stored payload)
  else []

/-- What stands before the data of a block. -/
def blockHead (flags : Nat) (payload : List UInt8) : List UInt8 :=
  toBe 4 payload.length ++ toBe 4 (codec.stored payload).length ++
    uncompressedChecksums host flags payload ++ codec.compressedChecksums flags payload

def block (flags : Nat) (payload : List UInt8) : List UInt8 :=
  codec.blockHead flags payload ++ codec.stored payload

def blocks (flags : Nat) (payloads : List (List UInt8)) : List UInt8 :=
  payloads.flatMap (codec.block flags)

/-- A block of no bytes. -/
def terminator : List UInt8 := toBe 4 0

def part (part : LzopPart) : List UInt8 :=
  headerMagic ++ part.opening host ++ codec.blocks part.flags.toNat part.blocks ++ terminator

/-- The parts one behind the other. -/
def stream (parts : List LzopPart) : List UInt8 := parts.flatMap codec.part

end LzopCodec

/-! ## Computations that take written bytes -/

namespace Lzop

/-- The reader before a slice of bytes. -/
def feed (reader : LzopReader) (bytes : List UInt8) : LzopReader :=
  { reader with inner := bytes.map .byte }

/-- A computation that takes these bytes whatever stands behind them, and comes to a value. -/
def Consumes {α : Type} (computation : LzopM α) (bytes : List UInt8) (value : α) : Prop :=
  ∀ reader rest, computation.exec (feed reader (bytes ++ rest)) = (.ok value, feed reader rest)

theorem take_map_byte (bytes : List UInt8) (rest : List InnerRead) :
    take bytes.length (bytes.map .byte ++ rest) = (.full bytes, rest) := by
  induction bytes with
  | nil =>
    change take 0 rest = _
    unfold take
    rfl
  | cons byte bytes ih =>
    rw [List.map_cons, List.cons_append, List.length_cons, take, ih]

/-- A buffer is filled from the bytes that stand ahead. -/
theorem exec_fill {α : Type} {answer : Taken → Except IoError α} (bytes : List UInt8)
    (reader : LzopReader) (rest : List UInt8) :
    (fill bytes.length answer).exec (feed reader (bytes ++ rest)) =
      (answer (.full bytes), feed reader rest) := by
  have filled := take_map_byte bytes (rest.map .byte)
  rw [← List.map_append] at filled
  unfold fill StepM.exec feed
  change (answer (take bytes.length ((bytes ++ rest).map .byte)).1,
    { reader with inner := (take bytes.length ((bytes ++ rest).map .byte)).2 }) = _
  rw [filled]

namespace Consumes

variable {α β : Type} {computation : LzopM α} {next : α → LzopM β} {value : α} {result : β}
  {bytes more : List UInt8}

theorem pure (value : α) : Consumes (Pure.pure value : LzopM α) [] value := fun _ _ => rfl

theorem bind (first : Consumes computation bytes value)
    (second : Consumes (next value) more result) :
    Consumes (computation >>= next) (bytes ++ more) result := by
  intro reader rest
  rw [List.append_assoc]
  exact StepM.exec_bind_eq_ok.mpr ⟨value, feed reader (more ++ rest), first reader _,
    second reader rest⟩

theorem ensure_bind {condition : Prop} [Decidable condition] {message : String}
    {next : Unit → LzopM β} (holds : condition) (second : Consumes (next ()) bytes result) :
    Consumes (Lzop.ensure condition message >>= next) bytes result := by
  have checked : Consumes (Lzop.ensure condition message) [] () := by
    unfold Lzop.ensure
    rw [if_pos holds]
    exact pure ()
  exact checked.bind second

theorem readExactOrEof (bytes : List UInt8) :
    Consumes (Lzop.readExactOrEof bytes.length) bytes bytes := by
  intro reader rest
  exact exec_fill bytes reader rest

/-- Reads a field of a known width. -/
theorem readField {width : Nat} (bytes : List UInt8) (wide : bytes.length = width) :
    Consumes (Lzop.readExactOrEof width) bytes bytes := by
  subst wide
  exact readExactOrEof bytes

theorem readOptional {condition : Prop} [Decidable condition] {width : Nat}
    (bytes : List UInt8) (wide : bytes.length = width) :
    Consumes (Lzop.readOptional condition width) (if condition then bytes else [])
      (if condition then bytes else []) := by
  unfold Lzop.readOptional
  by_cases present : condition
  · rw [if_pos present, if_pos present]
    exact readField bytes wide
  · rw [if_neg present, if_neg present]
    exact pure []

theorem exec_bind (first : Consumes computation bytes value) (reader : LzopReader)
    (rest : List UInt8) :
    (computation >>= next).exec (feed reader (bytes ++ rest)) =
      (next value).exec (feed reader rest) := by
  rw [StepM.exec_bind, first reader rest]

end Consumes

end Lzop

namespace LzopPart

theorem length_mtime (part : LzopPart) :
    (toBe 4 part.mtimeLow.toNat ++
      if part.IsNew then toBe 4 part.mtimeHigh.toNat else []).length =
      if 0x0940 ≤ part.version.toNat then 8 else 4 := by
  rw [List.length_append, length_toBe]
  by_cases new : 0x0940 ≤ part.version.toNat
  · rw [if_pos (show part.IsNew from new), if_pos new, length_toBe]
  · rw [if_neg (show ¬part.IsNew from new), if_neg new, List.length_nil]

/-- The fields behind the checksum. -/
theorem consumes_extra {part : LzopPart} {flags : Nat} (same : flags = part.flags.toNat) :
    Consumes (do
      let extraLength ← Lzop.readOptional (hasFlag flags flagExtraField) 4
      let _ ← Lzop.readExactOrEof (fromBe extraLength)
      return flags)
      (if hasFlag part.flags.toNat flagExtraField then toBe 4 part.extra.length ++ part.extra
        else []) part.flags.toNat := by
  subst same
  by_cases present : hasFlag part.flags.toNat flagExtraField
  · have length : fromBe (toBe 4 part.extra.length) = part.extra.length :=
      fromBe_toBe part.extra_length
    have first := @Consumes.readOptional (hasFlag part.flags.toNat flagExtraField) _ _
      (toBe 4 part.extra.length) (length_toBe 4 _)
    rw [if_pos present] at first ⊢
    refine first.bind ?_
    rw [length, ← List.append_nil part.extra]
    refine .bind (.readField _ ?_) (.pure _)
    rw [List.append_nil]
  · have first := @Consumes.readOptional (hasFlag part.flags.toNat flagExtraField) _ _
      (toBe 4 part.extra.length) (length_toBe 4 _)
    rw [if_neg present] at first ⊢
    exact first.bind ((Consumes.readField [] rfl).bind (.pure _))

/-- **A header is read back**, with the flags that govern the blocks behind it. -/
theorem consumes_opening {host : LzopHost} (codec : LzopCodec host) (part : LzopPart) :
    Consumes (parseHeaderAfterMagic host) (part.opening host) part.flags.toNat := by
  have version : fromBe (toBe 2 part.version.toNat) = part.version.toNat :=
    fromBe_toBe part.version.toNat_lt
  have required : fromBe (toBe 2 part.required.toNat) = part.required.toNat :=
    fromBe_toBe part.required.toNat_lt
  have method : fromBe (toBe 1 part.method.toNat) = part.method.toNat :=
    fromBe_toBe part.method.toNat_lt
  have level : fromBe (toBe 1 part.level.toNat) = part.level.toNat :=
    fromBe_toBe part.level.toNat_lt
  have flags : fromBe (toBe 4 part.flags.toNat) = part.flags.toNat :=
    fromBe_toBe part.flags.toNat_lt
  have nameLength : fromBe (toBe 1 part.name.length) = part.name.length :=
    fromBe_toBe (Nat.lt_succ_of_le part.name_length)
  unfold opening
  generalize sum : (if hasFlag part.flags.toNat flagCrc32Header then host.crc32 part.header
      else host.adler32 part.header) = checksum
  have small : checksum < 2 ^ 32 := by
    subst sum
    split
    next => exact codec.crc32_lt _
    next => exact codec.adler32_lt _
  have stored : fromBe (toBe 4 checksum) = checksum := fromBe_toBe small
  unfold header at sum ⊢
  simp only [List.append_assoc]
  refine .bind (.readField _ (length_toBe 2 _)) ?_
  refine .bind (.readField _ (length_toBe 2 _)) ?_
  rw [version]
  refine .bind (.readOptional _ (length_toBe 2 _)) (.ensure_bind ?_ ?_)
  · intro new
    rw [if_pos new, required]
    exact part.required_supported
  refine .bind (.readField _ (length_toBe 1 _)) (.ensure_bind ?_ ?_)
  · rw [method]
    exact part.method_supported
  refine .bind (.readOptional _ (length_toBe 1 _)) (.ensure_bind ?_ ?_)
  · split
    next => exact level.trans_le part.level_valid
    next => exact Nat.zero_le 9
  refine .bind (.readField _ (length_toBe 4 _)) ?_
  rw [flags]
  refine .bind (.readOptional _ (length_toBe 4 _)) ?_
  refine .bind (.readField _ (length_toBe 4 _)) ?_
  rw [← List.append_assoc (toBe 4 part.mtimeLow.toNat)]
  refine .bind (.readField _ part.length_mtime) ?_
  refine .bind (.readField _ (length_toBe 1 _)) ?_
  rw [nameLength]
  refine .bind (.readField _ rfl) ?_
  refine .bind (.readField _ (length_toBe 4 _)) (.ensure_bind ?_ ?_)
  · rw [stored]
    exact sum.symm
  exact consumes_extra rfl

end LzopPart

/-! ## One block -/

namespace LzopCodec

variable {host : LzopHost} (codec : LzopCodec host) {flags adler32 crc32 : Nat}
  {payload data : List UInt8}

variable {front : List (List UInt8)}

theorem exec_ensure_bind {α : Type} {condition : Prop} [Decidable condition] {message : String}
    {next : Unit → LzopM α} (holds : condition) (reader : LzopReader) :
    (ensure condition message >>= next).exec reader = (next ()).exec reader := by
  unfold ensure
  rw [if_pos holds]
  rfl

theorem exec_ensure_bind_of_not {α : Type} {condition : Prop} [Decidable condition]
    {message : String} {next : Unit → LzopM α} (fails : ¬condition) (reader : LzopReader) :
    (ensure condition message >>= next).exec reader = (.error (invalidData message), reader) := by
  unfold ensure
  rw [if_neg fails]
  rfl

theorem exec_getFlags_bind {α : Type} {next : Nat → LzopM α} (reader : LzopReader)
    (bytes : List UInt8) : (getFlags >>= next).exec (feed reader bytes) =
      (next reader.flags).exec (feed reader bytes) := rfl

/-- The checksum of the kind that the flags ask for. -/
def checksum (host : LzopHost) (flags crc32 : Nat) (data : List UInt8) : Nat :=
  if hasFlag flags crc32 then host.crc32 data else host.adler32 data

theorem checksum_lt (codec : LzopCodec host) (data : List UInt8) :
    checksum host flags crc32 data < 2 ^ 32 := by
  unfold checksum
  split
  next => exact codec.crc32_lt data
  next => exact codec.adler32_lt data

/-- With one kind at most, its checksum is what is written. -/
theorem checksums_eq (one : ¬(hasFlag flags adler32 ∧ hasFlag flags crc32))
    (data : List UInt8) : checksums host flags adler32 crc32 data =
      if hasFlag flags (crc32 ||| adler32) then toBe 4 (checksum host flags crc32 data)
      else [] := by
  unfold checksums checksum
  by_cases crc : hasFlag flags crc32
  · have other : ¬hasFlag flags adler32 := fun adler => one ⟨adler, crc⟩
    rw [if_neg other, if_pos crc, if_pos crc, if_pos (hasFlag_or.mpr (.inl crc))]
    rfl
  · rw [if_neg crc, List.append_nil, if_neg crc]
    by_cases adler : hasFlag flags adler32
    · rw [if_pos adler, if_pos (hasFlag_or.mpr (.inr adler))]
    · rw [if_neg adler, if_neg fun either => (hasFlag_or.mp either).elim crc adler]

theorem checksum?_checksums (codec : LzopCodec host)
    (one : ¬(hasFlag flags adler32 ∧ hasFlag flags crc32)) (data : List UInt8) :
    checksum? (checksums host flags adler32 crc32 data) =
      if hasFlag flags (crc32 ||| adler32) then some (checksum host flags crc32 data)
      else none := by
  have written : toBe 4 (checksum host flags crc32 data) ≠ [] := by
    intro empty
    have length := congrArg List.length empty
    rw [length_toBe] at length
    cases length
  rw [checksums_eq one]
  unfold checksum?
  by_cases present : hasFlag flags (crc32 ||| adler32)
  · rw [if_pos present, if_pos present, if_neg written, fromBe_toBe (codec.checksum_lt data)]
  · rw [if_neg present, if_neg present, if_pos rfl]

/-- What is read of a block before its data. -/
theorem length_stored_le (payload : List UInt8) :
    (codec.stored payload).length ≤ payload.length := by
  unfold stored
  split
  next shrunk => exact Nat.le_of_lt shrunk
  next => exact Nat.le_refl _

/-- The decoder behind the data of a block. -/
def checkBlock (host : LzopHost) (flags uncompressedSize compressedSize : Nat)
    (uncompressedChecksum compressedChecksum data : List UInt8) : LzopM (Option Bool) := do
  ensure (∀ stored ∈ checksum? compressedChecksum,
    stored = checksum host flags flagCrc32Compressed data) "corrupted lzop block"
  let decoded ← decompressBlock host data compressedSize uncompressedSize
  ensure (decoded.length = uncompressedSize) "lzop block decompressed to an unexpected size"
  ensure (∀ stored ∈ checksum? uncompressedChecksum,
    stored = checksum host flags flagCrc32Uncompressed decoded) "corrupted lzop block"
  setOut decoded
  return some true

/-- A payload of a permitted size, behind flags with one kind of checksum on a side. -/
structure Sound (flags : Nat) (payload : List UInt8) : Prop where
  one_uncompressed : ¬(hasFlag flags flagAdler32Uncompressed ∧
    hasFlag flags flagCrc32Uncompressed)
  one_compressed : ¬(hasFlag flags flagAdler32Compressed ∧ hasFlag flags flagCrc32Compressed)
  sized : 1 ≤ payload.length ∧ payload.length ≤ maxBlockSize

/-- A block is read up to its data, whatever they are. -/
theorem exec_blockRound (reader : LzopReader) (sound : Sound reader.flags payload)
    (long : data.length = (codec.stored payload).length) (rest : List UInt8) :
    (blockRound host).exec (feed reader (codec.blockHead reader.flags payload ++ data ++ rest)) =
      (checkBlock host reader.flags payload.length (codec.stored payload).length
        (uncompressedChecksums host reader.flags payload)
        (codec.compressedChecksums reader.flags payload) data).exec (feed reader rest) := by
  have bound : maxBlockSize < 256 ^ 4 := by decide
  have size : fromBe (toBe 4 payload.length) = payload.length :=
    fromBe_toBe (sound.sized.2.trans_lt bound)
  have storedSize : fromBe (toBe 4 (codec.stored payload).length) =
      (codec.stored payload).length :=
    fromBe_toBe (((codec.length_stored_le payload).trans sound.sized.2).trans_lt bound)
  have uncompressed : uncompressedChecksums host reader.flags payload =
      if hasFlag reader.flags (flagCrc32Uncompressed ||| flagAdler32Uncompressed) then
        toBe 4 (checksum host reader.flags flagCrc32Uncompressed payload) else [] :=
    checksums_eq sound.one_uncompressed payload
  have compressed : codec.compressedChecksums reader.flags payload =
      if hasFlag reader.flags (flagCrc32Compressed ||| flagAdler32Compressed) ∧
          (codec.stored payload).length < payload.length then
        toBe 4 (checksum host reader.flags flagCrc32Compressed (codec.stored payload))
      else [] := by
    unfold compressedChecksums
    rw [checksums_eq sound.one_compressed]
    split_ifs <;> tauto
  unfold blockHead blockRound
  simp only [List.append_assoc]
  rw [Consumes.exec_bind (.readField _ (length_toBe 4 _)), size,
    if_neg (Nat.ne_of_gt sound.sized.1)]
  unfold decodeBlock
  rw [exec_ensure_bind sound.sized.2, Consumes.exec_bind (.readField _ (length_toBe 4 _)),
    storedSize, exec_ensure_bind (codec.length_stored_le payload)]
  rw [exec_getFlags_bind, uncompressed, Consumes.exec_bind (.readOptional _ (length_toBe 4 _)),
    compressed,
    Consumes.exec_bind (.readOptional _ (length_toBe 4 _)), Consumes.exec_bind (.readField _ long)]
  rfl

/-- What the data in the place of a block's own would decompress to. -/
def decoded (payload data : List UInt8) : Except String (List UInt8) :=
  if (codec.stored payload).length = payload.length then .ok data
  else host.decompress data payload.length

theorem decoded_stored (payload : List UInt8) :
    codec.decoded payload (codec.stored payload) = .ok payload := by
  unfold decoded stored
  by_cases shrunk : (codec.compress payload).length < payload.length
  · rw [if_pos shrunk, if_neg (Nat.ne_of_lt shrunk)]
    exact codec.inverts payload
  · rw [if_neg shrunk, if_pos rfl]

theorem exec_decompressBlock {value : List UInt8} (reader : LzopReader)
    (done : codec.decoded payload data = .ok value) :
    (decompressBlock host data (codec.stored payload).length payload.length).exec reader =
      (.ok value, reader) := by
  unfold decoded at done
  unfold decompressBlock
  split at done
  next same =>
    rw [if_pos same]
    cases done
    rfl
  next other =>
    rw [if_neg other, done]
    rfl

/-- **A block is read back.** -/
theorem exec_checkBlock (reader : LzopReader) (sound : Sound flags payload) :
    (checkBlock host flags payload.length (codec.stored payload).length
      (uncompressedChecksums host flags payload) (codec.compressedChecksums flags payload)
      (codec.stored payload)).exec reader =
        (.ok (some true), { reader with out := payload, outPos := 0 }) := by
  have compressed : ∀ stored ∈ checksum? (codec.compressedChecksums flags payload),
      stored = checksum host flags flagCrc32Compressed (codec.stored payload) := by
    intro stored member
    unfold compressedChecksums at member
    split at member
    next =>
      rw [checksum?_checksums codec sound.one_compressed] at member
      split at member
      next => exact (Option.some.inj member).symm
      next => cases member
    next => cases member
  have uncompressed : ∀ stored ∈ checksum? (uncompressedChecksums host flags payload),
      stored = checksum host flags flagCrc32Uncompressed payload := by
    intro stored member
    unfold uncompressedChecksums at member
    rw [checksum?_checksums codec sound.one_uncompressed] at member
    split at member
    next => exact (Option.some.inj member).symm
    next => cases member
  unfold checkBlock
  rw [exec_ensure_bind compressed, StepM.exec_bind,
    codec.exec_decompressBlock reader (codec.decoded_stored payload)]
  dsimp only
  rw [exec_ensure_bind rfl, exec_ensure_bind uncompressed]
  rfl

/-- The data in the place of a block's own change a checksum that is stored with it. -/
def Detects (flags : Nat) (payload data : List UInt8) : Prop :=
  ((hasFlag flags flagCrc32Compressed ∨ hasFlag flags flagAdler32Compressed) ∧
    (codec.stored payload).length < payload.length ∧
    checksum host flags flagCrc32Compressed data ≠
      checksum host flags flagCrc32Compressed (codec.stored payload)) ∨
  ((hasFlag flags flagCrc32Uncompressed ∨ hasFlag flags flagAdler32Uncompressed) ∧
    ∀ value, codec.decoded payload data = .ok value →
      checksum host flags flagCrc32Uncompressed value ≠
        checksum host flags flagCrc32Uncompressed payload)

theorem exec_checkBlock_of_compressed (reader : LzopReader) (data : List UInt8)
    (sound : Sound flags payload)
    (kind : hasFlag flags flagCrc32Compressed ∨ hasFlag flags flagAdler32Compressed)
    (shrunk : (codec.stored payload).length < payload.length)
    (differs : checksum host flags flagCrc32Compressed data ≠
      checksum host flags flagCrc32Compressed (codec.stored payload)) :
    (checkBlock host flags payload.length (codec.stored payload).length
      (uncompressedChecksums host flags payload) (codec.compressedChecksums flags payload)
      data).exec reader = (.error (invalidData "corrupted lzop block"), reader) := by
  apply exec_ensure_bind_of_not
  intro compressed
  refine absurd (compressed _ ?_).symm differs
  unfold compressedChecksums
  rw [if_pos shrunk, checksum?_checksums codec sound.one_compressed, if_pos (hasFlag_or.mpr kind)]
  rfl

/-- The decoder behind a block that decompresses to another payload. -/
theorem exec_checkBlock_of_decoded (reader : LzopReader) {value : List UInt8}
    (sound : Sound flags payload)
    (compressed : ∀ stored ∈ checksum? (codec.compressedChecksums flags payload),
      stored = checksum host flags flagCrc32Compressed data)
    (kind : hasFlag flags flagCrc32Uncompressed ∨ hasFlag flags flagAdler32Uncompressed)
    (done : codec.decoded payload data = .ok value)
    (differs : checksum host flags flagCrc32Uncompressed value ≠
      checksum host flags flagCrc32Uncompressed payload) :
    (checkBlock host flags payload.length (codec.stored payload).length
      (uncompressedChecksums host flags payload) (codec.compressedChecksums flags payload)
      data).exec reader = (.error (invalidData (if value.length = payload.length then
        "corrupted lzop block" else "lzop block decompressed to an unexpected size")), reader) := by
  unfold checkBlock
  rw [exec_ensure_bind compressed, StepM.exec_bind, codec.exec_decompressBlock reader done]
  dsimp only
  by_cases long : value.length = payload.length
  · rw [exec_ensure_bind long, if_pos long]
    apply exec_ensure_bind_of_not
    intro uncompressed
    refine absurd (uncompressed _ ?_).symm differs
    unfold uncompressedChecksums
    rw [checksum?_checksums codec sound.one_uncompressed, if_pos (hasFlag_or.mpr kind)]
    rfl
  · rw [if_neg long]
    exact exec_ensure_bind_of_not long reader

/-- **A change that a checksum detects is an error.** -/
theorem exec_checkBlock_of_detects (sound : Sound flags payload)
    (detects : codec.Detects flags payload data) :
    ∃ message, ∀ reader, (checkBlock host flags payload.length (codec.stored payload).length
      (uncompressedChecksums host flags payload) (codec.compressedChecksums flags payload)
      data).exec reader = (.error (invalidData message), reader) := by
  by_cases compressed : ∀ stored ∈ checksum? (codec.compressedChecksums flags payload),
      stored = checksum host flags flagCrc32Compressed data
  · rcases detects with ⟨kind, shrunk, differs⟩ | ⟨kind, differs⟩
    · exact ⟨_, fun reader =>
        codec.exec_checkBlock_of_compressed reader data sound kind shrunk differs⟩
    cases done : codec.decoded payload data with
    | error message =>
      refine ⟨"lzop block decompression failed: " ++ message, fun reader => ?_⟩
      unfold decoded at done
      split at done
      next => cases done
      next other =>
        unfold checkBlock decompressBlock
        rw [exec_ensure_bind compressed, if_neg other, done]
        rfl
    | ok value =>
      exact ⟨_, fun reader => codec.exec_checkBlock_of_decoded reader sound compressed kind done
        (differs value done)⟩
  · exact ⟨_, fun reader => exec_ensure_bind_of_not compressed reader⟩

theorem exec_blockRound_block (reader : LzopReader) (sound : Sound reader.flags payload)
    (rest : List UInt8) :
    (blockRound host).exec (feed reader (codec.block reader.flags payload ++ rest)) =
      (.ok (some true), { feed reader rest with out := payload, outPos := 0 }) :=
  (codec.exec_blockRound reader sound rfl rest).trans (codec.exec_checkBlock _ sound)

/-! ## The end of a part -/

theorem exec_blockRound_terminator (reader : LzopReader) (rest : List UInt8) :
    (blockRound host).exec (feed reader (terminator ++ rest)) =
      (nextHeader host).exec (feed reader rest) := by
  unfold blockRound terminator
  rw [Consumes.exec_bind (.readField _ (length_toBe 4 0)), fromBe_toBe (by decide), if_pos rfl]

theorem exec_nextHeader_nil (reader : LzopReader) :
    (nextHeader host).exec (feed reader []) = (.ok (some false), feed reader []) := rfl

theorem exec_readMagic (reader : LzopReader) (rest : List UInt8) :
    readMagic.exec (feed reader (headerMagic ++ rest)) =
      (.ok (some headerMagic), feed reader rest) :=
  exec_fill headerMagic reader rest

theorem exec_nextHeader (codec : LzopCodec host) (reader : LzopReader) (part : LzopPart)
    (rest : List UInt8) :
    (nextHeader host).exec (feed reader (headerMagic ++ part.opening host ++ rest)) =
      (.ok none, { feed reader rest with flags := part.flags.toNat }) := by
  unfold nextHeader
  rw [List.append_assoc, StepM.exec_bind, exec_readMagic]
  dsimp only
  rw [if_pos rfl, Consumes.exec_bind (part.consumes_opening codec)]
  rfl

theorem new_opening (codec : LzopCodec host) (part : LzopPart) (rest : List UInt8) :
    LzopReader.new host ((headerMagic ++ part.opening host ++ rest).map .byte) =
      (.ok (), { feed { inner := [] } rest with flags := part.flags.toNat }) := by
  change (consumeHeader host).exec (feed { inner := [] } _) = _
  unfold consumeHeader
  have magic : Consumes (readExactOrEof 9) headerMagic headerMagic := .readField headerMagic rfl
  rw [List.append_assoc, Consumes.exec_bind magic, exec_ensure_bind rfl,
    Consumes.exec_bind (part.consumes_opening codec)]
  rfl

/-! ## The blocks ahead -/

/-- The payloads ahead of a reader with these flags, up to a point where asking for a block
has an answer of its own. -/
inductive Ahead (answer : Except IoError Bool) : Nat → List UInt8 → List (List UInt8) → Prop
  | stop {flags : Nat} {bytes : List UInt8}
      (answers : ∀ reader : LzopReader, reader.flags = flags → ∃ next,
        (feed reader bytes).nextBlock host = (answer, { feed reader next with flags := flags })) :
      Ahead answer flags bytes []
  | block {flags : Nat} {payload bytes : List UInt8} {payloads : List (List UInt8)}
      (sound : Sound flags payload) (behind : Ahead answer flags bytes payloads) :
      Ahead answer flags (codec.block flags payload ++ bytes) (payload :: payloads)
  | part {flags : Nat} {part : LzopPart} {bytes : List UInt8} {payloads : List (List UInt8)}
      (behind : Ahead answer part.flags.toNat bytes payloads) :
      Ahead answer flags (terminator ++ (headerMagic ++ part.opening host ++ bytes)) payloads

variable {codec} {answer : Except IoError Bool} {bytes : List UInt8}
  {payloads : List (List UInt8)}

theorem nextBlock_of_blockRound {reader next : LzopReader} {result : Except IoError Bool}
    (round : (blockRound host).exec reader = (result.map some, next)) :
    reader.nextBlock host = (result, next) := by
  rw [LzopReader.nextBlock, round]
  cases result with
  | ok more => rfl
  | error source => rfl

/-- Asking for a block gives the next payload, or the answer at the end. -/
theorem Ahead.nextBlock (ahead : codec.Ahead answer flags bytes payloads) (reader : LzopReader)
    (same : reader.flags = flags) :
    (payloads = [] ∧ ∃ next flags, (feed reader bytes).nextBlock host =
        (answer, { feed reader next with flags := flags })) ∨
      ∃ payload later rest next, payloads = payload :: later ∧ payload ≠ [] ∧
        (feed reader bytes).nextBlock host =
          (.ok true, { feed next rest with out := payload, outPos := 0 }) ∧
        next.finished = reader.finished ∧ codec.Ahead answer next.flags rest later := by
  induction ahead generalizing reader with
  | stop answers =>
    obtain ⟨next, ends⟩ := answers reader same
    exact .inl ⟨rfl, next, _, ends⟩
  | @block flags payload bytes payloads sound behind ih =>
    subst same
    refine .inr ⟨payload, payloads, bytes, reader, rfl, ?_, ?_, rfl, behind⟩
    · exact List.ne_nil_of_length_pos sound.sized.1
    · exact nextBlock_of_blockRound (codec.exec_blockRound_block reader sound bytes)
  | @part flags part bytes payloads behind ih =>
    have again : (feed reader
        (terminator ++ (headerMagic ++ part.opening host ++ bytes))).nextBlock host =
        (feed { reader with flags := part.flags.toNat } bytes).nextBlock host := by
      have round := @exec_blockRound_terminator host reader
        (headerMagic ++ part.opening host ++ bytes)
      rw [exec_nextHeader codec] at round
      rw [LzopReader.nextBlock, round]
      rfl
    rw [again]
    exact ih { reader with flags := part.flags.toNat } rfl

/-- The bytes are a header with its blocks ahead. -/
def Opens (codec : LzopCodec host) (answer : Except IoError Bool) (bytes : List UInt8)
    (payloads : List (List UInt8)) : Prop :=
  ∃ (part : LzopPart) (rest : List UInt8), bytes = headerMagic ++ part.opening host ++ rest ∧
    codec.Ahead answer part.flags.toNat rest payloads

theorem Opens.ahead (opens : codec.Opens answer bytes payloads) (flags : Nat) :
    codec.Ahead answer flags (terminator ++ bytes) payloads := by
  obtain ⟨part, rest, rfl, behind⟩ := opens
  exact .part behind

theorem sound_of_mem {part : LzopPart} (member : payload ∈ part.blocks) :
    Sound part.flags.toNat payload :=
  ⟨part.one_uncompressed, part.one_compressed, part.blocks_sized payload member⟩

theorem Ahead.blocks (sound : ∀ payload ∈ front, Sound flags payload)
    (behind : codec.Ahead answer flags bytes payloads) :
    codec.Ahead answer flags (codec.blocks flags front ++ bytes) (front ++ payloads) := by
  induction front with
  | nil => exact behind
  | cons payload front ih =>
    unfold LzopCodec.blocks
    rw [List.flatMap_cons, List.append_assoc]
    exact .block (sound payload List.mem_cons_self)
      (ih fun other member => sound other (List.mem_cons_of_mem _ member))

theorem opens_part (part : LzopPart)
    (behind : codec.Ahead answer part.flags.toNat (terminator ++ bytes) payloads) :
    codec.Opens answer (codec.part part ++ bytes) (part.blocks ++ payloads) := by
  refine ⟨part, codec.blocks part.flags.toNat part.blocks ++ (terminator ++ bytes), ?_,
    behind.blocks fun payload member => sound_of_mem member⟩
  unfold LzopCodec.part
  simp only [List.append_assoc]

theorem opens_stream {parts : List LzopPart} (opens : codec.Opens answer bytes payloads) :
    codec.Opens answer (codec.stream parts ++ bytes)
      (parts.flatMap LzopPart.blocks ++ payloads) := by
  induction parts with
  | nil => exact opens
  | cons part parts ih =>
    unfold stream
    rw [List.flatMap_cons, List.flatMap_cons, List.append_assoc, List.append_assoc]
    exact opens_part part (ih.ahead _)

theorem ahead_stream (parts : List LzopPart) (flags : Nat) :
    codec.Ahead (.ok false) flags (terminator ++ codec.stream parts)
      (parts.flatMap LzopPart.blocks) := by
  induction parts generalizing flags with
  | nil =>
    refine .stop fun reader same => ⟨[], ?_⟩
    subst same
    have round := @exec_blockRound_terminator host reader []
    rw [exec_nextHeader_nil] at round
    exact nextBlock_of_blockRound round
  | cons part parts ih =>
    unfold stream
    rw [List.flatMap_cons, List.flatMap_cons]
    exact (opens_part part (ih _)).ahead flags

/-! ## Reading a stream -/

/-- What a reader has delivered and holds, with what is ahead, is all of the payloads. -/
inductive Holds (codec : LzopCodec host) (answer : Except IoError Bool) (total : List UInt8)
    (delivered : List UInt8) (reader : LzopReader) : Prop
  | reading (bytes : List UInt8) (payloads : List (List UInt8))
      (stands : reader = feed reader bytes) (ahead : codec.Ahead answer reader.flags bytes payloads)
      (going : reader.finished = false)
      (all : delivered ++ reader.out.drop reader.outPos ++ payloads.flatten = total)
  | finished (ends : answer = .ok false) (done : reader.finished = true)
      (all : delivered ++ reader.out.drop reader.outPos = total)

/-- What a call comes to that returns. -/
def Returned (codec : LzopCodec host) (answer : Except IoError Bool)
    (total delivered : List UInt8) : Except IoError (List UInt8) × LzopReader → Prop
  | (.ok bytes, next) => Holds codec answer total (delivered ++ bytes) next ∧
      (bytes = [] → answer = .ok false ∧ delivered = total)
  | (.error source, _) => answer = .error source

variable {total delivered : List UInt8} {reader : LzopReader}

/-- Everything has been delivered when nothing is left of the block and nothing is ahead. -/
theorem delivered_eq (none : payloads = []) (all : delivered ++ payloads.flatten = total) :
    delivered = total := by
  subst none
  rwa [List.flatten_nil, List.append_nil] at all

/-- Handing out a part of the block. -/
theorem Holds.deliver (holds : Holds codec answer total delivered reader) (bufferLength : Nat) :
    Holds codec answer total (delivered ++ (reader.deliver bufferLength).1)
      (reader.deliver bufferLength).2 := by
  have parts : (reader.deliver bufferLength).1 ++
      (reader.deliver bufferLength).2.out.drop (reader.deliver bufferLength).2.outPos =
      reader.out.drop reader.outPos := by
    have whole := take_append_drop_length_take bufferLength (reader.out.drop reader.outPos)
    rw [List.drop_drop] at whole
    exact whole
  cases holds with
  | reading bytes payloads stands ahead going all =>
    refine .reading bytes payloads ?_ ahead going ?_
    · have same := congrArg LzopReader.inner stands
      unfold feed LzopReader.deliver
      rw [← show reader.inner = bytes.map .byte from same]
    · rw [List.append_assoc delivered, parts]
      exact all
  | finished ends done all =>
    refine .finished ends done ?_
    rw [List.append_assoc, parts]
    exact all

/-- A call hands out bytes of a payload, or ends as the stream does. -/
theorem Holds.read (holds : Holds codec answer total delivered reader) {bufferLength : Nat}
    (room : 0 < bufferLength) (stops : answer ≠ .ok true) :
    Returned codec answer total delivered (reader.read host bufferLength) := by
  fun_induction LzopReader.read host reader bufferLength with
  | case1 reader left =>
    refine ⟨holds.deliver bufferLength, fun none => ?_⟩
    have length := congrArg List.length none
    change ((reader.out.drop reader.outPos).take bufferLength).length = 0 at length
    rw [List.length_take, List.length_drop] at length
    omega
  | case2 reader left ended =>
    refine ⟨by rwa [List.append_nil], fun _ => ?_⟩
    cases holds with
    | reading bytes payloads stands ahead going all => exact Bool.noConfusion (ended.symm.trans going)
    | finished ends done all =>
      rw [List.drop_eq_nil_of_le (Nat.le_of_not_lt left), List.append_nil] at all
      exact ⟨ends, all⟩
  | case3 reader left going source last block =>
    cases holds with
    | reading bytes payloads stands ahead running all =>
      rw [stands] at block
      rcases ahead.nextBlock reader rfl with ⟨-, _, _, ends⟩ | ⟨_, _, _, _, -, -, more, -⟩
      · exact (congrArg Prod.fst (ends.symm.trans block))
      · cases congrArg Prod.fst (more.symm.trans block)
    | finished ends done all => exact absurd done going
  | case4 reader left going last block ih =>
    cases holds with
    | reading bytes payloads stands ahead running all =>
      rw [stands] at block
      rw [List.drop_eq_nil_of_le (Nat.le_of_not_lt left), List.append_nil] at all
      rcases ahead.nextBlock reader rfl with
        ⟨-, _, _, ends⟩ | ⟨payload, later, rest, next, are, -, more, same, behind⟩
      · exact absurd (congrArg Prod.fst (ends.symm.trans block)) stops
      · cases more.symm.trans block
        refine ih (.reading rest later rfl behind (same.trans running) ?_)
        rw [are, List.flatten_cons, ← List.append_assoc] at all
        exact all
    | finished ends done all => exact absurd done going
  | case5 reader left going last block ih =>
    cases holds with
    | reading bytes payloads stands ahead running all =>
      rw [stands] at block
      rw [List.drop_eq_nil_of_le (Nat.le_of_not_lt left), List.append_nil] at all
      rcases ahead.nextBlock reader rfl with
        ⟨none, _, _, ends⟩ | ⟨_, _, _, _, -, -, more, -⟩
      · have ended := congrArg Prod.fst (ends.symm.trans block)
        cases (congrArg Prod.snd (ends.symm.trans block) :)
        refine ih (.finished ended rfl ?_)
        change delivered ++ reader.out.drop reader.outPos = total
        rw [List.drop_eq_nil_of_le (Nat.le_of_not_lt left), List.append_nil]
        exact delivered_eq none all
      · cases congrArg Prod.fst (more.symm.trans block)
    | finished ends done all => exact absurd done going

/-- The outcome that an answer at the end stands for. -/
def ending (answer : Except IoError Bool) (total : List UInt8) : Except IoError (List UInt8) :=
  answer.map fun _ => total

/-- Reading to the end delivers all payloads, or reports what stands behind them. -/
theorem Holds.outcome {sizes : Nat → Nat} {outcome : Except IoError (List UInt8)}
    {final : LzopReader} (holds : Holds codec answer total delivered reader)
    (stops : answer ≠ .ok true) (positive : ∀ index, 0 < sizes index)
    (reads : ReadsToEnd (LzopReader.Reads host) sizes reader outcome final) :
    outcome.map (delivered ++ ·) = ending answer total := by
  induction reads generalizing delivered with
  | ended returned =>
    have comes := holds.read (positive 0) stops
    rw [show LzopReader.read host _ _ = _ from returned] at comes
    obtain ⟨ends, all⟩ := comes.2 rfl
    rw [ends, all]
    exact congrArg Except.ok (List.append_nil total)
  | failed returned =>
    have comes := holds.read (positive 0) stops
    rw [show LzopReader.read host _ _ = _ from returned] at comes
    rw [show answer = _ from comes]
    rfl
  | more returned some rest ih =>
    have comes := holds.read (positive 0) stops
    rw [show LzopReader.read host _ _ = _ from returned] at comes
    rw [map_append_append]
    exact ih comes.1 fun index => positive (index + 1)

/-- **The outcome of a stream** whose header is read and whose blocks are ahead. -/
theorem Opens.decodesTo_iff {sizes : Nat → Nat} (opens : codec.Opens answer bytes payloads)
    (stops : answer ≠ .ok true) (positive : ∀ index, 0 < sizes index)
    (outcome : Except IoError (List UInt8)) :
    LzopReader.DecodesTo host (bytes.map .byte) sizes outcome ↔
      outcome = ending answer payloads.flatten := by
  have only : ∀ outcome, LzopReader.DecodesTo host (bytes.map .byte) sizes outcome →
      outcome = ending answer payloads.flatten := by
    intro outcome decodes
    obtain ⟨part, rest, rfl, ahead⟩ := opens
    unfold LzopReader.DecodesTo at decodes
    rw [new_opening codec] at decodes
    obtain ⟨final, reads⟩ := decodes
    have holds : Holds codec answer payloads.flatten []
        { feed { inner := [] } rest with flags := part.flags.toNat } :=
      .reading rest payloads rfl ahead rfl rfl
    have all := holds.outcome stops positive reads
    cases outcome with
    | ok value => exact all
    | error source => exact all
  constructor
  · exact only outcome
  · intro same
    obtain ⟨found, decodes⟩ := LzopReader.exists_decodesTo host (bytes.map .byte) positive
    rw [same, ← only found decodes]
    exact decodes

/-! ## Damage -/

/-- The stream of the parts before, a part up to the data of a block, other data, and the
rest of the part and the parts after. -/
def damaged (codec : LzopCodec host) (before : List LzopPart) (part : LzopPart)
    (front : List (List UInt8)) (payload data : List UInt8) (back : List (List UInt8))
    (after : List LzopPart) : List UInt8 :=
  codec.stream before ++ (headerMagic ++ part.opening host ++
    (codec.blocks part.flags.toNat front ++ (codec.blockHead part.flags.toNat payload ++ data ++
      (codec.blocks part.flags.toNat back ++ terminator ++ codec.stream after))))

theorem opens_damaged {part : LzopPart} {back : List (List UInt8)}
    (blocks : part.blocks = front ++ payload :: back)
    (long : data.length = (codec.stored payload).length)
    (detects : codec.Detects part.flags.toNat payload data) (before after : List LzopPart) :
    ∃ message payloads, codec.Opens (.error (invalidData message))
      (codec.damaged before part front payload data back after) payloads := by
  have member : payload ∈ part.blocks := by
    rw [blocks]
    exact List.mem_append_right front List.mem_cons_self
  obtain ⟨message, fails⟩ := codec.exec_checkBlock_of_detects (sound_of_mem member) detects
  refine ⟨message, _, opens_stream ⟨part, _, rfl, Ahead.blocks (fun other inside => ?_)
    (.stop fun reader same => ?_)⟩⟩
  · exact sound_of_mem (blocks ▸ List.mem_append_left _ inside)
  · rw [← same] at fails ⊢
    refine ⟨codec.blocks reader.flags back ++ terminator ++ codec.stream after,
      nextBlock_of_blockRound (?_ : _ = (Except.map some (.error (invalidData message)), _))⟩
    rw [codec.exec_blockRound reader (same ▸ sound_of_mem member) long, fails]
    rfl

end LzopCodec

open LzopCodec

/-- The two checksums, and a codec that knows one run of letters. -/
def sampleLzopHost : LzopHost where
  crc32 := fun data => (data.foldl (fun register byte => (List.range 8).foldl
    (fun register _ => if register % 2 = 1 then (register / 2) ^^^ 0xedb88320 else register / 2)
    (register ^^^ byte.toNat)) 0xffffffff ^^^ 0xffffffff) % 2 ^ 32
  adler32 := fun data =>
    let sums := data.foldl (fun (sums : Nat × Nat) byte =>
      ((sums.1 + byte.toNat) % 65521, (sums.2 + sums.1 + byte.toNat) % 65521)) (1, 0)
    sums.2 % 65521 * 65536 + sums.1 % 65521
  decompress := fun data _ =>
    .ok (if data = [0x12, 0x61, 0x31, 0, 0, 0x11, 0, 0] then List.replicate 20 0x61
      else data.dropLast)

def sampleLzopCodec : LzopCodec sampleLzopHost where
  compress := fun payload =>
    if payload = List.replicate 20 0x61 then [0x12, 0x61, 0x31, 0, 0, 0x11, 0, 0]
    else payload ++ [1]
  inverts := by
    intro payload
    by_cases run : payload = List.replicate 20 0x61
    · rw [if_pos run, run]
      rfl
    · have other : payload ++ [1] ≠ [0x12, 0x61, 0x31, 0, 0, 0x11, 0, 0] := by
        intro same
        have last := congrArg List.getLast? same
        rw [List.getLast?_concat] at last
        cases last
      rw [if_neg run]
      unfold sampleLzopHost
      dsimp only
      rw [if_neg other, List.dropLast_concat]
  crc32_lt := fun data => Nat.mod_lt _ (by decide)
  adler32_lt := by
    intro data
    unfold sampleLzopHost
    dsimp only
    omega

/-- A part in the new layout, with every optional field and a checksum on each side. -/
def sampleLzopPart : LzopPart where
  version := 0x1030
  library := 0x2080
  required := 0x0940
  method := 1
  level := 5
  flags := 0x1a41
  filter := 1
  mode := 0o100644
  mtimeLow := 1700000000
  mtimeHigh := 0
  name := [0x61, 0x62]
  extra := [1, 2, 3]
  blocks := [List.replicate 20 0x61, [0x68, 0x69]]
  required_supported := by decide
  method_supported := by decide
  level_valid := by decide
  one_uncompressed := by decide
  one_compressed := by decide
  name_length := by decide
  extra_length := by decide
  blocks_sized := by decide

/-- The same payloads in the old layout, with a checksum on one side. -/
def sampleOldLzopPart : LzopPart :=
  { sampleLzopPart with
    version := 0x0930
    flags := 0x0002
    one_uncompressed := by decide
    one_compressed := by decide }

end ZManager
