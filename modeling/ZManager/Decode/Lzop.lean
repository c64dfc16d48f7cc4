import Mathlib.Data.Prod.Lex
import ZManager.Decode.UnixCompress
import ZManager.Foundation.Failures

/-! # The decoder for lzop streams

A stream is a magic, a header and blocks. A block of no bytes ends it, unless another
magic and header follow. Everything is read with buffers that must become full.
-/

namespace ZManager

/-- The checksums, and the decompression of a block to a size. -/
structure LzopHost where
  crc32 : List UInt8 → Nat
  adler32 : List UInt8 → Nat
  decompress : List UInt8 → Nat → Except String (List UInt8)

/-- Decodes an LZOP stream while it is read. -/
structure LzopReader where
  inner : List InnerRead
  /-- Flags from the most recent header; they govern block checksums. -/
  flags : Nat := 0
  out : List UInt8 := []
  outPos : Nat := 0
  finished : Bool := false

namespace Lzop

def headerMagic : List UInt8 := [0x89, 0x4c, 0x5a, 0x4f, 0x00, 0x0d, 0x0a, 0x1a, 0x0a]

def flagAdler32Uncompressed : Nat := 0x0001

def flagAdler32Compressed : Nat := 0x0002

def flagExtraField : Nat := 0x0040

def flagFilter : Nat := 0x0800

def flagCrc32Uncompressed : Nat := 0x0100

def flagCrc32Compressed : Nat := 0x0200

def flagCrc32Header : Nat := 0x1000

def maxBlockSize : Nat := 64 * 1024 * 1024

def invalidData (message : String) : IoError := ⟨.invalidData, message⟩

def truncated : IoError := invalidData "truncated lzop stream"

/-- A big-endian number. -/
def fromBe (bytes : List UInt8) : Nat :=
  bytes.foldl (fun number byte => number * 256 + byte.toNat) 0

/-- What filling a buffer comes to. -/
inductive Taken where
  | full (bytes : List UInt8)
  | ended
  | failed (source : IoError)

/-- Fills a buffer of a size. An interrupted read is repeated. -/
def take : Nat → List InnerRead → Taken × List InnerRead
  | 0, inner => (.full [], inner)
  | _ + 1, [] => (.ended, [])
  | _ + 1, .endOfData :: rest => (.ended, rest)
  | _ + 1, .failed source :: rest => (.failed source, rest)
  | count + 1, .interrupted :: rest => take (count + 1) rest
  | count + 1, .byte value :: rest =>
    match take count rest with
    | (.full bytes, inner) => (.full (value :: bytes), inner)
    | (stopped, inner) => (stopped, inner)

abbrev LzopM := StepM IoError LzopReader

/-- Fills a buffer and answers by what that comes to. -/
def fill {α : Type} (count : Nat) (answer : Taken → Except IoError α) : LzopM α := fun reader =>
  (answer (take count reader.inner).1, { reader with inner := (take count reader.inner).2 })

/-- Reads exactly so many bytes or fails cleanly at the end of the data. -/
def readExactOrEof (count : Nat) : LzopM (List UInt8) :=
  fill count fun
    | .full bytes => .ok bytes
    | .ended => .error truncated
    | .failed source => .error (if source.kind = .unexpectedEof then truncated else source)

/-- The nine bytes behind the last block, unless the data ends before. -/
def readMagic : LzopM (Option (List UInt8)) :=
  fill 9 fun
    | .full bytes => .ok (some bytes)
    | .ended => .ok none
    | .failed source => .error source

def ensure (condition : Prop) [Decidable condition] (message : String) : LzopM Unit :=
  if condition then pure () else throw (invalidData message)

/-- A field that only some headers and blocks have. -/
def readOptional (condition : Prop) [Decidable condition] (count : Nat) : LzopM (List UInt8) :=
  if condition then readExactOrEof count else pure []

def hasFlag (flags flag : Nat) : Prop := flags &&& flag ≠ 0

instance (flags flag : Nat) : Decidable (hasFlag flags flag) :=
  inferInstanceAs (Decidable (_ ≠ _))

def setFlags (flags : Nat) : LzopM Unit := fun reader => (.ok (), { reader with flags := flags })

def getFlags : LzopM Nat := fun reader => (.ok reader.flags, reader)

def setOut (out : List UInt8) : LzopM Unit := fun reader =>
  (.ok (), { reader with out := out, outPos := 0 })

section

variable (host : LzopHost)

/-- Parses the header fields that follow the magic and returns the header flags. All of
them up to the filename are in the checksum. -/
def parseHeaderAfterMagic : LzopM Nat := do
  let versionBytes ← readExactOrEof 2
  let version := fromBe versionBytes
  let library ← readExactOrEof 2
  let required ← readOptional (0x0940 ≤ version) 2
  ensure (0x0940 ≤ version → 0x0900 ≤ fromBe required)
    "lzop stream requires an unsupported version"
  let method ← readExactOrEof 1
  ensure (1 ≤ fromBe method ∧ fromBe method ≤ 3)
    "lzop stream uses an unsupported compression method"
  let level ← readOptional (0x0940 ≤ version) 1
  ensure (fromBe level ≤ 9) "lzop stream uses an invalid compression level"
  let flagBytes ← readExactOrEof 4
  let flags := fromBe flagBytes
  let filter ← readOptional (hasFlag flags flagFilter) 4
  let mode ← readExactOrEof 4
  let mtime ← readExactOrEof (if 0x0940 ≤ version then 8 else 4)
  let nameLength ← readExactOrEof 1
  let filename ← readExactOrEof (fromBe nameLength)
  let stored ← readExactOrEof 4
  let header := versionBytes ++ library ++ required ++ method ++ level ++ flagBytes ++ filter ++
    mode ++ mtime ++ nameLength ++ filename
  ensure (fromBe stored =
    if hasFlag flags flagCrc32Header then host.crc32 header else host.adler32 header)
    "corrupted lzop header"
  let extraLength ← readOptional (hasFlag flags flagExtraField) 4
  let _ ← readExactOrEof (fromBe extraLength)
  return flags

/-- Parses one header (magic through the optional extra field). -/
def consumeHeader : LzopM Unit := do
  let magic ← readExactOrEof 9
  ensure (magic = headerMagic) "not an lzop stream"
  let flags ← parseHeaderAfterMagic host
  setFlags flags

/-- Multipart lzop: another header may follow; anything else ends the stream. -/
def nextHeader : LzopM (Option Bool) := do
  let magic ← readMagic
  if magic = some headerMagic then do
    let flags ← parseHeaderAfterMagic host
    setFlags flags
    return none
  else return some false

/-- A checksum that is stored, if it is. -/
def checksum? (stored : List UInt8) : Option Nat :=
  if stored = [] then none else some (fromBe stored)

/-- A block stored uncompressed needs no pass. -/
def decompressBlock (data : List UInt8) (compressedSize uncompressedSize : Nat) :
    LzopM (List UInt8) :=
  if compressedSize = uncompressedSize then pure data
  else
    match host.decompress data uncompressedSize with
    | .ok decoded => pure decoded
    | .error message => throw (invalidData ("lzop block decompression failed: " ++ message))

/-- Reads and decodes one block. -/
def decodeBlock (uncompressedSize : Nat) : LzopM (Option Bool) := do
  ensure (uncompressedSize ≤ maxBlockSize) "lzop block exceeds the 64 MiB limit"
  let size ← readExactOrEof 4
  let compressedSize := fromBe size
  ensure (compressedSize ≤ uncompressedSize) "corrupted lzop block"
  let flags ← getFlags
  let uncompressedChecksum ←
    readOptional (hasFlag flags (flagCrc32Uncompressed ||| flagAdler32Uncompressed)) 4
  let compressedChecksum ← readOptional
    (hasFlag flags (flagCrc32Compressed ||| flagAdler32Compressed) ∧
      compressedSize < uncompressedSize) 4
  let data ← readExactOrEof compressedSize
  ensure (∀ stored ∈ checksum? compressedChecksum, stored =
    if hasFlag flags flagCrc32Compressed then host.crc32 data else host.adler32 data)
    "corrupted lzop block"
  let decoded ← decompressBlock host data compressedSize uncompressedSize
  ensure (decoded.length = uncompressedSize) "lzop block decompressed to an unexpected size"
  ensure (∀ stored ∈ checksum? uncompressedChecksum, stored =
    if hasFlag flags flagCrc32Uncompressed then host.crc32 decoded else host.adler32 decoded)
    "corrupted lzop block"
  setOut decoded
  return some true

/-- One round of `next_block`: what it returns, or nothing behind another header. -/
def blockRound : LzopM (Option Bool) := do
  let size ← readExactOrEof 4
  if fromBe size = 0 then nextHeader host else decodeBlock host (fromBe size)

end

/-! ## What the computations do with the source -/

variable {host : LzopHost} {reader next : LzopReader}

/-- The reader with more answers behind its own. -/
def followedBy (reader : LzopReader) (tail : List InnerRead) : LzopReader :=
  { reader with inner := reader.inner ++ tail }

def IsFailure (read : InnerRead) : Prop := ∃ source, read = .failed source

/-- Nothing is put back. -/
def Shrinks (reader next : LzopReader) : Prop := next.inner.length ≤ reader.inner.length

/-- A computation that only takes answers, and reports failures. -/
structure Takes {α : Type} (computation : LzopM α) : Prop where
  shrinks : StepM.Preserves Shrinks computation
  reports : ReportsFailures followedBy IsFailure computation.exec

theorem length_take (count : Nat) (inner : List InnerRead) :
    (take count inner).2.length ≤ inner.length ∧
      ∀ bytes, (take count inner).1 = .full bytes →
        (take count inner).2.length + count ≤ inner.length := by
  fun_induction take count inner with
  | case1 inner => exact ⟨Nat.le_refl _, fun _ _ => Nat.le_refl _⟩
  | case2 => exact ⟨Nat.le_refl _, nofun⟩
  | case3 | case4 => exact ⟨Nat.le_succ _, nofun⟩
  | case5 count rest ih =>
    rw [List.length_cons]
    exact ⟨ih.1.trans (Nat.le_succ _), fun bytes full => (ih.2 bytes full).trans (Nat.le_succ _)⟩
  | case6 count value rest bytes inner taken ih =>
    rw [taken] at ih
    rw [List.length_cons]
    have more := ih.2 bytes rfl
    dsimp only at more ⊢
    exact ⟨by omega, fun _ _ => by omega⟩
  | case7 count value rest stopped inner unlike taken ih =>
    rw [taken] at ih
    rw [List.length_cons]
    exact ⟨ih.1.trans (Nat.le_succ _), fun bytes full => absurd full (unlike bytes)⟩

/-- A buffer is filled whatever stands behind, or meets what stands there first. -/
def FillsOrMeets (count : Nat) (inner : List InnerRead) : Prop :=
  (∃ taken rest, ∀ tail, take count (inner ++ tail) = (taken, rest ++ tail)) ∨
    ∀ source tail, take count (inner ++ .failed source :: tail) = (.failed source, tail)

theorem FillsOrMeets.cons {count : Nat} {inner : List InnerRead}
    (fills : FillsOrMeets count inner) (value : UInt8) :
    FillsOrMeets (count + 1) (.byte value :: inner) := by
  rcases fills with ⟨taken, rest, same⟩ | meets
  · left
    cases taken with
    | full bytes =>
      refine ⟨.full (value :: bytes), rest, fun tail => ?_⟩
      rw [List.cons_append, take, same]
    | ended =>
      refine ⟨.ended, rest, fun tail => ?_⟩
      rw [List.cons_append, take, same]
    | failed source =>
      refine ⟨.failed source, rest, fun tail => ?_⟩
      rw [List.cons_append, take, same]
  · right
    intro source tail
    rw [List.cons_append, take, meets]

theorem fillsOrMeets (count : Nat) (inner : List InnerRead) : FillsOrMeets count inner := by
  fun_induction take count inner with
  | case1 inner =>
    refine .inl ⟨.full [], inner, fun tail => ?_⟩
    unfold take
    rfl
  | case2 => exact .inr fun _ _ => rfl
  | case3 count rest => exact .inl ⟨.ended, rest, fun _ => rfl⟩
  | case4 count source rest => exact .inl ⟨.failed source, rest, fun _ => rfl⟩
  | case5 count rest ih => exact ih
  | case6 count value rest bytes inner taken ih => exact ih.cons value
  | case7 count value rest stopped inner unlike taken ih => exact ih.cons value

namespace Takes

variable {α β : Type}

theorem pure (value : α) : Takes (Pure.pure value : LzopM α) where
  shrinks := fun _ => Nat.le_refl _
  reports := .pure value

theorem throw (failure : IoError) : Takes (MonadExcept.throw failure : LzopM α) where
  shrinks := fun _ => Nat.le_refl _
  reports := .throw failure

theorem bind {computation : LzopM α} {next : α → LzopM β} (first : Takes computation)
    (second : ∀ value, Takes (next value)) : Takes (computation >>= next) where
  shrinks := .bind (fun _ _ _ shorter shorter' => Nat.le_trans shorter' shorter) first.shrinks
    fun value => (second value).shrinks
  reports := .bind first.reports fun value => (second value).reports

theorem ite {condition : Prop} [Decidable condition] {one two : LzopM α}
    (first : condition → Takes one) (second : ¬condition → Takes two) :
    Takes (if condition then one else two) := by
  split
  next holds => exact first holds
  next fails => exact second fails

theorem ensure (condition : Prop) [Decidable condition] (message : String) :
    Takes (Lzop.ensure condition message) :=
  ite (fun _ => pure _) fun _ => throw _

theorem fill {count : Nat} {answer : Taken → Except IoError α}
    (fails : ∀ source, ∃ error, answer (.failed source) = .error error) :
    Takes (Lzop.fill count answer) where
  shrinks := fun reader => (length_take count reader.inner).1
  reports := by
    intro reader
    rcases fillsOrMeets count reader.inner with ⟨taken, rest, same⟩ | meets
    · refine .inl ⟨answer taken, { reader with inner := rest }, fun tail => ?_⟩
      change (answer (take count (reader.inner ++ tail)).1,
        { reader with inner := (take count (reader.inner ++ tail)).2 }) = _
      rw [same]
      rfl
    · refine .inr ?_
      rintro _ tail ⟨source, rfl⟩
      obtain ⟨error, failed⟩ := fails source
      refine ⟨error, { reader with inner := tail }, ?_⟩
      change (answer (take count (reader.inner ++ InnerRead.failed source :: tail)).1,
        { reader with
          inner := (take count (reader.inner ++ InnerRead.failed source :: tail)).2 }) = _
      rw [meets, failed]

theorem readExactOrEof (count : Nat) : Takes (Lzop.readExactOrEof count) :=
  fill fun _ => ⟨_, rfl⟩

theorem readMagic : Takes Lzop.readMagic := fill fun _ => ⟨_, rfl⟩

theorem readOptional (condition : Prop) [Decidable condition] (count : Nat) :
    Takes (Lzop.readOptional condition count) :=
  ite (fun _ => readExactOrEof count) fun _ => pure _

theorem setFlags (flags : Nat) : Takes (Lzop.setFlags flags) where
  shrinks := fun _ => Nat.le_refl _
  reports := fun reader => .inl ⟨.ok (), { reader with flags := flags }, fun _ => rfl⟩

theorem getFlags : Takes Lzop.getFlags where
  shrinks := fun _ => Nat.le_refl _
  reports := fun reader => .inl ⟨.ok reader.flags, reader, fun _ => rfl⟩

theorem setOut (out : List UInt8) : Takes (Lzop.setOut out) where
  shrinks := fun _ => Nat.le_refl _
  reports := fun reader => .inl ⟨.ok (), { reader with out := out, outPos := 0 }, fun _ => rfl⟩

/-- One field after the other. -/
theorem parseHeaderAfterMagic (host : LzopHost) : Takes (Lzop.parseHeaderAfterMagic host) := by
  refine bind (readExactOrEof _) fun versionBytes => ?_
  refine bind (readExactOrEof _) fun library => ?_
  refine bind (readOptional _ _) fun required => ?_
  refine bind (ensure _ _) fun _ => ?_
  refine bind (readExactOrEof _) fun method => ?_
  refine bind (ensure _ _) fun _ => ?_
  refine bind (readOptional _ _) fun level => ?_
  refine bind (ensure _ _) fun _ => ?_
  refine bind (readExactOrEof _) fun flagBytes => ?_
  refine bind (readOptional _ _) fun filter => ?_
  refine bind (readExactOrEof _) fun mode => ?_
  refine bind (readExactOrEof _) fun mtime => ?_
  refine bind (readExactOrEof _) fun nameLength => ?_
  refine bind (readExactOrEof _) fun filename => ?_
  refine bind (readExactOrEof _) fun stored => ?_
  refine bind (ensure _ _) fun _ => ?_
  refine bind (readOptional _ _) fun extraLength => ?_
  exact bind (readExactOrEof _) fun _ => pure _

theorem consumeHeader (host : LzopHost) : Takes (Lzop.consumeHeader host) := by
  refine bind (readExactOrEof _) fun magic => ?_
  refine bind (ensure _ _) fun _ => ?_
  exact bind (parseHeaderAfterMagic host) setFlags

theorem nextHeader (host : LzopHost) : Takes (Lzop.nextHeader host) := by
  refine bind readMagic fun magic => ite (fun _ => ?_) fun _ => pure _
  refine bind (parseHeaderAfterMagic host) fun flags => ?_
  exact bind (setFlags flags) fun _ => pure _

theorem decompressBlock (host : LzopHost) (data : List UInt8)
    (compressedSize uncompressedSize : Nat) :
    Takes (Lzop.decompressBlock host data compressedSize uncompressedSize) := by
  refine ite (fun _ => pure _) fun _ => ?_
  cases host.decompress data uncompressedSize with
  | ok decoded => exact pure _
  | error message => exact throw _

theorem decodeBlock (host : LzopHost) (uncompressedSize : Nat) :
    Takes (Lzop.decodeBlock host uncompressedSize) := by
  refine bind (ensure _ _) fun _ => ?_
  refine bind (readExactOrEof _) fun size => ?_
  refine bind (ensure _ _) fun _ => ?_
  refine bind getFlags fun flags => ?_
  refine bind (readOptional _ _) fun uncompressedChecksum => ?_
  refine bind (readOptional _ _) fun compressedChecksum => ?_
  refine bind (readExactOrEof _) fun data => ?_
  refine bind (ensure _ _) fun _ => ?_
  refine bind (decompressBlock host data _ _) fun decoded => ?_
  refine bind (ensure _ _) fun _ => ?_
  refine bind (ensure _ _) fun _ => ?_
  exact bind (setOut decoded) fun _ => pure _

/-- What a round does behind the size of its block. -/
theorem behindSize (host : LzopHost) (size : List UInt8) :
    Takes (if fromBe size = 0 then Lzop.nextHeader host else
      Lzop.decodeBlock host (fromBe size)) :=
  ite (fun _ => nextHeader host) fun _ => decodeBlock host _

theorem blockRound (host : LzopHost) : Takes (Lzop.blockRound host) :=
  bind (readExactOrEof 4) (behindSize host)

end Takes

/-- A round that does not fail has read the size of a block. -/
theorem length_of_blockRound {result : Option Bool}
    (done : (blockRound host).exec reader = (.ok result, next)) :
    next.inner.length < reader.inner.length := by
  obtain ⟨size, middle, read, done⟩ := StepM.exec_bind_eq_ok.mp done
  have shorter := (Takes.behindSize host size).shrinks.of_exec done
  have taken := (length_take 4 reader.inner).2
  unfold readExactOrEof fill StepM.exec at read
  cases four : (take 4 reader.inner).1 with
  | full bytes =>
    have some := taken bytes four
    cases congrArg Prod.snd read
    exact Nat.lt_of_le_of_lt shorter (by dsimp only; omega)
  | ended =>
    have first := congrArg Prod.fst read
    change (match (take 4 reader.inner).1 with
      | .full bytes => _ | .ended => _ | .failed source => _) = _ at first
    rw [four] at first
    cases first
  | failed source =>
    have first := congrArg Prod.fst read
    change (match (take 4 reader.inner).1 with
      | .full bytes => _ | .ended => _ | .failed source => _) = _ at first
    rw [four] at first
    cases first

end Lzop

open Lzop

namespace LzopReader

variable {host : LzopHost} {reader next : LzopReader}

/-! ## Reading -/

section

variable (host : LzopHost)

/-- Decodes the next block. -/
def nextBlock (reader : LzopReader) : Except IoError Bool × LzopReader :=
  match _round : (blockRound host).exec reader with
  | (.error source, next) => (.error source, next)
  | (.ok (some more), next) => (.ok more, next)
  | (.ok none, next) => nextBlock next
termination_by reader.inner.length
decreasing_by exact length_of_blockRound _round

/-- Reads and validates the header. -/
def new (inner : List InnerRead) : Except IoError Unit × LzopReader :=
  (consumeHeader host).exec { inner := inner }

/-- Hands out as much of the block as the buffer holds. -/
def deliver (reader : LzopReader) (bufferLength : Nat) : List UInt8 × LzopReader :=
  let bytes := (reader.out.drop reader.outPos).take bufferLength
  (bytes, { reader with outPos := reader.outPos + bytes.length })

end

/-- What a call that goes on leaves to do. -/
theorem length_of_nextBlock {more : Bool} (done : nextBlock host reader = (.ok more, next)) :
    next.inner.length < reader.inner.length := by
  fun_induction nextBlock host reader with
  | case1 reader source last round => cases done
  | case2 reader more last round =>
    cases done
    exact length_of_blockRound round
  | case3 reader last round ih => exact (ih done).trans (length_of_blockRound round)

/-- `Read::read` of the decoder. -/
def read (host : LzopHost) (reader : LzopReader) (bufferLength : Nat) :
    Except IoError (List UInt8) × LzopReader :=
  if reader.outPos < reader.out.length then
    (.ok (reader.deliver bufferLength).1, (reader.deliver bufferLength).2)
  else if reader.finished then (.ok [], reader)
  else
    match _block : nextBlock host reader with
    | (.error source, next) => (.error source, next)
    | (.ok true, next) => read host next bufferLength
    | (.ok false, next) => read host { next with finished := true } bufferLength
termination_by reader.inner.length
decreasing_by
  · exact length_of_nextBlock _block
  · exact length_of_nextBlock _block

/-- `read` as a relation. -/
def Reads (host : LzopHost) (reader : LzopReader) (bufferLength : Nat)
    (answer : Except IoError (List UInt8)) (next : LzopReader) : Prop :=
  read host reader bufferLength = (answer, next)

/-- Opening a stream and reading it to the end with buffers of the given sizes. -/
def DecodesTo (host : LzopHost) (inner : List InnerRead) (sizes : Nat → Nat)
    (outcome : Except IoError (List UInt8)) : Prop :=
  match new host inner with
  | (.error source, _) => outcome = .error source
  | (.ok (), reader) => ∃ final, ReadsToEnd (Reads host) sizes reader outcome final

/-! ## Failures are reported -/

theorem reports_nextBlock (host : LzopHost) :
    ReportsFailures followedBy IsFailure (nextBlock host) := by
  intro reader
  induction size : reader.inner.length using Nat.strongRecOn generalizing reader with
  | _ count ih =>
    rcases (Takes.blockRound host).reports reader with ⟨result, middle, same⟩ | failing
    · match result, same with
      | .error source, same =>
        refine .inl ⟨.error source, middle, fun tail => ?_⟩
        rw [nextBlock, same]
      | .ok (some more), same =>
        refine .inl ⟨.ok more, middle, fun tail => ?_⟩
        rw [nextBlock, same]
      | .ok none, same =>
        have shorter := length_of_blockRound (same [])
        have less : middle.inner.length < count := by
          unfold followedBy at shorter
          simp only [List.append_nil] at shorter
          omega
        have again (tail : List InnerRead) :
            nextBlock host (followedBy reader tail) =
                nextBlock host (followedBy middle tail) := by
          rw [nextBlock, same]
        rcases ih _ less middle rfl with ⟨result, last, same'⟩ | failing
        · exact .inl ⟨result, last, fun tail => (again tail).trans (same' tail)⟩
        · refine .inr fun failure tail is => ?_
          obtain ⟨error, last, failed⟩ := failing failure tail is
          exact ⟨error, last, (again _).trans failed⟩
    · refine .inr fun failure tail is => ?_
      obtain ⟨error, last, failed⟩ := failing failure tail is
      refine ⟨error, last, ?_⟩
      rw [nextBlock, failed]

theorem reports_read (host : LzopHost) (bufferLength : Nat) :
    ReportsFailures followedBy IsFailure (read host · bufferLength) := by
  intro reader
  induction size : reader.inner.length using Nat.strongRecOn generalizing reader with
  | _ count ih =>
    by_cases left : reader.outPos < reader.out.length
    · refine .inl ⟨.ok (reader.deliver bufferLength).1, (reader.deliver bufferLength).2,
        fun tail => ?_⟩
      change read host (followedBy reader tail) bufferLength = _
      rw [read]
      exact if_pos left
    cases ended : reader.finished with
    | true =>
      refine .inl ⟨.ok [], reader, fun tail => ?_⟩
      change read host (followedBy reader tail) bufferLength = _
      rw [read]
      exact (if_neg left).trans (if_pos ended)
    | false =>
      have going (tail : List InnerRead) : ¬(followedBy reader tail).outPos <
          (followedBy reader tail).out.length := left
      have going' (tail : List InnerRead) : (followedBy reader tail).finished = false := ended
      rcases reports_nextBlock host reader with ⟨result, middle, same⟩ | failing
      · match result, same with
        | .error source, same =>
          refine .inl ⟨.error source, middle, fun tail => ?_⟩
          change read host (followedBy reader tail) bufferLength = _
          rw [read, if_neg (going tail), going', same]
          rfl
        | .ok more, same =>
          have shorter := length_of_nextBlock (same [])
          have less : middle.inner.length < count := by
            unfold followedBy at shorter
            simp only [List.append_nil] at shorter
            omega
          generalize again : (if more then middle else { middle with finished := true }) =
            onward
          have less' : onward.inner.length < count := by
            subst again
            cases more <;> exact less
          have step (tail : List InnerRead) :
              read host (followedBy reader tail) bufferLength =
              read host (followedBy onward tail) bufferLength := by
            rw [read, if_neg (going tail), going', same]
            subst again
            cases more <;> rfl
          rcases ih _ less' onward rfl with ⟨result, last, same'⟩ | failing
          · exact .inl ⟨result, last, fun tail => (step tail).trans (same' tail)⟩
          · refine .inr fun failure tail is => ?_
            obtain ⟨error, last, failed⟩ := failing failure tail is
            exact ⟨error, last, (step _).trans failed⟩
      · refine .inr fun failure tail is => ?_
        obtain ⟨error, last, failed⟩ := failing failure tail is
        refine ⟨error, last, ?_⟩
        dsimp only
        rw [read, if_neg (going _), going', failed]
        rfl

/-- The answers that are left, and the bytes that are left. -/
def rank (reader : LzopReader) : Nat ×ₗ Nat :=
  toLex (reader.inner.length, reader.out.length - reader.outPos)

/-- Bytes that are handed out have been taken from the block or from the source. -/
theorem rank_of_read {bufferLength : Nat} (room : 0 < bufferLength) {bytes : List UInt8}
    (some : bytes ≠ []) (done : read host reader bufferLength = (.ok bytes, next)) :
    next.rank < reader.rank := by
  fun_induction read host reader bufferLength with
  | case1 reader left =>
    cases done
    refine Prod.Lex.toLex_lt_toLex.mpr (.inr ⟨rfl, ?_⟩)
    change reader.out.length -
      (reader.outPos + ((reader.out.drop reader.outPos).take bufferLength).length) <
        reader.out.length - reader.outPos
    rw [List.length_take, List.length_drop]
    omega
  | case2 reader left ended =>
    cases done
    exact absurd rfl some
  | case3 reader left going source last block => cases done
  | case4 reader left going last block ih =>
    refine (ih done).trans (Prod.Lex.toLex_lt_toLex.mpr (.inl ?_))
    exact length_of_nextBlock block
  | case5 reader left going last block ih =>
    refine (ih done).trans (Prod.Lex.toLex_lt_toLex.mpr (.inl ?_))
    exact (length_of_nextBlock block :)

/-- Reading a stream comes to an outcome. -/
theorem exists_decodesTo (host : LzopHost) (inner : List InnerRead) {sizes : Nat → Nat}
    (positive : ∀ index, 0 < sizes index) : ∃ outcome, DecodesTo host inner sizes outcome := by
  unfold DecodesTo
  rcases new host inner with ⟨answer, reader⟩
  cases answer with
  | error source => exact ⟨_, rfl⟩
  | ok _ =>
    obtain ⟨outcome, final, reads⟩ := @exists_readsToEnd _ _ _ (Reads host) sizes reader _ _ _
      (fun _ => True) rank (fun {state size} _ room => ⟨_, _, rfl, fun bytes same some =>
        ⟨trivial, rank_of_read room some (Prod.ext same rfl)⟩⟩) positive trivial
    exact ⟨outcome, final, reads⟩

/-- **A failure of the source is reported**, unless the outcome is the same whatever stands
in its place. -/
theorem decodesTo_of_failure {front tail : List InnerRead} {source : IoError}
    {sizes : Nat → Nat} {outcome : Except IoError (List UInt8)}
    (decodes : DecodesTo host (front ++ .failed source :: tail) sizes outcome) :
    (∃ error, outcome = .error error) ∨ ∀ other, DecodesTo host (front ++ other) sizes outcome := by
  have is : IsFailure (.failed source) := ⟨source, rfl⟩
  unfold DecodesTo new at decodes ⊢
  rcases (Takes.consumeHeader host).reports { inner := front } with ⟨result, reader, same⟩ | failing
  · have opened (tail : List InnerRead) :
        (consumeHeader host).exec { inner := front ++ tail } =
          (result, followedBy reader tail) := same tail
    rw [opened] at decodes
    cases result with
    | error failure => exact .inl ⟨failure, decodes⟩
    | ok _ =>
      obtain ⟨final, reads⟩ := decodes
      rcases ReadsToEnd.of_failure (reports_read host) is reads with error | further
      · exact .inl error
      · refine .inr fun other => ?_
        rw [opened]
        exact further other
  · obtain ⟨error, reader, failed⟩ := failing _ tail is
    have opened : (consumeHeader host).exec { inner := front ++ .failed source :: tail } =
        (.error error, reader) := failed
    rw [opened] at decodes
    exact .inl ⟨error, decodes⟩

end LzopReader

end ZManager
