import ZManager.Foundation.Lzw
import ZManager.Safety.Policy

/-! # The decoder for Unix compress streams

The inner reader is asked for single bytes. The decoder collects the bits of a
code, expands the code backwards onto a stack and hands out the stack from the
top. An index outside its array and a loop that goes on for ever are faults of
their own.
-/

namespace ZManager

/-- An answer of an inner reader to a read of one byte. -/
inductive InnerRead where
  | byte (value : UInt8)
  | endOfData
  | interrupted
  | failed (source : IoError)

namespace UnixCompress

def outBlockSize : Nat := 64 * 1024

def dictionarySize : Nat := 65536

def stackCapacity : Nat := 65300

/-- A failed read, a panic, or a loop that does not end. -/
inductive Fault where
  | io (source : IoError)
  | indexOutOfBounds
  | runsOn
  deriving DecidableEq

def invalidData (message : String) : Fault := .io ⟨.invalidData, message⟩

def truncated : Fault := invalidData "truncated compress stream"

def invalidCompressedData : Fault := invalidData "invalid compressed data"

def entryTooLong : Fault := invalidData "compress stream dictionary entry too long"

/-! ## Bits -/

/-- The inner reader and the bits read ahead. -/
structure Input where
  inner : List InnerRead
  bitBuffer : UInt32 := 0
  bitsAvail : Nat := 0
  bytesInSection : Nat := 0

def mask : List UInt32 :=
  [0x00, 0x01, 0x03, 0x07, 0x0f, 0x1f, 0x3f, 0x7f, 0xff, 0x1ff, 0x3ff, 0x7ff, 0xfff, 0x1fff,
    0x3fff, 0x7fff, 0xffff]

def Input.pushByte (input : Input) (value : UInt8) : Input :=
  { input with
    bitBuffer := input.bitBuffer ||| value.toUInt32 <<< UInt32.ofNat input.bitsAvail
    bitsAvail := input.bitsAvail + 8
    bytesInSection := input.bytesInSection + 1 }

/-- Reads bytes until `n` bits are there. -/
def refill (n : Nat) : List InnerRead → Input → Bool × Input
  | inner, input =>
    if input.bitsAvail < n then
      match inner with
      | [] => (false, { input with inner := [] })
      | .endOfData :: rest | .failed _ :: rest => (false, { input with inner := rest })
      | .interrupted :: rest => refill n rest input
      | .byte value :: rest => refill n rest (input.pushByte value)
    else (true, { input with inner := inner })

/-- The next code of the given width. -/
def Input.getbits (input : Input) (n : Nat) : Except Fault (Option Nat) × Input :=
  match refill n input.inner input with
  | (false, input) => (.ok none, input)
  | (true, input) =>
    let code := input.bitBuffer
    let input := { input with
      bitBuffer := input.bitBuffer >>> UInt32.ofNat n
      bitsAvail := input.bitsAvail - n }
    match mask[n]? with
    | none => (.error .indexOutOfBounds, input)
    | some ones => (.ok (some (code &&& ones).toNat), input)

/-- Skips bytes, unless the data ends before. -/
def Input.skip : Nat → Input → Except Fault Bool × Input
  | 0, input => (.ok true, input)
  | count + 1, input =>
    match input.getbits 8 with
    | (.error fault, input) => (.error fault, input)
    | (.ok none, input) => (.ok false, input)
    | (.ok (some _), input) => Input.skip count input

/-! ## Codes -/

/-- The dictionary and what is known of the code before. -/
structure Status where
  maxcode : Nat := 0
  maxcodeBits : Nat := 0
  sectionEndCode : Nat := 0
  bits : Nat := 0
  /-- None stands for `-1`. -/
  oldcode : Option Nat := none
  finbyte : UInt8 := 0
  freeEnt : Nat := 0
  useResetCode : Bool := false
  suffixTable : Nat → UInt8 := fun _ => 0
  prefixTable : Nat → UInt16 := fun _ => 0

def pushStack (stack : List UInt8) (byte : UInt8) : Except Fault Unit × List UInt8 :=
  if stackCapacity ≤ stack.length then (.error entryTooLong, stack) else (.ok (), byte :: stack)

/-- The loop that expands a code down to a literal. -/
def Status.expand (status : Status) :
    (rounds code : Nat) → (stack : List UInt8) → Except Fault Nat × List UInt8
  | 0, code, stack => if 256 ≤ code then (.error .runsOn, stack) else (.ok code, stack)
  | rounds + 1, code, stack =>
    if 256 ≤ code then
      if code < dictionarySize then
        match pushStack stack (status.suffixTable code) with
        | (.error fault, stack) => (.error fault, stack)
        | (.ok (), stack) => Status.expand status rounds (status.prefixTable code).toNat stack
      else (.error .indexOutOfBounds, stack)
    else (.ok code, stack)

/-- The new dictionary entry, if there is room and a code before. -/
def Status.addEntry (status : Status) (finbyte : UInt8) : Except Fault Status :=
  match status.oldcode with
  | some oldcode =>
    if status.freeEnt < status.maxcode then
      if status.freeEnt < dictionarySize then
        .ok { status with
          prefixTable := fun code =>
            if code = status.freeEnt then
              if oldcode < 65536 then UInt16.ofNat oldcode else 0
            else status.prefixTable code
          suffixTable := fun code =>
            if code = status.freeEnt then finbyte else status.suffixTable code
          freeEnt := status.freeEnt + 1 }
      else .error .indexOutOfBounds
    else .ok status
  | none => .ok status

/-- The code width behind a new entry. -/
def Status.widen (status : Status) : Status :=
  if status.sectionEndCode < status.freeEnt then
    { status with
      bits := status.bits + 1
      sectionEndCode :=
        if status.bits + 1 = status.maxcodeBits then status.maxcode
        else 2 ^ (status.bits + 1) - 1 }
  else status

/-- The dictionary behind a reset; the entries stay behind. -/
def Status.reset (status : Status) : Status :=
  { status with bits := 9, sectionEndCode := 2 ^ 9 - 1, freeEnt := 257, oldcode := none }

end UnixCompress

open UnixCompress

/-- Decodes a `.Z` stream while it is read. -/
structure UnixCompressReader where
  input : Input
  status : Status := {}
  /-- The top comes first. -/
  stack : List UInt8 := []
  out : List UInt8 := []
  outPos : Nat := 0
  endOfStream : Bool := false
  /-- The codes extracted so far, which the decoder does not keep. -/
  codes : List Nat := []

namespace UnixCompressReader

/-- Decodes a code that is no reset. -/
def decodeCode (reader : UnixCompressReader) (newcode : Nat) :
    Except Fault Bool × UnixCompressReader :=
  let status := reader.status
  if status.freeEnt < newcode ∨ (newcode = status.freeEnt ∧ status.oldcode = none) then
    (.error invalidCompressedData, reader)
  else
    let pushed := if status.freeEnt ≤ newcode then pushStack reader.stack status.finbyte
      else (.ok (), reader.stack)
    let code := if status.freeEnt ≤ newcode then status.oldcode.getD 0 else newcode
    match pushed with
    | (.error fault, stack) => (.error fault, { reader with stack := stack })
    | (.ok (), stack) =>
      match status.expand dictionarySize code stack with
      | (.error fault, stack) => (.error fault, { reader with stack := stack })
      | (.ok code, stack) =>
        let finbyte := if code < 256 then UInt8.ofNat code else 0
        match pushStack stack finbyte with
        | (.error fault, stack) =>
          (.error fault,
            { reader with stack := stack, status := { status with finbyte := finbyte } })
        | (.ok (), stack) =>
          match { status with finbyte := finbyte }.addEntry finbyte with
          | .error fault =>
            (.error fault,
              { reader with stack := stack, status := { status with finbyte := finbyte } })
          | .ok status =>
            (.ok true, { reader with
              stack := stack
              input := if status.sectionEndCode < status.freeEnt then
                { reader.input with bytesInSection := 0 } else reader.input
              status := { status.widen with oldcode := some newcode } })

/-- Resets the dictionary and skips the junk up to the next code. -/
def resetDictionary (reader : UnixCompressReader) :
    Except Fault (Option Bool) × UnixCompressReader :=
  let bits := reader.status.bits
  let skipBytes := (bits - reader.input.bytesInSection % bits) % bits
  match { reader.input with bitsAvail := 0 }.skip skipBytes with
  | (.error fault, input) => (.error fault, { reader with input := input })
  | (.ok false, input) => (.ok (some false), { reader with input := input })
  | (.ok true, input) =>
    (.ok none, { reader with
      input := { input with bytesInSection := 0 }
      status := reader.status.reset })

/-- One round of the loop over codes: what it returns, or nothing after a reset. -/
def nextCodeRound (reader : UnixCompressReader) :
    Except Fault (Option Bool) × UnixCompressReader :=
  match reader.input.getbits reader.status.bits with
  | (.error fault, input) => (.error fault, { reader with input := input })
  | (.ok none, input) => (.ok (some false), { reader with input := input })
  | (.ok (some code), input) =>
    let taken := { reader with input := input, codes := reader.codes ++ [code] }
    if code = 256 ∧ reader.status.useResetCode = true then taken.resetDictionary
    else
      match taken.decodeCode code with
      | (.error fault, reader) => (.error fault, reader)
      | (.ok more, reader) => (.ok (some more), reader)

def nextCodeRounds : (rounds : Nat) → UnixCompressReader → Except Fault Bool × UnixCompressReader
  | 0, reader => (.error .runsOn, reader)
  | rounds + 1, reader =>
    match reader.nextCodeRound with
    | (.error fault, reader) => (.error fault, reader)
    | (.ok (some more), reader) => (.ok more, reader)
    | (.ok none, reader) => nextCodeRounds rounds reader

/-- Every round but the last consumes an answer of the inner reader. -/
def nextCode (reader : UnixCompressReader) : Except Fault Bool × UnixCompressReader :=
  nextCodeRounds (reader.input.inner.length + 1) reader

/-! ## Opening and reading -/

def headerByte (input : Input) : Except Fault Nat × Input :=
  match input.getbits 8 with
  | (.error fault, input) => (.error fault, input)
  | (.ok none, input) => (.error truncated, input)
  | (.ok (some byte), input) => (.ok byte, input)

/-- The decompressor as the parameters of the header set it up. -/
def initialStatus (parameters : Nat) : Status :=
  let maxcodeBits := parameters &&& 0x1f
  let useResetCode := decide (parameters &&& 0x80 ≠ 0)
  { maxcodeBits := maxcodeBits
    maxcode := 2 ^ maxcodeBits
    useResetCode := useResetCode
    freeEnt := if useResetCode then 257 else 256
    bits := 9
    sectionEndCode := 2 ^ 9 - 1
    suffixTable := fun code => if code < 256 then UInt8.ofNat code else 0 }

/-- The header of a stream. -/
def readHeader (inner : List InnerRead) : Except Fault Status × Input :=
  match headerByte { inner := inner } with
  | (.error fault, input) => (.error fault, input)
  | (.ok first, input) =>
    match headerByte input with
    | (.error fault, input) => (.error fault, input)
    | (.ok second, input) =>
      if first ≠ 0x1f ∨ second ≠ 0x9d then (.error (invalidData "not a compress stream"), input)
      else
        match headerByte input with
        | (.error fault, input) => (.error fault, input)
        | (.ok parameters, input) =>
          if parameters &&& 0x20 ≠ 0 ∨ parameters &&& 0x40 ≠ 0 then
            (.error (invalidData "invalid compress stream parameters"), input)
          else if 16 < parameters &&& 0x1f then (.error invalidCompressedData, input)
          else (.ok (initialStatus parameters), input)

/-- Opens a stream. The decoder that is left behind on an error is dropped. -/
def new (inner : List InnerRead) : Except Fault Unit × UnixCompressReader :=
  match readHeader inner with
  | (.error fault, input) => (.error fault, { input := input })
  | (.ok status, input) =>
    match ({ input := input, status := status } : UnixCompressReader).nextCode with
    | (.error fault, reader) => (.error fault, reader)
    | (.ok _, reader) => (.ok (), reader)

def fillRounds : (rounds : Nat) → UnixCompressReader → Except Fault Unit × UnixCompressReader
  | 0, reader => (.error .runsOn, reader)
  | rounds + 1, reader =>
    if reader.out.length < outBlockSize ∧ reader.endOfStream = false then
      match reader.stack with
      | byte :: stack => fillRounds rounds { reader with stack := stack, out := reader.out ++
          [byte] }
      | [] =>
        match reader.nextCode with
        | (.error fault, reader) => (.error fault, reader)
        | (.ok true, reader) => fillRounds rounds reader
        | (.ok false, reader) => fillRounds rounds { reader with endOfStream := true }
    else (.ok (), { reader with outPos := 0 })

/-- One of two rounds hands out a byte, so these suffice for a block. -/
def fillOutBlock (reader : UnixCompressReader) : Except Fault Unit × UnixCompressReader :=
  fillRounds (2 * outBlockSize + 3) { reader with out := [] }

def readRounds : (rounds : Nat) → UnixCompressReader → (bufferLength : Nat) →
    Except Fault (List UInt8) × UnixCompressReader
  | 0, reader, _ => (.error .runsOn, reader)
  | rounds + 1, reader, bufferLength =>
    if reader.outPos < reader.out.length then
      let bytes := (reader.out.drop reader.outPos).take bufferLength
      (.ok bytes, { reader with outPos := reader.outPos + bytes.length })
    else if reader.endOfStream then (.ok [], reader)
    else
      match reader.fillOutBlock with
      | (.error fault, reader) => (.error fault, reader)
      | (.ok (), reader) => readRounds rounds reader bufferLength

/-- A block that is filled is not empty, or the stream has ended. -/
def read (reader : UnixCompressReader) (bufferLength : Nat) :
    Except Fault (List UInt8) × UnixCompressReader :=
  readRounds 2 reader bufferLength

end UnixCompressReader

end ZManager
