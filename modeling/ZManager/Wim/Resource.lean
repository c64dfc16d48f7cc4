import Mathlib.Data.List.Forall2
import ZManager.Foundation.Slice

/-! # WIM resources in chunks

A compressed resource is a table of the chunks' end offsets and the chunks, each stored verbatim
or compressed. A resource of one chunk has no table, and its chunk goes to the decompressor
whatever its length.
-/

namespace ZManager

open Bytes

namespace Wim

/-- The compression of the chunks. -/
inductive WimCompression where
  | none
  | lzx
  | xpress
  | lzms
  deriving Repr, DecidableEq

def maxWimChunkSize : Nat := 32768

/-- A fresh decoder's `decompress_next`, and `xpress_huffman::decompress`. -/
structure ChunkCodecs where
  lzx : List UInt8 → Nat → Except String (List UInt8)
  xpress : List UInt8 → Nat → Except String (List UInt8)

/-- Decompresses one chunk of a resource. -/
def ChunkCodecs.decompressChunk (codecs : ChunkCodecs) (compression : WimCompression)
    (compressed : List UInt8) (uncompressedSize : Nat) : Except String (List UInt8) :=
  match compression with
  | .none => .ok (compressed.take uncompressedSize)
  | .lzx =>
    if maxWimChunkSize < uncompressedSize then
      .error (s!"WIM LZX chunk is {uncompressedSize} bytes; this decoder supports at most {
        maxWimChunkSize} bytes")
    else
      match codecs.lzx compressed uncompressedSize with
      | .ok bytes => .ok bytes
      | .error error => .error s!"WIM LZX decompression failed: {error}"
  | .xpress =>
    match codecs.xpress compressed uncompressedSize with
    | .ok bytes => .ok bytes
    | .error error => .error s!"XPRESS decompression failed: {error}"
  | .lzms => .error "LZMS decompression is not supported"

/-- The width of the entries of a chunk table. -/
def entrySize (originalSize : Nat) : Nat := if 2 ^ 32 - 1 < originalSize then 8 else 4

/-- An entry of a chunk table. -/
def readEntry (entrySize : Nat) (table : List UInt8) (index : Nat) : Nat :=
  if entrySize = 8 then readU64 table (index * entrySize) else readU32 table (index * entrySize)

section

variable (decompressChunk : List UInt8 → Nat → Except String (List UInt8))

/-- The loop of `decompress_resource` over the chunks that are left. -/
def chunkLoop (table chunkData : List UInt8) (originalSize chunkSize : Nat) :
    (left index chunkStart : Nat) → List UInt8 → Except String (List UInt8)
  | 0, _, _, output => .ok output
  | left + 1, index, chunkStart, output =>
    let chunkEnd :=
      if left = 0 then chunkData.length else readEntry (entrySize originalSize) table index
    if chunkEnd < chunkStart ∨ chunkData.length < chunkEnd then
      .error (s!"chunk {index} spans {chunkStart}..{chunkEnd}, outside the {
        chunkData.length} byte chunk area")
    else
      -- a difference of words
      let expected := min (wrappingAdd originalSize (2 ^ 64 - output.length)) chunkSize
      let chunk := (chunkData.drop chunkStart).take (chunkEnd - chunkStart)
      if chunk.length = expected then
        chunkLoop table chunkData originalSize chunkSize left (index + 1) chunkEnd
          (output ++ chunk)
      else
        match decompressChunk chunk expected with
        | .error message => .error message
        | .ok bytes =>
          chunkLoop table chunkData originalSize chunkSize left (index + 1) chunkEnd
            (output ++ bytes)

/-- Decompresses one chunked WIM resource. -/
def decompressResource (stored : List UInt8) (originalSize chunkSize : Nat) :
    Except String (List UInt8) :=
  -- A single-chunk resource carries no chunk table.
  if originalSize ≤ chunkSize then decompressChunk stored originalSize
  else
    let chunkCount := (originalSize + chunkSize - 1) / chunkSize
    let tableSize := (chunkCount - 1) * entrySize originalSize
    if 2 ^ 64 ≤ tableSize then .error "chunk table size overflow"
    else if stored.length < tableSize then
      .error (s!"stored resource is {stored.length} bytes, shorter than its {
        tableSize} byte chunk table")
    else
      match chunkLoop decompressChunk (stored.take tableSize) (stored.drop tableSize) originalSize
        chunkSize chunkCount 0 0 [] with
      | .error message => .error message
      | .ok output =>
        if output.length ≠ originalSize then
          .error s!"resource decoded to {output.length} bytes, expected {originalSize}"
        else .ok output

end

/-! ## Resources as they are written -/

/-- Data is cut into chunks of one size with a shorter one at the end. -/
def Cut (size : Nat) : List (List UInt8) → Prop
  | [] => False
  | [last] => 0 < last.length ∧ last.length ≤ size
  | chunk :: next :: rest => chunk.length = size ∧ Cut size (next :: rest)

/-- The end offsets of all chunks but the last. -/
def endOffsets : Nat → List (List UInt8) → List Nat
  | start, chunk :: next :: rest =>
    (start + chunk.length) :: endOffsets (start + chunk.length) (next :: rest)
  | _, _ => []

def leEntry (entrySize number : Nat) : List UInt8 :=
  if entrySize = 8 then leU64 number else leU32 number

/-- The chunk table and the chunks as they are stored. -/
def storedForm (originalSize : Nat) (stored : List (List UInt8)) : List UInt8 :=
  (endOffsets 0 stored).flatMap (leEntry (entrySize originalSize)) ++ stored.flatten

/-- A chunk is stored verbatim or as something of another length that is decompressed to it. -/
def StoredAs (decompressChunk : List UInt8 → Nat → Except String (List UInt8))
    (chunk stored : List UInt8) : Prop :=
  stored = chunk ∨ stored.length ≠ chunk.length ∧ decompressChunk stored chunk.length = .ok chunk

/-- A resource in memory with its chunks and how they are stored. -/
structure Resource (decompressChunk : List UInt8 → Nat → Except String (List UInt8))
    (chunkSize : Nat) where
  chunks : List (List UInt8)
  stored : List (List UInt8)
  cut : Cut chunkSize chunks
  forms : List.Forall₂ (StoredAs decompressChunk) chunks stored
  /-- The offsets have entries in the table. -/
  fits : ∀ offset ∈ endOffsets 0 stored, offset < 2 ^ (8 * entrySize chunks.flatten.length)
  /-- The data and its stored form are in memory. -/
  addressable : chunks.flatten.length < 2 ^ 63 ∧
    (storedForm chunks.flatten.length stored).length < 2 ^ 63

/-! ## Reading back -/

section

variable {decompressChunk : List UInt8 → Nat → Except String (List UInt8)} {size : Nat}

variable {chunks : List (List UInt8)}

theorem Cut.bounds (cut : Cut size chunks) :
    (chunks.length - 1) * size < chunks.flatten.length ∧
      chunks.flatten.length ≤ chunks.length * size := by
  induction chunks with
  | nil => exact cut.elim
  | cons chunk rest ih =>
    cases rest with
    | nil =>
      obtain ⟨some_, short⟩ := cut
      simpa using ⟨some_, short⟩
    | cons next rest =>
      obtain ⟨full, cut⟩ := cut
      obtain ⟨low, high⟩ := ih cut
      rw [List.flatten_cons, List.length_append, full]
      simp only [List.length_cons, Nat.add_sub_cancel, Nat.succ_mul] at low high ⊢
      omega

/-- The number of chunks is the quotient rounded up. -/
theorem Cut.count (cut : Cut size chunks) (positive : 0 < size) :
    (chunks.flatten.length + size - 1) / size = chunks.length := by
  obtain ⟨low, high⟩ := cut.bounds
  have some_ : 0 < chunks.length := by
    cases chunks with
    | nil => exact cut.elim
    | cons => simp
  have split : chunks.length * size = (chunks.length - 1) * size + size := by
    rw [← Nat.succ_mul, Nat.succ_eq_add_one, Nat.sub_add_cancel some_]
  rw [Nat.div_eq_iff positive]
  omega

theorem length_leEntry (originalSize number : Nat) :
    (leEntry (entrySize originalSize) number).length = entrySize originalSize := by
  unfold leEntry entrySize
  split <;> simp_all

theorem readEntry_leEntry (originalSize : Nat) {number : Nat}
    (fits : number < 2 ^ (8 * entrySize originalSize)) {front : List UInt8} {index : Nat}
    (place : front.length = index * entrySize originalSize) (back : List UInt8) :
    readEntry (entrySize originalSize)
      (front ++ (leEntry (entrySize originalSize) number ++ back)) index = number := by
  unfold readEntry leEntry
  rw [← place]
  by_cases long : 2 ^ 32 - 1 < originalSize
  · have width : entrySize originalSize = 8 := if_pos long
    have shifted := readU64_append_right front (leU64 number ++ back) 0
    rw [width] at fits
    rw [Nat.add_zero] at shifted
    rw [if_pos width, if_pos width, shifted, readU64_leU64 fits]
  · have width : entrySize originalSize = 4 := if_neg long
    have narrow : entrySize originalSize ≠ 8 := by omega
    have shifted := readU32_append_right front (leU32 number ++ back) 0
    rw [width] at fits
    rw [Nat.add_zero] at shifted
    rw [if_neg narrow, if_neg narrow, shifted, readU32_leU32 fits]

/-- One round of the loop over a chunk that is stored as it may be. -/
theorem chunkLoop_succ {chunk stored front back table output : List UInt8}
    (form : StoredAs decompressChunk chunk stored) {originalSize left index : Nat}
    (ending : (if left = 0 then (front ++ (stored ++ back)).length
      else readEntry (entrySize originalSize) table index) = front.length + stored.length)
    (small : originalSize < 2 ^ 63) (done : output.length ≤ originalSize)
    (width : min (originalSize - output.length) size = chunk.length) :
    chunkLoop decompressChunk table (front ++ (stored ++ back)) originalSize size (left + 1) index
        front.length output =
      chunkLoop decompressChunk table (front ++ (stored ++ back)) originalSize size left (index + 1)
        (front.length + stored.length) (output ++ chunk) := by
  have expected : min (wrappingAdd originalSize (2 ^ 64 - output.length)) size = chunk.length := by
    rw [← width]
    congr 1
    unfold wrappingAdd
    omega
  have inside : ¬(front.length + stored.length < front.length ∨
      (front ++ (stored ++ back)).length < front.length + stored.length) := by
    simp only [List.length_append]
    omega
  have piece : ((front ++ (stored ++ back)).drop front.length).take
      (front.length + stored.length - front.length) = stored := by
    rw [List.drop_left, Nat.add_sub_cancel_left, List.take_left]
  rw [chunkLoop]
  dsimp only
  rw [ending, if_neg inside, piece, expected]
  rcases form with rfl | ⟨other, decoded⟩
  · rw [if_pos rfl]
  · rw [if_neg other, decoded]

theorem chunkLoop_forms {chunks stored : List (List UInt8)} (cut : Cut size chunks)
    (forms : List.Forall₂ (StoredAs decompressChunk) chunks stored)
    {front output entries : List UInt8} {originalSize index : Nat}
    (place : entries.length = index * entrySize originalSize)
    (fits : ∀ offset ∈ endOffsets front.length stored, offset < 2 ^ (8 * entrySize originalSize))
    (whole : originalSize = output.length + chunks.flatten.length)
    (small : originalSize < 2 ^ 63) :
    chunkLoop decompressChunk
      (entries ++ (endOffsets front.length stored).flatMap (leEntry (entrySize originalSize)))
      (front ++ stored.flatten) originalSize size chunks.length index front.length output =
        .ok (output ++ chunks.flatten) := by
  induction forms generalizing front output entries index with
  | nil => exact cut.elim
  | @cons chunk first chunks stored form forms ih =>
    rw [List.flatten_cons, List.length_append] at whole
    cases forms with
    | nil =>
      obtain ⟨some_, short⟩ := cut
      rw [List.length_singleton, List.flatten_cons, chunkLoop_succ form, chunkLoop]
      · simp
      · rw [if_pos rfl]
        simp
      · exact small
      · omega
      · rw [whole]
        simp only [List.flatten_nil, List.length_nil]
        omega
    | @cons next second rest others form' forms' =>
      obtain ⟨full, cut⟩ := cut
      have offsets : endOffsets front.length (first :: second :: others) =
          (front.length + first.length) ::
            endOffsets (front.length + first.length) (second :: others) := rfl
      rw [offsets] at fits ⊢
      have one := fits _ List.mem_cons_self
      rw [List.flatMap_cons, List.length_cons, List.flatten_cons, chunkLoop_succ form]
      · have round := @ih cut (front ++ first) (output ++ chunk)
          (entries ++ leEntry (entrySize originalSize) (front.length + first.length)) (index + 1)
          (by rw [List.length_append, place, length_leEntry, Nat.succ_mul])
          (by
            rw [List.length_append]
            exact fun offset member => fits offset (List.mem_cons_of_mem _ member))
          (by rw [List.length_append]; omega)
        simp only [List.length_append, List.append_assoc] at round
        rw [round]
        simp
      · rw [if_neg (by simp), readEntry_leEntry originalSize one place]
      · exact small
      · omega
      · have more := cut.bounds.1
        have rest := Nat.lt_of_le_of_lt (Nat.zero_le _) more
        rw [full]
        omega

theorem length_endOffsets (start : Nat) (stored : List (List UInt8)) :
    (endOffsets start stored).length = stored.length - 1 := by
  induction stored generalizing start with
  | nil => rfl
  | cons chunk rest ih =>
    cases rest with
    | nil => rfl
    | cons next rest => rw [endOffsets, List.length_cons, ih]; simp

theorem length_table (originalSize start : Nat) (stored : List (List UInt8)) :
    ((endOffsets start stored).flatMap (leEntry (entrySize originalSize))).length =
      (stored.length - 1) * entrySize originalSize := by
  rw [List.length_flatMap, List.map_congr_left fun number _ => length_leEntry originalSize number,
    List.map_const', List.sum_replicate_nat, length_endOffsets]

theorem Cut.positive (cut : Cut size chunks) : 0 < size := by
  obtain ⟨low, high⟩ := cut.bounds
  rcases Nat.eq_zero_or_pos size with rfl | positive
  · omega
  · exact positive

namespace Resource

variable (resource : Resource decompressChunk size)

def data : List UInt8 := resource.chunks.flatten

def bytes : List UInt8 := storedForm resource.data.length resource.stored

/-- A resource of several chunks is read back. -/
theorem decompress_of_several (several : 2 ≤ resource.chunks.length) :
    decompressResource decompressChunk resource.bytes resource.data.length size =
      .ok resource.data := by
  have positive := resource.cut.positive
  have bounds := resource.cut.bounds
  have long : size < resource.data.length := by
    have : 1 * size ≤ (resource.chunks.length - 1) * size :=
      Nat.mul_le_mul_right size (by omega)
    unfold data
    omega
  have count := resource.cut.count positive
  have same := resource.forms.length_eq
  have table := length_table resource.data.length 0 resource.stored
  have round := @chunkLoop_forms _ _ _ _ resource.cut resource.forms [] [] []
    resource.chunks.flatten.length 0 (by simp) resource.fits (by simp) resource.addressable.1
  have fits : (resource.stored.length - 1) * entrySize resource.data.length ≤
      resource.bytes.length := by
    rw [← table]
    unfold bytes storedForm
    rw [List.length_append]
    exact Nat.le_add_right ..
  have inMemory : resource.bytes.length < 2 ^ 63 := resource.addressable.2
  unfold decompressResource
  dsimp only
  rw [if_neg (by omega), show (resource.data.length + size - 1) / size =
    resource.chunks.length from count, same, if_neg (by omega), if_neg (by omega), ← table]
  unfold bytes storedForm
  rw [List.take_left, List.drop_left, ← same]
  rw [List.length_nil, List.nil_append, List.nil_append, List.nil_append] at round
  rw [show resource.data.length = resource.chunks.flatten.length from rfl, round]
  exact if_neg fun other => other rfl

/-- **Chunked resources round trip.** A resource is read back unless it is one chunk that is
stored verbatim and that the decompressor does not take for itself. -/
theorem decompress_resource_iff :
    decompressResource decompressChunk resource.bytes resource.data.length size =
        .ok resource.data ↔
      2 ≤ resource.chunks.length ∨ resource.stored ≠ resource.chunks ∨
        decompressChunk resource.data resource.data.length = .ok resource.data := by
  by_cases several : 2 ≤ resource.chunks.length
  · exact iff_of_true (resource.decompress_of_several several) (.inl several)
  · obtain ⟨chunks, stored, cut, forms, fits, addressable⟩ := resource
    cases forms with
    | nil => exact cut.elim
    | @cons chunk only _ _ form forms =>
      cases forms with
      | cons => exact absurd (by simp) several
      | nil =>
        obtain ⟨some_, short⟩ := cut
        simp only [data, bytes, storedForm, endOffsets, List.flatMap_nil, List.nil_append,
          List.flatten_singleton, List.length_singleton, decompressResource, if_pos short]
        constructor
        · intro read
          by_cases verbatim : only = chunk
          · exact .inr (.inr (verbatim ▸ read))
          · exact .inr (.inl (by simpa using verbatim))
        · rintro (several | other | itself)
          · omega
          · obtain same | ⟨-, decoded⟩ := form
            · exact absurd (by rw [same]) other
            · exact decoded
          · obtain rfl | ⟨-, decoded⟩ := form
            · exact itself
            · exact decoded

end Resource

end

/-- A codec whose compressed chunks begin with a mark. -/
def unmark : List UInt8 → Nat → Except String (List UInt8)
  | 0 :: chunk, size => if chunk.length = size then .ok chunk else .error "wrong length"
  | _, _ => .error "no mark"

/-- Two chunks that are stored verbatim and a compressed one between them. -/
def mixedChunks : Resource unmark 2 where
  chunks := [[1, 2], [5, 6], [9]]
  stored := [[1, 2], [0, 5, 6], [9]]
  cut := ⟨rfl, rfl, by decide, by decide⟩
  forms := .cons (.inl rfl) (.cons (.inr (by decide)) (.cons (.inl rfl) .nil))
  fits := by decide
  addressable := by decide

theorem mixed_chunks_are_read_back :
    decompressResource unmark mixedChunks.bytes 5 2 = .ok [1, 2, 5, 6, 9] :=
  mixedChunks.decompress_resource_iff.mpr (.inl (by decide))

/-- One chunk of one byte, stored verbatim. -/
def oneVerbatimByte : Resource unmark 1 where
  chunks := [[7]]
  stored := [[7]]
  cut := ⟨by decide, by decide⟩
  forms := .cons (.inl rfl) .nil
  fits := fun _ member => absurd member List.not_mem_nil
  addressable := by decide

theorem single_verbatim_chunk_is_decompressed :
    ¬ ∀ (decompressChunk : List UInt8 → Nat → Except String (List UInt8))
      (encode : List UInt8 → List UInt8),
      (∀ chunk, decompressChunk (encode chunk) chunk.length = .ok chunk) →
      ∀ (size : Nat) (resource : Resource decompressChunk size),
        decompressResource decompressChunk resource.bytes resource.data.length size =
          .ok resource.data := by
  intro always
  have read := always unmark (0 :: ·) (fun chunk => if_pos rfl) 1 oneVerbatimByte
  revert read
  decide

end Wim

end ZManager
