import ZManager.Disk.Isz

/-! # A compressed ISO image reads like the image it was made of

The chunks of an image lie back to back, so the place of each is behind the lengths of those before
it. What is decoded for a block begins with the block's bytes, and so does what is cached; the
reads then give the bytes of the disk in any order.
-/

namespace ZManager.Disk

/-! ## Pointers -/

/-- A number in bytes, the lowest one first. -/
def leBytes : Nat → Nat → List UInt8
  | 0, _ => []
  | width + 1, number => UInt8.ofNat number :: leBytes width (number / 256)

@[simp] theorem length_leBytes (width number : Nat) : (leBytes width number).length = width := by
  induction width generalizing number with
  | zero => rfl
  | succ width ih => exact congrArg (· + 1) (ih _)

theorem pointerValue_leBytes {width number : Nat} (small : number < 256 ^ width) :
    pointerValue (leBytes width number) = number := by
  induction width generalizing number with
  | zero =>
    rw [Nat.pow_zero] at small
    exact (Nat.lt_one_iff.mp small).symm
  | succ width ih =>
    rw [Nat.pow_succ, Nat.mul_comm] at small
    have rest : pointerValue (leBytes width (number / 256)) = number / 256 :=
      ih (Nat.div_lt_of_lt_mul small)
    change (UInt8.ofNat number).toNat + 256 * pointerValue (leBytes width (number / 256)) = number
    rw [rest, UInt8.toNat_ofNat']
    exact Nat.mod_add_div number 256

/-- A piece of lists of one length that are joined. -/
theorem piece_flatten {size : Nat} {lists : List (List UInt8)}
    (lengths : ∀ list ∈ lists, list.length = size) {index : Nat} (inside : index < lists.length) :
    Bytes.piece size lists.flatten index = lists[index] := by
  unfold Bytes.piece
  induction lists generalizing index with
  | nil => exact absurd inside (Nat.not_lt_zero _)
  | cons list rest ih =>
    obtain ⟨length, lengths⟩ := List.forall_mem_cons.mp lengths
    rw [List.flatten_cons]
    cases index with
    | zero =>
      rw [Nat.zero_mul, List.drop_zero, ← length, List.take_left]
      rfl
    | succ index =>
      rw [Nat.succ_mul, Nat.add_comm, ← List.drop_drop, ← length, List.drop_left, length]
      exact ih lengths (Nat.lt_of_succ_lt_succ inside)

/-! ## Chunks -/

section

variable {codecs : IszCodecs}

/-- The bytes that are stored for a block. -/
inductive Stores (codecs : IszCodecs) : (kind : Nat) → (bytes block : List UInt8) → Prop
  | zero (bytes : List UInt8) (count : Nat) : Stores codecs 0 bytes (List.replicate count 0)
  | verbatim (block : List UInt8) : Stores codecs 1 block block
  | zlib {bytes block : List UInt8} (decodes : codecs.zlib bytes = .ok block) :
      Stores codecs 2 bytes block
  | bzip2 {bytes block : List UInt8} (decodes : codecs.bzip2 bytes = .ok block) :
      Stores codecs 3 bytes block

/-- A block and how it is stored, with a length that fits the pointer. -/
structure IszStored (codecs : IszCodecs) (ptrLen : Nat) where
  kind : Nat
  bytes : List UInt8
  block : List UInt8
  stores : Stores codecs kind bytes block
  fits : bytes.length < 2 ^ (ptrLen * 8 - 2)

namespace IszStored

variable {ptrLen : Nat}

def descriptor (stored : IszStored codecs ptrLen) : IszChunk := ⟨stored.kind, stored.bytes.length⟩

def pointer (stored : IszStored codecs ptrLen) : List UInt8 :=
  leBytes ptrLen (stored.kind * 2 ^ (ptrLen * 8 - 2) + stored.bytes.length)

theorem kind_lt (stored : IszStored codecs ptrLen) : stored.kind < 4 := by
  obtain ⟨kind, bytes, block, stores, fits⟩ := stored
  cases stores with
  | zero => exact (by decide : 0 < 4)
  | verbatim => exact (by decide : 1 < 4)
  | zlib => exact (by decide : 2 < 4)
  | bzip2 => exact (by decide : 3 < 4)

theorem value_pointer (stored : IszStored codecs ptrLen) (some_ : 1 ≤ ptrLen) :
    pointerValue stored.pointer = stored.kind * 2 ^ (ptrLen * 8 - 2) + stored.bytes.length := by
  apply pointerValue_leBytes
  have kind := stored.kind_lt
  have fits := stored.fits
  calc stored.kind * 2 ^ (ptrLen * 8 - 2) + stored.bytes.length
      < (stored.kind + 1) * 2 ^ (ptrLen * 8 - 2) := by rw [Nat.succ_mul]; omega
    _ ≤ 2 ^ 2 * 2 ^ (ptrLen * 8 - 2) := Nat.mul_le_mul_right _ kind
    _ = 2 ^ (8 * ptrLen) := by rw [← Nat.pow_add]; congr 1; omega
    _ = 256 ^ ptrLen := Nat.pow_mul 2 8 ptrLen

/-- The descriptor is read from the pointer. -/
theorem descriptor_eq (stored : IszStored codecs ptrLen) (some_ : 1 ≤ ptrLen) :
    (⟨pointerValue stored.pointer / 2 ^ (ptrLen * 8 - 2),
      pointerValue stored.pointer % 2 ^ (ptrLen * 8 - 2)⟩ : IszChunk) = stored.descriptor := by
  have positive : 0 < 2 ^ (ptrLen * 8 - 2) := Nat.two_pow_pos _
  rw [stored.value_pointer some_, Nat.add_comm, Nat.add_mul_div_right _ _ positive,
    Nat.div_eq_of_lt stored.fits, Nat.zero_add, Nat.add_mul_mod_self_right,
    Nat.mod_eq_of_lt stored.fits]
  rfl

end IszStored

/-! ## Places -/

/-- Each chunk lies behind those before it, if no place saturates. -/
theorem getElem?_placeChunks {cursor : Nat} {chunks : List IszChunk}
    (small : cursor + (chunks.map IszChunk.storedLength).sum < 2 ^ 64) (index : Nat) :
    (placeChunks cursor chunks)[index]? = chunks[index]?.map fun chunk =>
      (chunk, cursor + ((chunks.take index).map IszChunk.storedLength).sum) := by
  induction chunks generalizing cursor index with
  | nil => rfl
  | cons chunk rest ih =>
    rw [List.map_cons, List.sum_cons] at small
    cases index with
    | zero => rfl
    | succ index =>
      rw [placeChunks, List.getElem?_cons_succ, List.getElem?_cons_succ, List.take_succ_cons,
        List.map_cons, List.sum_cons, Nat.min_eq_left (by omega), ih (by omega), Nat.add_assoc]

/-- Bytes that lie at an offset are read. -/
theorem BackingFile.readExactAt_of_prefix {file : BackingFile} {offset : Nat}
    {bytes : List UInt8} (there : bytes <+: file.bytes.drop offset) (small : offset < 2 ^ 63) :
    file.readExactAt offset bytes.length = .ok bytes := by
  unfold readExactAt
  have length := there.length_le
  rw [List.length_drop] at length
  rw [if_neg (Nat.not_le.mpr small), if_pos (by omega), ← List.prefix_iff_eq_take.mp there]

/-- A list among lists that are joined. -/
theorem prefix_drop_flatten (lists : List (List UInt8)) {index : Nat}
    (inside : index < lists.length) :
    lists[index] <+: lists.flatten.drop ((lists.take index).map List.length).sum := by
  induction lists generalizing index with
  | nil => exact absurd inside (Nat.not_lt_zero _)
  | cons list rest ih =>
    rw [List.flatten_cons]
    cases index with
    | zero => exact List.prefix_append _ _
    | succ index =>
      rw [List.take_succ_cons, List.map_cons, List.sum_cons, ← List.drop_drop, List.drop_left]
      exact ih (Nat.lt_of_succ_lt_succ inside)

/-! ## Images -/

/-- An image that is laid out as its header says: the blocks of a payload, each stored in its own
way, the pointers and the stored bytes back to back, and a size that the payload reaches. -/
structure IszImage (codecs : IszCodecs) where
  payload : List UInt8
  file : BackingFile
  header : IszHeader
  accepted : IszHeader.read (file.bytes.take 48) = .ok header
  chunks : List (IszStored codecs header.ptrLen)
  count : chunks.length = header.numBlocks
  blocks : ∀ index (inside : index < chunks.length),
    (chunks.get ⟨index, inside⟩).block = Bytes.piece header.blockSize payload index
  table : (chunks.map IszStored.pointer).flatten <+: file.bytes.drop header.ptrOffset
  data : (chunks.map IszStored.bytes).flatten <+: file.bytes.drop header.dataOffset
  sized : header.totalSectors * header.sectorSize ≤ payload.length
  covers : header.totalSectors * header.sectorSize ≤ header.numBlocks * header.blockSize

/-- What an accepted header promises. -/
structure IszHeader.Sized (header : IszHeader) : Prop where
  positive : 0 < header.blockSize
  sectorSize : header.sectorSize < 2 ^ 16
  totalSectors : header.totalSectors < 2 ^ 32
  dataOffset : header.dataOffset < 2 ^ 32
  ptrLen : 1 ≤ header.ptrLen
  numBlocks : 0 < header.numBlocks

theorem IszHeader.sized_of_read {buf : List UInt8} {header : IszHeader}
    (accepted : IszHeader.read buf = .ok header) : 48 ≤ buf.length ∧ header.Sized := by
  unfold IszHeader.read at accepted
  split at accepted
  next => cases accepted
  next long =>
    dsimp only at accepted
    split at accepted
    next => cases accepted
    next =>
      split at accepted
      next => cases accepted
      next =>
        split at accepted
        next => cases accepted
        next blockSize =>
          split at accepted
          next => cases accepted
          next =>
            split at accepted
            next => cases accepted
            next ptrLen =>
              split at accepted
              next => cases accepted
              next numBlocks =>
                cases accepted
                exact ⟨Nat.not_lt.mp (not_or.mp long).1, Nat.pos_of_ne_zero blockSize,
                  Bytes.readU16_lt _ _, Bytes.readU32_lt _ _, Bytes.readU32_lt _ _,
                  (not_not.mp ptrLen).1, Nat.pos_of_ne_zero numBlocks⟩

namespace IszImage

variable {image : IszImage codecs}

variable {blockIdx : Nat} {cache : IszCache}

/-- The size that the header declares. -/
def size (image : IszImage codecs) : Nat := image.header.totalSectors * image.header.sectorSize

/-- The source that opening the image gives. -/
def source (image : IszImage codecs) : IszSource where
  file := image.file
  totalSize := image.size
  blockSize := image.header.blockSize
  chunks := placeChunks image.header.dataOffset (image.chunks.map IszStored.descriptor)

theorem header_sized (image : IszImage codecs) : image.header.Sized :=
  (IszHeader.sized_of_read image.accepted).2

theorem length_table (image : IszImage codecs) :
    (image.chunks.map IszStored.pointer).flatten.length =
      image.header.numBlocks * image.header.ptrLen := by
  rw [List.length_flatten, List.map_map, ← image.count]
  have widths : image.chunks.map (List.length ∘ IszStored.pointer) =
      List.replicate image.chunks.length image.header.ptrLen := by
    rw [List.eq_replicate_iff, List.length_map]
    refine ⟨rfl, fun width member => ?_⟩
    obtain ⟨stored, -, rfl⟩ := List.mem_map.mp member
    exact length_leBytes _ _
  rw [widths, List.sum_replicate_nat]

/-- The table that is read is the pointers. -/
theorem read_table (image : IszImage codecs) :
    image.file.readExactAt image.header.ptrOffset
        (image.header.numBlocks * image.header.ptrLen) =
      .ok (image.chunks.map IszStored.pointer).flatten := by
  have sized := image.header_sized
  have some_ : 0 < image.header.numBlocks * image.header.ptrLen :=
    Nat.mul_pos sized.numBlocks sized.ptrLen
  have length := image.table.length_le
  rw [image.length_table, List.length_drop] at length
  rw [BackingFile.readExactAt_of_le (by omega), ← image.length_table,
    ← List.prefix_iff_eq_take.mp image.table]

theorem decodeChunkTable_eq (image : IszImage codecs) :
    image.header.decodeChunkTable (image.chunks.map IszStored.pointer).flatten =
      .ok (image.chunks.map IszStored.descriptor) := by
  have sized := image.header_sized
  unfold IszHeader.decodeChunkTable
  dsimp only
  rw [image.length_table, if_neg (Nat.lt_irrefl _), ← image.length_table, List.take_length]
  congr 1
  apply List.ext_getElem
  · rw [List.length_map, List.length_range, List.length_map, image.count]
  · intro index first second
    rw [List.length_map] at second
    have pointer := @piece_flatten image.header.ptrLen (image.chunks.map IszStored.pointer)
      (fun list member => by
        obtain ⟨stored, -, rfl⟩ := List.mem_map.mp member
        exact length_leBytes _ _) index (by rwa [List.length_map])
    rw [List.getElem_map, List.getElem_range, pointer, List.getElem_map, List.getElem_map]
    exact IszStored.descriptor_eq _ sized.ptrLen

/-- The header and the table are read, and no size saturates. -/
theorem openIszSource_eq (image : IszImage codecs) :
    openIszSource image.file = .ok image.source := by
  obtain ⟨long, sized⟩ := IszHeader.sized_of_read image.accepted
  rw [List.length_take] at long
  have total : image.header.totalSectors * image.header.sectorSize ≤ 2 ^ 64 - 1 := by
    calc image.header.totalSectors * image.header.sectorSize
        ≤ 2 ^ 32 * 2 ^ 16 := Nat.mul_le_mul (Nat.le_of_lt sized.totalSectors)
          (Nat.le_of_lt sized.sectorSize)
      _ ≤ 2 ^ 64 - 1 := by decide
  unfold openIszSource
  rw [BackingFile.readExactAt_of_le (by omega : 0 + 48 ≤ image.file.bytes.length), List.drop_zero]
  show (Except.mapError _ (IszHeader.read _) >>= _) = _
  rw [image.accepted]
  show (Except.mapError _ (BackingFile.readExactAt _ _ _) >>= _) = _
  rw [image.read_table]
  show (Except.mapError _ (IszHeader.decodeChunkTable _ _) >>= _) = _
  rw [image.decodeChunkTable_eq, Nat.min_eq_left total]
  rfl

/-- The place of the bytes that are stored for a block. -/
def offset (image : IszImage codecs) (blockIdx : Nat) : Nat :=
  image.header.dataOffset +
    (((image.chunks.take blockIdx).map IszStored.bytes).map List.length).sum

theorem sum_storedLength (chunks : List (IszStored codecs image.header.ptrLen)) :
    ((chunks.map IszStored.descriptor).map IszChunk.storedLength).sum =
      ((chunks.map IszStored.bytes).map List.length).sum := by
  rw [List.map_map, List.map_map]
  rfl

/-- The stored bytes end within the file, so no place saturates. -/
theorem sum_length_le (image : IszImage codecs) :
    ((image.chunks.map IszStored.bytes).map List.length).sum ≤
      image.file.bytes.length - image.header.dataOffset := by
  have length := image.data.length_le
  rwa [List.length_flatten, List.length_drop] at length

theorem offset_lt (image : IszImage codecs) (blockIdx : Nat) : image.offset blockIdx < 2 ^ 63 := by
  have dataOffset := image.header_sized.dataOffset
  have lengthFits := image.file.lengthFits
  have total := image.sum_length_le
  have halves := congrArg (fun chunks => ((chunks.map IszStored.bytes).map List.length).sum)
    (List.take_append_drop blockIdx image.chunks)
  simp only [List.map_append, List.sum_append_nat] at halves
  unfold offset
  omega

theorem getElem?_chunks (image : IszImage codecs) (inside : blockIdx < image.chunks.length) :
    image.source.chunks[blockIdx]? =
      some ((image.chunks[blockIdx]).descriptor, image.offset blockIdx) := by
  have dataOffset := image.header_sized.dataOffset
  have lengthFits := image.file.lengthFits
  have total := image.sum_length_le
  have small : image.header.dataOffset + ((image.chunks.map IszStored.descriptor).map
      IszChunk.storedLength).sum < 2 ^ 64 := by
    rw [sum_storedLength]
    omega
  have place := getElem?_placeChunks small blockIdx
  rw [← List.map_take, sum_storedLength, List.getElem?_map,
    List.getElem?_eq_getElem inside] at place
  exact place

theorem readExactAt_offset (image : IszImage codecs) (inside : blockIdx < image.chunks.length) :
    image.file.readExactAt (image.offset blockIdx) (image.chunks[blockIdx]).bytes.length =
      .ok (image.chunks[blockIdx]).bytes := by
  have begins := prefix_drop_flatten (image.chunks.map IszStored.bytes)
    (by rwa [List.length_map] : blockIdx < (image.chunks.map IszStored.bytes).length)
  rw [List.getElem_map, ← List.map_take] at begins
  have there := begins.trans (image.data.drop _)
  rw [List.drop_drop] at there
  exact BackingFile.readExactAt_of_prefix there (image.offset_lt blockIdx)

/-- What is decoded for a block begins with the block. -/
def Holds (image : IszImage codecs) (blockIdx : Nat) (bytes : List UInt8) : Prop :=
  Bytes.piece image.header.blockSize image.payload blockIdx <+: bytes

theorem decodeChunk_holds (image : IszImage codecs) (inside : blockIdx < image.chunks.length) :
    ∃ bytes, image.source.decodeChunk codecs blockIdx = .ok bytes ∧
      image.Holds blockIdx bytes := by
  have block : (image.chunks[blockIdx]).block = _ := image.blocks blockIdx inside
  have read := image.readExactAt_offset inside
  unfold IszSource.decodeChunk Holds
  rw [image.getElem?_chunks inside, ← block]
  unfold IszStored.descriptor
  dsimp only
  rw [show image.source.file = image.file from rfl, read]
  have length : (image.chunks[blockIdx]).block.length ≤ image.header.blockSize := by
    rw [block]
    exact List.length_take_le _ _
  generalize image.chunks[blockIdx] = stored at *
  obtain ⟨kind, bytes, bytes', stores, fits⟩ := stored
  cases stores with
  | zero bytes count =>
    refine ⟨_, if_pos rfl, ?_⟩
    rw [List.length_replicate] at length
    refine ⟨List.replicate (image.header.blockSize - count) 0, ?_⟩
    rw [List.replicate_append_replicate, Nat.add_sub_cancel' length]
    rfl
  | verbatim => exact ⟨_, rfl, List.prefix_refl _⟩
  | zlib decodes =>
    refine ⟨_, ?_, List.prefix_refl _⟩
    change Except.mapError _ (codecs.zlib _) = _
    rw [decodes]
    rfl
  | bzip2 decodes =>
    refine ⟨_, ?_, List.prefix_refl _⟩
    change Except.mapError _ (codecs.bzip2 _) = _
    rw [decodes]
    rfl

/-! ## Reads -/

/-- The cache has what was decoded for its block. -/
def CacheHolds (image : IszImage codecs) (cache : IszCache) : Prop :=
  ∀ blockIdx bytes, cache = some (blockIdx, bytes) → image.Holds blockIdx bytes

theorem cachedChunk_holds (holds : image.CacheHolds cache)
    (inside : blockIdx < image.chunks.length) :
    ∃ bytes next, image.source.cachedChunk codecs cache blockIdx = (.ok bytes, next) ∧
      image.Holds blockIdx bytes ∧ image.CacheHolds next := by
  obtain ⟨decoded, decodes, begins⟩ := image.decodeChunk_holds inside
  have into : IszSource.cachedChunk.decodeInto codecs image.source cache blockIdx =
      (.ok decoded, some (blockIdx, decoded)) := by
    unfold IszSource.cachedChunk.decodeInto
    rw [decodes]
  have stored : image.CacheHolds (some (blockIdx, decoded)) := by
    rintro _ _ ⟨⟩
    exact begins
  unfold IszSource.cachedChunk
  cases cache with
  | none => exact ⟨decoded, _, into, begins, stored⟩
  | some cached =>
    obtain ⟨cachedIdx, bytes⟩ := cached
    dsimp only
    by_cases same : cachedIdx = blockIdx
    · rw [if_pos same]
      exact ⟨bytes, _, rfl, same ▸ holds _ _ rfl, holds⟩
    · rw [if_neg same]
      exact ⟨decoded, _, into, begins, stored⟩

/-- One turn gives a window of the payload, and the cache is as good as before. -/
theorem readPiece_window (image : IszImage codecs) (cache : IszCache) (cursor room : Nat)
    (holds : image.CacheHolds cache) (more : 0 < room) (inside : cursor < image.size) :
    ReadsWindow (image.payload.getD · 0) image.CacheHolds image.size cursor room
      (image.source.readPiece codecs cache cursor room) := by
  have positive := image.header_sized.positive
  have below := Nat.mod_lt cursor positive
  have place := Nat.div_add_mod' cursor image.header.blockSize
  have sized : image.size ≤ image.payload.length := image.sized
  have covers : image.size ≤ image.header.numBlocks * image.header.blockSize := image.covers
  have number : cursor / image.header.blockSize < image.chunks.length := by
    rw [image.count]
    exact Nat.div_lt_of_lt_mul (by rw [Nat.mul_comm]; omega)
  obtain ⟨bytes, next, read, begins, kept⟩ := cachedChunk_holds holds number
  obtain ⟨behind, rfl⟩ := begins
  unfold IszSource.readPiece
  rw [show image.source.blockSize = image.header.blockSize from rfl,
    show image.source.totalSize = image.size from rfl, read]
  dsimp only
  have length : (Bytes.piece image.header.blockSize image.payload
      (cursor / image.header.blockSize)).length = min image.header.blockSize
        (image.payload.length - cursor / image.header.blockSize * image.header.blockSize) := by
    unfold Bytes.piece
    rw [List.length_take, List.length_drop]
  generalize avail : min (min (image.header.blockSize - cursor % image.header.blockSize) room)
    (image.size - cursor) = count
  have fits : cursor % image.header.blockSize + count ≤ (Bytes.piece image.header.blockSize
      image.payload (cursor / image.header.blockSize)).length := by
    omega
  rw [List.length_append, if_pos (by omega), Nat.min_eq_left (by omega)]
  refine ⟨⟨count, ?_, by omega, by omega, by omega⟩, kept⟩
  rw [window_getD (by omega), List.drop_append_of_le_length (by omega),
    List.take_append_of_le_length (by rw [List.length_drop]; omega)]
  unfold Bytes.piece
  rw [List.drop_take, List.drop_drop, place, List.take_take, Nat.min_eq_left (by omega)]

/-- The bytes of the disk. -/
def disk (image : IszImage codecs) : List UInt8 := image.payload.take image.size

theorem window_disk (image : IszImage codecs) (offset room : Nat) :
    window (image.payload.getD · 0) offset (min room (image.size - offset)) =
      (image.disk.drop offset).take room := by
  have sized : image.size ≤ image.payload.length := image.sized
  by_cases inside : offset ≤ image.size
  · unfold disk
    rw [window_getD (by omega), List.drop_take, List.take_take]
  · have none_ : min room (image.size - offset) = 0 := by omega
    have behind : image.disk.length ≤ offset := by
      unfold disk
      rw [List.length_take]
      omega
    rw [none_, List.drop_eq_nil_of_le behind, List.take_nil]
    rfl

theorem readAt_eq (holds : image.CacheHolds cache) (offset room : Nat) :
    ∃ next, image.CacheHolds next ∧ image.source.readAt codecs cache offset room =
      some (.ok ((image.disk.drop offset).take room), next) := by
  rw [← image.window_disk]
  unfold IszSource.readAt
  split
  next nothing =>
    have none_ : min room (image.size - offset) = 0 := by
      change image.size ≤ offset ∨ room = 0 at nothing
      omega
    rw [none_]
    exact ⟨cache, holds, rfl⟩
  next => exact readPieces_eq_window image.readPiece_window holds (Nat.lt_succ_self room)

/-- Reads in any order give the bytes of the disk. -/
theorem readMany_eq (holds : image.CacheHolds cache) (reads : List (Nat × Nat)) :
    image.source.readMany codecs cache reads =
      some (reads.map fun read => .ok ((image.disk.drop read.1).take read.2)) := by
  induction reads generalizing cache with
  | nil => rfl
  | cons read rest ih =>
    obtain ⟨next, kept, result⟩ := readAt_eq holds read.1 read.2
    unfold IszSource.readMany
    rw [result]
    change (image.source.readMany codecs next rest >>= _) = _
    rw [ih kept]
    rfl

end IszImage

end

/-- **Block-mapped images read like the flat image.** A VDI image with an accepted header never
computes an address of `2 ^ 64` or more, whatever its map and file are, and reads as the flat disk
where the file holds the mapped blocks. An ISZ image that is laid out as its header says is opened
and reads as its payload, in any order of reads and whatever block was decoded last. -/
theorem block_mapped_images_read_flat :
    (∀ buf header, VdiHeader.read buf = .ok header → ∀ bat file,
      (∀ offset room, (header.source bat file).readAt offset room ≠ some (.error .overflow)) ∧
      ((header.source bat file).HoldsBlocks → ∀ offset room,
        (header.source bat file).readAt offset room = some (.ok
          (window (header.source bat file).flat offset (min room (header.diskSize - offset)))))) ∧
    ∀ codecs (image : IszImage codecs), ∃ source, openIszSource image.file = .ok source ∧
      ∀ reads : List (Nat × Nat), source.readMany codecs none reads =
        some (reads.map fun read => .ok ((image.disk.drop read.1).take read.2)) := by
  constructor
  · intro buf header accepted bat file
    have sized := VdiSource.sized_of_read accepted bat file
    exact ⟨VdiSource.readAt_ne_overflow sized, VdiSource.readAt_eq sized⟩
  · intro codecs image
    exact ⟨image.source, image.openIszSource_eq, IszImage.readMany_eq nofun⟩

/-- A VDI header for a disk of six bytes in blocks of four. -/
def sixBytesHeader : List UInt8 :=
  List.replicate 64 0 ++ [0x7f, 0x10, 0xda, 0xbe] ++ List.replicate 8 0 ++ [1, 0, 0, 0] ++
    List.replicate 288 0 ++ [6, 0, 0, 0, 0, 0, 0, 0] ++ [4, 0, 0, 0] ++ [0, 0, 0, 0] ++
    [2, 0, 0, 0] ++ List.replicate 12 0

/-- An ISZ image of ten bytes in blocks of four: one stored verbatim, one of zeros, and a compressed
one that is shorter. -/
def tenBytesFile : List UInt8 :=
  [0x49, 0x73, 0x5a, 0x21, 48, 1, 0, 0, 0, 0, 2, 0, 5, 0, 0, 0, 0, 0, 0, 0, 0, 0, 0, 0, 0,
    3, 0, 0, 0, 4, 0, 0, 0, 1, 1, 48, 0, 0, 0, 0, 0, 0, 0, 51, 0, 0, 0, 0,
    0x44, 0, 0x82, 1, 2, 3, 4, 2, 9]

/-- Chunks of a count and the byte that it repeats. -/
def runLengthCodecs : IszCodecs where
  zlib
    | [count, byte] => .ok (List.replicate count.toNat byte)
    | _ => .error "no run"
  bzip2 _ := .error "no run"

def tenBytes : IszImage runLengthCodecs where
  payload := [1, 2, 3, 4, 0, 0, 0, 0, 9, 9]
  file := ⟨tenBytesFile, by decide⟩
  header := IszHeader.fields tenBytesFile
  accepted := by rfl
  chunks := [⟨1, [1, 2, 3, 4], [1, 2, 3, 4], .verbatim _, by decide⟩,
    ⟨0, [], List.replicate 4 0, .zero _ _, by decide⟩, ⟨2, [2, 9], [9, 9], .zlib rfl, by decide⟩]
  count := by rfl
  blocks := by decide +kernel
  table := by decide +kernel
  data := by decide +kernel
  sized := by decide
  covers := by decide

theorem block_mapped_images_sample :
    ((VdiHeader.mk 1 0 0 6 4 0 2).source [0] ⟨[1, 2, 3, 4], by decide⟩).readAt 2 10 =
      some (.ok [3, 4, 0, 0]) ∧
    ∃ source, openIszSource tenBytes.file = .ok source ∧
      source.readMany runLengthCodecs none [(2, 7), (9, 5), (0, 3)] =
        some [.ok [3, 4, 0, 0, 0, 0, 9], .ok [9], .ok [1, 2, 3]] := by
  obtain ⟨vdi, isz⟩ := block_mapped_images_read_flat
  constructor
  · have accepted : VdiHeader.read sixBytesHeader = .ok (VdiHeader.mk 1 0 0 6 4 0 2) := by
      decide +kernel
    have reads := (vdi _ _ accepted [0] ⟨[1, 2, 3, 4], by decide⟩).2
    refine reads (fun blockIdx starts allocated => ?_) 2 10
    cases blockIdx with
    | zero => decide
    | succ blockIdx => cases allocated
  · obtain ⟨source, opened, reads⟩ := isz runLengthCodecs tenBytes
    exact ⟨source, opened, reads _⟩

end ZManager.Disk
