import ZManager.Disk.OpticalTrack
import ZManager.Foundation.PieceSearch
import ZManager.Foundation.Step

/-! # The data track of a DiscJuggler image

A DiscJuggler image does not say where its tracks are stored. The primary volume descriptor of the
data track is searched for, in pieces of at most a megabyte, and gives the size of the track and the
place on the disc that its records count from.
-/

namespace ZManager.Disk

def scanChunkBytes : Nat := 1024 * 1024

/-- `\x01CD001` -/
def pvdMagic : List UInt8 := [1, 0x43, 0x44, 0x30, 0x30, 0x31]

/-- A track that is found: where it starts in the file, its size, how its sectors are stored and the
place on the disc that its records count from. -/
structure CdiTrack where
  start : Nat
  logicalBytes : Nat
  sectorMode : SectorMode
  extentLbaBase : Nat

/-- What the ISO 9660 library does with a file. Both calls may fail. -/
structure IsoLibrary where
  /-- `OffsetReader::new`: a reader of a part of the file. -/
  offsetReader : BackingFile → Nat → Nat → Except VfsError BackingFile
  /-- `iso::open`, and the mode that `SectorMode::detect` sees or that is taken for it. -/
  openImage : BackingFile → Except VfsError (BackingFile × SectorMode)
  bytes_offsetReader : ∀ {file start length reader},
    offsetReader file start length = .ok reader →
      reader.bytes = (file.bytes.drop start).take length

/-- `u32::from_be_bytes` of four bytes at an offset. -/
def readBeU32 (bytes : List UInt8) (offset : Nat) : Nat :=
  ((bytes.drop offset).take 4).foldl (fun value byte => value * 256 + byte.toNat) 0

/-- `read`: a file delivers something while it has something, and maybe less than is asked for. -/
def BackingFile.readSome (file : BackingFile) (short : Nat → Nat) (offset count : Nat) :
    List UInt8 :=
  (file.bytes.drop offset).take (min count (short offset + 1))

section

variable (file : BackingFile)

/-- A header is that of the root directory's own record, found in a sector of the track. -/
def IsRootRecord (rootExtent rootSize lba : Nat) (header : List UInt8) : Prop :=
  34 ≤ (header.getD 0 0).toNat ∧ Bytes.readU32 header 2 = rootExtent ∧
    readBeU32 header 6 = rootExtent ∧ Bytes.readU32 header 10 = rootSize ∧
    readBeU32 header 14 = rootSize ∧ header.getD 32 0 = 1 ∧ header.getD 33 0 = 0 ∧ lba ≤ rootExtent

instance (rootExtent rootSize lba : Nat) (header : List UInt8) :
    Decidable (IsRootRecord rootExtent rootSize lba header) :=
  inferInstanceAs (Decidable (_ ∧ _))

/-- How far the root directory is recorded from where it is found. -/
def findExtentLbaBase (mode : SectorMode) (start rootExtent rootSize : Nat) :
    List Nat → Except VfsError (Option Nat)
  | [] => .ok none
  | lba :: rest => do
    let header ← file.readExactAt (start + mode.userDataPos lba) 34
    if IsRootRecord rootExtent rootSize lba header then return some (rootExtent - lba)
    else findExtentLbaBase mode start rootExtent rootSize rest

/-- The track with sectors of a mode that a volume descriptor at an offset belongs to. -/
def trackOfMode (dataEnd pvdOffset : Nat) (mode : SectorMode) :
    Except VfsError (Option CdiTrack) := do
  let relative := 16 * mode.physicalSectorSize + mode.dataOffset
  if 2 ^ 64 ≤ relative ∨ pvdOffset < relative then return none
  let start := pvdOffset - relative
  let volumeSize ← file.readExactAt (pvdOffset + 80) 8
  let little := Bytes.readU32 volumeSize 0
  if little ≤ 16 ∨ little ≠ readBeU32 volumeSize 4 then return none
  let physicalBytes := little * mode.physicalSectorSize
  if 2 ^ 64 ≤ start + physicalBytes ∨ dataEnd < start + physicalBytes then return none
  let pvd ← file.readExactAt pvdOffset 190
  let rootExtent := Bytes.readU32 pvd 158
  let rootSize := Bytes.readU32 pvd 166
  if rootExtent ≠ readBeU32 pvd 162 ∨ rootSize ≠ readBeU32 pvd 170 then return none
  let base ← findExtentLbaBase file mode start rootExtent rootSize (List.range little)
  return base.map fun base => ⟨start, little * 2048, mode, base⟩

/-- The modes are tried in their order. -/
def trackOfModes (dataEnd : Nat) (modes : List SectorMode) (pvdOffset : Nat) :
    Except VfsError (Option CdiTrack) :=
  modes.foldr (fun mode rest => thenSearch (trackOfMode file dataEnd pvdOffset mode) rest)
    (.ok none)

variable (short : Nat → Nat) (dataEnd : Nat) (modes : List SectorMode)

/-- What a turn of the loop reads. -/
def nextPiece (offset : Nat) : List UInt8 :=
  file.readSome short offset (min (dataEnd - offset) scanChunkBytes)

/-- The loop over the pieces of the file. -/
def findCdiFrom (offset : Nat) (carry : List UInt8) : Except VfsError (Option CdiTrack) :=
  if (nextPiece file short dataEnd offset).length = 0 then .ok none
  else
    thenSearch
      (searchPlaces pvdMagic (trackOfModes file dataEnd modes) (offset - carry.length)
        (carry ++ nextPiece file short dataEnd offset))
      (findCdiFrom (offset + (nextPiece file short dataEnd offset).length)
        (carryOver pvdMagic (carry ++ nextPiece file short dataEnd offset)))
termination_by file.bytes.length - offset
decreasing_by
  have length : (nextPiece file short dataEnd offset).length ≤ file.bytes.length - offset := by
    unfold nextPiece BackingFile.readSome
    rw [List.length_take, List.length_drop]
    exact Nat.min_le_right _ _
  omega

/-- `find_cdi_iso_track` -/
def findCdiIsoTrack : Except VfsError (Option CdiTrack) :=
  findCdiFrom file short dataEnd modes 0 []

/-- The source of a track that was found, with a reader of its part of the file. -/
def CdiTrack.source (track : CdiTrack) (reader : BackingFile) : OpticalTrackSource where
  reader := reader
  sectorMode := track.sectorMode
  -- `saturating_mul` and `saturating_add`
  totalLogicalBytes :=
    min (min (track.extentLbaBase * 2048) (2 ^ 64 - 1) + track.logicalBytes) (2 ^ 64 - 1)
  trackSectorCount := track.logicalBytes / 2048
  extentLbaBase := track.extentLbaBase

/-- The reader of the part of the file that holds a track. -/
def CdiTrack.reader (iso : IsoLibrary) (track : CdiTrack) : Except VfsError BackingFile :=
  iso.offsetReader file track.start
    (track.logicalBytes / 2048 * track.sectorMode.physicalSectorSize)

/-- `open_optical_source` of a DiscJuggler image that ends in a descriptor of a length. -/
def openOpticalSource (iso : IsoLibrary) (descriptorLength : Nat) :
    Except VfsError OpticalTrackSource := do
  match ← findCdiIsoTrack file short (file.bytes.length - descriptorLength) modes with
  | some track => return track.source (← track.reader file iso)
  | none =>
    -- the image is opened as any other
    let (reader, mode) ← iso.openImage file
    return .whole reader mode

/-! ## The search does not depend on the pieces -/

variable {file short dataEnd modes}

theorem nextPiece_eq_nil {offset : Nat} (inside : offset ≤ dataEnd)
    (nothing : (nextPiece file short dataEnd offset).length = 0) :
    file.bytes.take offset = file.bytes.take dataEnd := by
  unfold nextPiece BackingFile.readSome scanChunkBytes at nothing
  rw [List.length_take, List.length_drop] at nothing
  by_cases ended : file.bytes.length ≤ offset
  · rw [List.take_of_length_le ended, List.take_of_length_le (Nat.le_trans ended inside)]
  · rw [show offset = dataEnd by omega]

theorem nextPiece_le {offset : Nat} (inside : offset ≤ dataEnd) :
    offset + (nextPiece file short dataEnd offset).length ≤ dataEnd := by
  unfold nextPiece BackingFile.readSome
  rw [List.length_take]
  omega

theorem take_append_nextPiece (offset : Nat) :
    file.bytes.take offset ++ nextPiece file short dataEnd offset =
      file.bytes.take (offset + (nextPiece file short dataEnd offset).length) := by
  rw [List.take_add]
  congr 1
  unfold nextPiece BackingFile.readSome
  rw [List.length_take]
  generalize min (min (dataEnd - offset) scanChunkBytes) (short offset + 1) = count
  rw [List.take_eq_take_iff]
  omega

/-- What was searched before and what the loop finds is what the whole text has. -/
theorem thenSearch_findCdiFrom {offset : Nat} (inside : offset ≤ dataEnd)
    (read : offset ≤ file.bytes.length) :
    thenSearch (searchPlaces pvdMagic (trackOfModes file dataEnd modes) 0 (file.bytes.take offset))
      (findCdiFrom file short dataEnd modes offset
        (carryOver pvdMagic (file.bytes.take offset))) =
      searchPlaces pvdMagic (trackOfModes file dataEnd modes) 0 (file.bytes.take dataEnd) := by
  induction left : file.bytes.length - offset using Nat.strongRecOn generalizing offset with
  | _ _ ih =>
    unfold findCdiFrom
    by_cases nothing : (nextPiece file short dataEnd offset).length = 0
    · rw [if_pos nothing, thenSearch_none, nextPiece_eq_nil inside nothing]
    · have length : (file.bytes.take offset).length = offset :=
        List.length_take_of_le read
      have whole := @take_append_nextPiece file short dataEnd offset
      have searched := @searchPlaces_append _ _ _ _ pvdMagic (trackOfModes file dataEnd modes)
        (by decide) 0 (file.bytes.take offset) (nextPiece file short dataEnd offset)
      rw [whole, length, Nat.zero_add] at searched
      have reached := congrArg List.length whole
      rw [List.length_append, length, List.length_take] at reached
      rw [if_neg nothing, ← thenSearch_assoc, ← searched, carryOver_append (by decide), whole]
      exact ih _ (by omega) (nextPiece_le inside) (by omega) rfl

theorem findCdiFrom_zero : findCdiFrom file short dataEnd modes 0 [] =
    searchPlaces pvdMagic (trackOfModes file dataEnd modes) 0 (file.bytes.take dataEnd) := by
  have searched := @thenSearch_findCdiFrom file short dataEnd modes 0 (Nat.zero_le _)
    (Nat.zero_le _)
  rw [List.take_zero, carryOver_nil] at searched
  exact searched

/-- **The search ignores how the file is read.** Whatever the reads deliver, the track is that of
the first descriptor in the data of the image. -/
theorem cdi_search_ignores_pieces (file : BackingFile) (short : Nat → Nat) (dataEnd : Nat)
    (modes : List SectorMode) :
    findCdiIsoTrack file short dataEnd modes =
      searchPlaces pvdMagic (trackOfModes file dataEnd modes) 0 (file.bytes.take dataEnd) :=
  findCdiFrom_zero

/-! ## A track that is found can be read -/

/-- What is known of a track that is found. -/
structure CdiTrack.Inside (dataEnd : Nat) (track : CdiTrack) : Prop where
  whole : track.logicalBytes % 2048 = 0
  ends : track.start + track.logicalBytes / 2048 * track.sectorMode.physicalSectorSize ≤ dataEnd
  sectors : track.logicalBytes / 2048 < 2 ^ 32
  base : track.extentLbaBase < 2 ^ 32

theorem findExtentLbaBase_lt {mode : SectorMode} {start rootExtent rootSize base : Nat}
    {lbas : List Nat} (small : rootExtent < 2 ^ 32)
    (found : findExtentLbaBase file mode start rootExtent rootSize lbas = .ok (some base)) :
    base < 2 ^ 32 := by
  induction lbas with
  | nil => cases found
  | cons lba rest ih =>
    unfold findExtentLbaBase at found
    obtain ⟨header, -, found⟩ := Except.bind_eq_ok_iff.mp found
    split_ifs at found
    · cases found
      omega
    · exact ih found

theorem trackOfMode_inside {mode : SectorMode} {pvdOffset : Nat} {track : CdiTrack}
    (found : trackOfMode file dataEnd pvdOffset mode = .ok (some track)) :
    track.Inside dataEnd := by
  unfold trackOfMode at found
  dsimp only at found
  split_ifs at found
  · cases found
  · obtain ⟨volumeSize, -, found⟩ := Except.bind_eq_ok_iff.mp found
    have size : Bytes.readU32 volumeSize 0 < 2 ^ 32 := Bytes.readU32_lt _ _
    split_ifs at found
    · cases found
    · cases found
    · obtain ⟨pvd, -, found⟩ := Except.bind_eq_ok_iff.mp found
      split_ifs at found
      · cases found
      · obtain ⟨base, recorded, found⟩ := Except.bind_eq_ok_iff.mp found
        cases base with
        | none => cases found
        | some base =>
          cases found
          have small := findExtentLbaBase_lt (Bytes.readU32_lt _ _) recorded
          refine ⟨Nat.mul_mod_left _ _, ?_, ?_, small⟩
          · rw [Nat.mul_div_cancel _ (by decide)]
            dsimp only
            omega
          · rw [Nat.mul_div_cancel _ (by decide)]
            exact size

/-- The modes do not disagree on what is known of a track. -/
theorem trackOfModes_inside {pvdOffset : Nat} {track : CdiTrack}
    (found : trackOfModes file dataEnd modes pvdOffset = .ok (some track)) :
    track.Inside dataEnd := by
  induction modes with
  | nil => cases found
  | cons mode rest ih =>
    change thenSearch (trackOfMode file dataEnd pvdOffset mode)
      (trackOfModes file dataEnd rest pvdOffset) = _ at found
    rcases taken : trackOfMode file dataEnd pvdOffset mode with failure | _ | other
    · rw [taken] at found
      cases found
    · rw [taken] at found
      exact ih found
    · rw [taken] at found
      cases found
      exact trackOfMode_inside taken

theorem findCdiIsoTrack_inside {track : CdiTrack}
    (found : findCdiIsoTrack file short dataEnd modes = .ok (some track)) :
    track.Inside dataEnd := by
  obtain ⟨place, taken⟩ := exists_candidate_of_searchPlaces (findCdiFrom_zero.symm.trans found)
  exact trackOfModes_inside taken

/-! ## The disc of a track -/

/-- A logical byte of a track stands in the file behind its start, in its sector. -/
def CdiTrack.byteAt (file : BackingFile) (track : CdiTrack) (place : Nat) : UInt8 :=
  file.bytes.getD
    (track.start + (track.sectorMode.userDataPos (place / 2048) + place % 2048)) 0

/-- The disc: the track where its records count to and at the start, and zeros elsewhere. -/
def CdiTrack.disc (file : BackingFile) (track : CdiTrack) (position : Nat) : UInt8 :=
  if track.extentLbaBase * 2048 ≤ position then
    track.byteAt file (position - track.extentLbaBase * 2048)
  else if position < track.logicalBytes then track.byteAt file position
  else 0

/-- The bytes of the disc up to the end of the track. -/
def CdiTrack.discSize (track : CdiTrack) : Nat := track.extentLbaBase * 2048 + track.logicalBytes

variable {track : CdiTrack} {reader : BackingFile}

section

variable (inside : track.Inside dataEnd)
include inside

/-- Nothing saturates in the size of a track that is found. -/
theorem CdiTrack.Inside.totalLogicalBytes_eq :
    (track.source reader).totalLogicalBytes = track.discSize := by
  obtain ⟨whole, -, sectors, base⟩ := inside
  change min (min (track.extentLbaBase * 2048) (2 ^ 64 - 1) + track.logicalBytes) (2 ^ 64 - 1) =
    track.extentLbaBase * 2048 + track.logicalBytes
  omega

theorem CdiTrack.Inside.placeInTrack_eq (position : Nat) :
    (track.source reader).placeInTrack position =
      if track.extentLbaBase * 2048 ≤ position then
        some (position - track.extentLbaBase * 2048)
      else if position < track.logicalBytes then some position
      else none := by
  have whole := inside.whole
  have tracked : track.logicalBytes / 2048 * 2048 = track.logicalBytes := by omega
  unfold OpticalTrackSource.placeInTrack CdiTrack.source
  dsimp only
  rw [tracked]

/-- A place in the track is in the part of the file that holds it. -/
theorem CdiTrack.Inside.storedAt_lt (reader : BackingFile) {place : Nat}
    (below : place < track.logicalBytes) : (track.source reader).storedAt place <
      track.logicalBytes / 2048 * track.sectorMode.physicalSectorSize := by
  have whole := inside.whole
  have user := track.sectorMode.userData_inside (place / 2048)
  have sectors : (place / 2048 + 1) * track.sectorMode.physicalSectorSize ≤
      track.logicalBytes / 2048 * track.sectorMode.physicalSectorSize :=
    Nat.mul_le_mul_right _ (by omega)
  change track.sectorMode.userDataPos (place / 2048) + place % 2048 < _
  omega

theorem CdiTrack.Inside.holdsTrack (within : dataEnd ≤ file.bytes.length)
    (part : reader.bytes = (file.bytes.drop track.start).take
      (track.logicalBytes / 2048 * track.sectorMode.physicalSectorSize)) :
    (track.source reader).HoldsTrack := by
  intro position place below placed
  have ends := inside.ends
  rw [inside.totalLogicalBytes_eq] at below
  unfold CdiTrack.discSize at below
  rw [inside.placeInTrack_eq] at placed
  have reached : place < track.logicalBytes := by
    split_ifs at placed
    all_goals cases placed; omega
  have stored := inside.storedAt_lt reader reached
  change _ < reader.bytes.length
  rw [part, List.length_take, List.length_drop]
  omega

/-- What the source has at a position is what the disc has there. -/
theorem CdiTrack.Inside.flat_eq (part : reader.bytes = (file.bytes.drop track.start).take
      (track.logicalBytes / 2048 * track.sectorMode.physicalSectorSize)) {position : Nat}
    (below : position < track.discSize) :
    (track.source reader).flat position = track.disc file position := by
  have byte : ∀ place < track.logicalBytes,
      (track.source reader).reader.bytes.getD ((track.source reader).storedAt place) 0 =
        track.byteAt file place := by
    intro place reached
    change reader.bytes.getD _ _ = _
    rw [part, List.getD_eq_getElem?_getD,
      List.getElem?_take_of_lt (inside.storedAt_lt reader reached), List.getElem?_drop,
      ← List.getD_eq_getElem?_getD]
    rfl
  unfold CdiTrack.discSize at below
  unfold OpticalTrackSource.flat CdiTrack.disc
  rw [inside.placeInTrack_eq]
  split_ifs
  · exact byte _ (by omega)
  · exact byte _ (by omega)
  · rfl

theorem CdiTrack.Inside.readAt_eq (within : dataEnd ≤ file.bytes.length)
    (part : reader.bytes = (file.bytes.drop track.start).take
      (track.logicalBytes / 2048 * track.sectorMode.physicalSectorSize)) (offset room : Nat) :
    (track.source reader).readAt offset room =
      some (.ok (window (track.disc file) offset (min room (track.discSize - offset)))) := by
  rw [OpticalTrackSource.readAt_eq (inside.holdsTrack within part), inside.totalLogicalBytes_eq]
  congr 2
  exact window_congr fun step reached => inside.flat_eq part (by omega)

end

end

/-- The size and the bytes of the disc that a DiscJuggler image is opened as: that of the track that
is found, or else the user data of the sectors of the whole image. -/
def openedDisc (file : BackingFile) (iso : IsoLibrary) (found : Option CdiTrack) :
    Except VfsError (Nat × (Nat → UInt8)) := do
  match found with
  | some track =>
    let _ ← track.reader file iso
    return (track.discSize, track.disc file)
  | none =>
    let (reader, mode) ← iso.openImage file
    return (reader.bytes.length / mode.physicalSectorSize * 2048, fun position =>
      reader.bytes.getD (mode.userDataPos (position / 2048) + position % 2048) 0)

end ZManager.Disk
