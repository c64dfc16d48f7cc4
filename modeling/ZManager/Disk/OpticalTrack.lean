import ZManager.Disk.Vdi

/-! # Optical disc tracks

A track of an optical disc is stored in physical sectors with 2048 logical bytes in each of them. A
later session is stored without the sessions before it, while its directory records count sectors
from the start of the disc. Such a track can be read by either count, and what is not stored reads
as zeros.
-/

namespace ZManager.Disk

/-- A sector mode as the ISO 9660 library describes it: the bytes that a sector takes, and where the
logical bytes of a sector are. They are within the sector. -/
structure SectorMode where
  physicalSectorSize : Nat
  dataOffset : Nat
  userDataPos : Nat → Nat
  userData_inside : ∀ lba, userDataPos lba + 2048 ≤ (lba + 1) * physicalSectorSize

/-- A track of physical sectors, read as logical ones. -/
structure OpticalTrackSource where
  reader : BackingFile
  sectorMode : SectorMode
  totalLogicalBytes : Nat
  trackSectorCount : Nat
  extentLbaBase : Nat

namespace OpticalTrackSource

/-- The stored sector of a logical one. The sectors between the end of the track and the place on
the disc that it starts at are not stored. -/
def physicalLba (source : OpticalTrackSource) (lba : Nat) : Option Nat :=
  if 0 < source.extentLbaBase ∧ source.trackSectorCount ≤ lba ∧ lba < source.extentLbaBase then none
  else if 0 < source.extentLbaBase ∧ source.extentLbaBase ≤ lba then
    some (lba - source.extentLbaBase)
  else some lba

/-- How much of the room one turn of the loop fills. -/
def bytesInSector (source : OpticalTrackSource) (cursor room : Nat) : Nat :=
  min (min (2048 - cursor % 2048) room) (source.totalLogicalBytes - cursor)

/-- One turn of the loop: the part of one sector. -/
def readPiece (source : OpticalTrackSource) (cursor room : Nat) : Except VfsError (List UInt8) :=
  match source.physicalLba (cursor / 2048) with
  | none => .ok (List.replicate (source.bytesInSector cursor room) 0)
  | some lba =>
    source.reader.readExactAt (source.sectorMode.userDataPos lba + cursor % 2048)
      (source.bytesInSector cursor room)

/-- `read_at` with a buffer of a length: the bytes that it fills. -/
def readAt (source : OpticalTrackSource) (offset room : Nat) :
    Option (Except VfsError (List UInt8)) :=
  if source.totalLogicalBytes ≤ offset ∨ room = 0 then some (.ok [])
  else
    (readPieces (fun (_ : Unit) cursor room => (source.readPiece cursor room, ()))
      source.totalLogicalBytes (room + 1) () offset room).map Prod.fst

/-! ## The logical bytes -/

/-- The place among the logical bytes of the track of a byte on the disc. What lies behind the base
is counted from there; before it stands the track itself, as far as it goes, and then nothing. -/
def placeInTrack (source : OpticalTrackSource) (position : Nat) : Option Nat :=
  if source.extentLbaBase * 2048 ≤ position then some (position - source.extentLbaBase * 2048)
  else if position < source.trackSectorCount * 2048 then some position
  else none

/-- Where the reader has a logical byte of the track. -/
def storedAt (source : OpticalTrackSource) (place : Nat) : Nat :=
  source.sectorMode.userDataPos (place / 2048) + place % 2048

/-- The disc as one flat image: the bytes of the track, and zeros where it has none. -/
def flat (source : OpticalTrackSource) (position : Nat) : UInt8 :=
  match source.placeInTrack position with
  | some place => source.reader.bytes.getD (source.storedAt place) 0
  | none => 0

/-- The reader has every byte of the track that can be asked for. -/
def HoldsTrack (source : OpticalTrackSource) : Prop :=
  ∀ position place, position < source.totalLogicalBytes →
    source.placeInTrack position = some place → source.storedAt place < source.reader.bytes.length

variable {source : OpticalTrackSource} {cursor room : Nat}

/-- The stored sector of a logical one is where its bytes have their places. -/
theorem placeInTrack_of_physicalLba {lba stored within : Nat}
    (mapped : source.physicalLba lba = some stored) (inside : within < 2048) :
    source.placeInTrack (lba * 2048 + within) = some (stored * 2048 + within) := by
  unfold physicalLba at mapped
  unfold placeInTrack
  split_ifs at mapped
  · cases mapped
    rw [if_pos (by omega)]
    congr 1
    omega
  · cases mapped
    by_cases based : source.extentLbaBase = 0
    · rw [based, if_pos (by omega), Nat.zero_mul, Nat.sub_zero]
    · rw [if_neg (by omega), if_pos (by omega)]

theorem placeInTrack_of_unmapped {lba within : Nat} (unmapped : source.physicalLba lba = none)
    (inside : within < 2048) : source.placeInTrack (lba * 2048 + within) = none := by
  unfold physicalLba at unmapped
  unfold placeInTrack
  split_ifs at unmapped
  rw [if_neg (by omega), if_neg (by omega)]

theorem storedAt_sector {stored within : Nat} (inside : within < 2048) :
    source.storedAt (stored * 2048 + within) = source.sectorMode.userDataPos stored + within := by
  have sector : (stored * 2048 + within) / 2048 = stored := by omega
  have rest : (stored * 2048 + within) % 2048 = within := by omega
  unfold storedAt
  rw [sector, rest]

/-- A piece of a track that is held is a window of the disc. -/
theorem readPiece_window (holds : source.HoldsTrack) (more : 0 < source.bytesInSector cursor room) :
    source.readPiece cursor room =
      .ok (window source.flat cursor (source.bytesInSector cursor room)) := by
  have place := Nat.div_add_mod' cursor 2048
  have small : source.bytesInSector cursor room ≤ 2048 - cursor % 2048 :=
    Nat.le_trans (Nat.min_le_left _ _) (Nat.min_le_left _ _)
  have ends : source.bytesInSector cursor room ≤ source.totalLogicalBytes - cursor :=
    Nat.min_le_right _ _
  unfold readPiece
  generalize source.bytesInSector cursor room = count at *
  have split : ∀ step, cursor + step = cursor / 2048 * 2048 + (cursor % 2048 + step) := by omega
  rcases mapped : source.physicalLba (cursor / 2048) with _ | lba
  · have zeros : window source.flat cursor count = window (fun _ => 0) cursor count := by
      apply window_congr
      intro step inside
      unfold flat
      rw [split, placeInTrack_of_unmapped mapped (by omega)]
    rw [zeros, window_const]
  · have address : ∀ step < count, source.placeInTrack (cursor + step) =
          some (lba * 2048 + (cursor % 2048 + step)) ∧
        source.storedAt (lba * 2048 + (cursor % 2048 + step)) =
          source.sectorMode.userDataPos lba + cursor % 2048 + step := by
      intro step inside
      rw [split, placeInTrack_of_physicalLba mapped (by omega), storedAt_sector (by omega),
        Nat.add_assoc]
      exact ⟨rfl, rfl⟩
    -- the last byte of the piece is held, and with it the whole piece
    obtain ⟨placed, stored⟩ := address (count - 1) (by omega)
    have held := holds _ _ (by omega) placed
    rw [stored] at held
    have bytes : window source.flat cursor count =
        window (source.reader.bytes.getD · 0) (source.sectorMode.userDataPos lba + cursor % 2048)
          count := by
      apply window_congr
      intro step inside
      obtain ⟨placed, stored⟩ := address step inside
      unfold flat
      rw [placed]
      exact congrArg (source.reader.bytes.getD · 0) stored
    dsimp only
    rw [bytes, window_getD (by omega), BackingFile.readExactAt_of_le (by omega)]

theorem bytesInSector_pos (more : 0 < room) (inside : cursor < source.totalLogicalBytes) :
    0 < source.bytesInSector cursor room := by
  have below := Nat.mod_lt cursor (show 0 < 2048 by decide)
  unfold bytesInSector
  omega

theorem readAt_eq (holds : source.HoldsTrack) (offset room : Nat) :
    source.readAt offset room =
      some (.ok (window source.flat offset (min room (source.totalLogicalBytes - offset)))) := by
  unfold readAt
  split
  next nothing =>
    have none : min room (source.totalLogicalBytes - offset) = 0 := by omega
    rw [none]
    rfl
  next =>
    obtain ⟨_, _, read⟩ := @readPieces_eq_window Unit VfsError UInt8
      (fun _ cursor room => (source.readPiece cursor room, ())) source.totalLogicalBytes
      source.flat (fun _ => True) (fun _ cursor room _ more inside =>
        have positive := bytesInSector_pos more inside
        ⟨⟨source.bytesInSector cursor room, readPiece_window holds positive, positive,
          by unfold bytesInSector; omega, by unfold bytesInSector; omega⟩, trivial⟩)
      (room + 1) () offset room trivial (Nat.lt_succ_self room)
    rw [read]
    rfl

/-- The source of an image that is one track of a mode from its first byte on. -/
def whole (reader : BackingFile) (mode : SectorMode) : OpticalTrackSource where
  reader := reader
  sectorMode := mode
  totalLogicalBytes := reader.bytes.length / mode.physicalSectorSize * 2048
  trackSectorCount := reader.bytes.length / mode.physicalSectorSize * 2048 / 2048
  extentLbaBase := 0

theorem placeInTrack_whole (reader : BackingFile) (mode : SectorMode) (position : Nat) :
    (whole reader mode).placeInTrack position = some position := by
  change (if 0 * 2048 ≤ position then some (position - 0 * 2048) else _) = _
  rw [Nat.zero_mul, if_pos (Nat.zero_le _), Nat.sub_zero]

theorem flat_whole (reader : BackingFile) (mode : SectorMode) :
    (whole reader mode).flat = fun position =>
      reader.bytes.getD (mode.userDataPos (position / 2048) + position % 2048) 0 := by
  funext position
  unfold flat
  rw [placeInTrack_whole]
  rfl

/-- A sector that is cut off at the end of an image is none of its track. -/
theorem whole_holdsTrack (reader : BackingFile) (mode : SectorMode) :
    (whole reader mode).HoldsTrack := by
  intro position place below placed
  change position < reader.bytes.length / mode.physicalSectorSize * 2048 at below
  change mode.userDataPos (place / 2048) + place % 2048 < reader.bytes.length
  rw [placeInTrack_whole] at placed
  have direct := Option.some.inj placed
  have user := mode.userData_inside (place / 2048)
  have sectors : (place / 2048 + 1) * mode.physicalSectorSize ≤
      reader.bytes.length / mode.physicalSectorSize * mode.physicalSectorSize :=
    Nat.mul_le_mul_right _ (by omega)
  have cut := Nat.div_mul_le_self reader.bytes.length mode.physicalSectorSize
  omega

/-- The bytes of the track are the same by either count. -/
theorem window_add_base {position room : Nat}
    (inside : position + room ≤ source.trackSectorCount * 2048)
    (apart : source.trackSectorCount ≤ source.extentLbaBase) :
    window source.flat (source.extentLbaBase * 2048 + position) room =
      window source.flat position room := by
  apply window_congr
  intro step reached
  have based : source.placeInTrack (source.extentLbaBase * 2048 + position + step) =
      some (position + step) := by
    unfold placeInTrack
    rw [if_pos (by omega)]
    congr 1
    omega
  have counted : source.placeInTrack (position + step) = some (position + step) := by
    unfold placeInTrack
    rw [if_neg (by omega), if_pos (by omega)]
  unfold flat
  rw [based, counted]

theorem window_gap {position room : Nat} (behind : source.trackSectorCount * 2048 ≤ position)
    (before : position + room ≤ source.extentLbaBase * 2048) :
    window source.flat position room = List.replicate room 0 := by
  rw [← window_const position]
  apply window_congr
  intro step reached
  have nowhere : source.placeInTrack (position + step) = none := by
    unfold placeInTrack
    rw [if_neg (by omega), if_neg (by omega)]
  unfold flat
  rw [nowhere]

/-- **Optical tracks read flat.** A read gives the bytes of the disc at its offset. A track that
starts behind as many sectors as it has reads the same by either count, with zeros between. -/
theorem optical_track_reads_flat (source : OpticalTrackSource) (holds : source.HoldsTrack) :
    (∀ offset room, source.readAt offset room =
      some (.ok (window source.flat offset (min room (source.totalLogicalBytes - offset))))) ∧
    (source.trackSectorCount ≤ source.extentLbaBase →
      source.totalLogicalBytes = (source.extentLbaBase + source.trackSectorCount) * 2048 →
      (∀ position room, position + room ≤ source.trackSectorCount * 2048 →
        source.readAt (source.extentLbaBase * 2048 + position) room =
          source.readAt position room) ∧
      ∀ position room, source.trackSectorCount * 2048 ≤ position →
        position + room ≤ source.extentLbaBase * 2048 →
        source.readAt position room = some (.ok (List.replicate room 0))) := by
  refine ⟨readAt_eq holds, fun apart total =>
    ⟨fun position room inside => ?_, fun position room behind before => ?_⟩⟩
  · rw [readAt_eq holds, readAt_eq holds, Nat.min_eq_left (by omega), Nat.min_eq_left (by omega),
      window_add_base inside apart]
  · rw [readAt_eq holds, Nat.min_eq_left (by omega), window_gap behind before]

/-- Two raw sectors, recorded from the third sector of the disc on. -/
def laterSession : OpticalTrackSource where
  reader := ⟨9 :: List.replicate 2047 1 ++ [2] ++ 9 :: List.replicate 2047 3 ++ [4], by
    simp only [List.length_append, List.length_cons, List.length_replicate, List.length_nil]
    decide⟩
  sectorMode := ⟨2049, 1, fun lba => lba * 2049 + 1, fun lba => by omega⟩
  totalLogicalBytes := 5 * 2048
  trackSectorCount := 2
  extentLbaBase := 3

/-- The border between its sectors by either count, and its end in front of what is not stored. -/
theorem optical_track_sample :
    laterSession.readAt 2047 2 = some (.ok [2, 3]) ∧
    laterSession.readAt (laterSession.extentLbaBase * 2048 + 2047) 2 =
      laterSession.readAt 2047 2 ∧
    laterSession.readAt 4095 3 = some (.ok [4, 0, 0]) := by
  have length : laterSession.reader.bytes.length = 4098 := by
    simp only [laterSession, List.length_append, List.length_cons, List.length_replicate,
      List.length_nil]
  have holds : laterSession.HoldsTrack := by
    intro position place below placed
    change position < 5 * 2048 at below
    change (if 3 * 2048 ≤ position then some (position - 3 * 2048)
      else if position < 2 * 2048 then some position else none) = some place at placed
    rw [length]
    change place / 2048 * 2049 + 1 + place % 2048 < 4098
    split_ifs at placed
    all_goals
      have same := Option.some.inj placed
      omega
  obtain ⟨flat, either⟩ := optical_track_reads_flat laterSession holds
  exact ⟨(flat 2047 2).trans (by decide +kernel),
    (either (by decide) rfl).1 2047 2 (by decide),
    (flat 4095 3).trans (by decide +kernel)⟩

end OpticalTrackSource

end ZManager.Disk
