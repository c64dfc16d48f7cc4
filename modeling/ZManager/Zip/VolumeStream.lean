import Mathlib.Data.List.Forall2
import ZManager.Foundation.Step
import ZManager.Zip.SplitVolumes

/-! # A volume of a larger set is not the stream of the set

Joined segments are longer than each of them. Split volumes lose the four bytes
of their signature, but the end record of the stream they are read as names no
disk, which the record in no single volume of the set does at the same place.
-/

namespace ZManager

variable {lengths : List Nat} {stream : List UInt8} {paths : List Text} {parts : List (List UInt8)}
  {path : Text}

section

variable {folder : ArchiveFolder}

theorem openFile_eq_ok {bytes : List UInt8} :
    openFile folder path = .ok bytes ↔ folder.lookup path = some bytes := by
  unfold openFile
  cases folder.lookup path with
  | none => exact ⟨fun same => (by cases same), fun same => (by cases same)⟩
  | some found =>
    exact ⟨fun same => congrArg some (Except.ok.inj same),
      fun same => congrArg Except.ok (Option.some.inj same)⟩

/-- Opened segments are the files of the set, none of them empty. -/
theorem openSegments_eq_ok {total : Nat} (opened : openSegments folder total paths = .ok parts) :
    List.Forall₂ (fun path part => folder.lookup path = some part ∧ part ≠ []) paths parts := by
  induction paths generalizing total parts with
  | nil =>
    cases opened
    exact .nil
  | cons path rest ih =>
    obtain ⟨bytes, read, opened⟩ := Except.bind_eq_ok_iff.mp opened
    by_cases empty : bytes = []
    · rw [if_pos empty] at opened
      cases opened
    rw [if_neg empty] at opened
    by_cases overflow : 2 ^ 64 ≤ total + bytes.length
    · rw [if_pos overflow] at opened
      cases opened
    rw [if_neg overflow] at opened
    obtain ⟨others, inner, opened⟩ := Except.bind_eq_ok_iff.mp opened
    cases opened
    exact .cons ⟨openFile_eq_ok.mp read, empty⟩ (ih inner)

end

/-! ## The patched stream -/

/-- Rewriting the central directory keeps its length. -/
theorem length_normalizeCentralDirectory {entries total : Nat} {central patched : List UInt8}
    (normalized : normalizeCentralDirectory lengths entries central = .ok (patched, total)) :
    patched.length = central.length := by
  fun_induction normalizeCentralDirectory lengths entries central generalizing patched total with
  | case1 entries =>
    cases normalized
    rfl
  | case8 entries central nonempty wellFormed next position placed small complete few rest count
      inner =>
      rename_i ih
      cases normalized
      have long : 46 ≤ central.length := by omega
      have record : (central.take next).length = next := by
        rw [List.length_take]
        omega
      have large : 46 ≤ next := by omega
      have second : (Bytes.overwrite (central.take next) 34 (Bytes.leU16 0)).length = next := by
        rw [Bytes.length_overwrite (by rw [record, Bytes.length_leU16]; omega), record]
      rw [List.length_append, ih inner, List.length_drop,
        Bytes.length_overwrite (by rw [second, Bytes.length_leU32]; omega), second]
      omega
  | _ => cases normalized

/-- The end record starts with its signature and lies inside the stream. -/
theorem findEndRecord_eq_some {offset : Nat} (found : findEndRecord stream = some offset) :
    offset + zipEocdMinSize ≤ stream.length ∧ stream.getD offset 0 = 0x50 := by
  unfold findEndRecord at found
  by_cases short : min stream.length (zipEocdMinSize + zipEocdMaxCommentSize) < zipEocdMinSize
  · simp only [short, ↓reduceIte] at found
    cases found
  simp only [short, ↓reduceIte] at found
  obtain ⟨place, located, rfl⟩ := Option.map_eq_some_iff.mp found
  have fits := List.find?_some located
  simp only [decide_eq_true_eq, List.length_drop] at fits
  obtain ⟨signed, reaches⟩ := fits
  have first : (stream.getD (stream.length -
      min stream.length (zipEocdMinSize + zipEocdMaxCommentSize) + place) 0).toNat = 0x50 := by
    unfold Bytes.readU32 Bytes.readU16 zipEndOfCentralDirectorySignature at signed
    simp only [Bytes.getD_drop] at signed
    have small := (stream.getD (stream.length -
      min stream.length (zipEocdMinSize + zipEocdMaxCommentSize) + place) 0).toNat_lt
    omega
  refine ⟨by omega, UInt8.toNat.inj ?_⟩
  rw [first]
  rfl

/-- The patches of a split set: the central directory stays before the end
record, and the new end record names no disk. -/
theorem buildNormalizationPatches_eq_ok {patches : List (Nat × List UInt8)}
    (built : buildNormalizationPatches lengths stream = .ok patches) :
    ∃ offset position central fields, findEndRecord stream = some offset ∧
      diskOffset lengths (Bytes.readU16 (stream.drop offset) 6)
        (Bytes.readU32 (stream.drop offset) 16) = .ok position ∧
      position + central.length ≤ offset ∧
      patches = [(position, central),
        (offset, Bytes.overwrite (stream.drop offset) 4 ([0, 0, 0, 0] ++ fields))] ∧
      fields.length = 12 := by
  unfold buildNormalizationPatches at built
  cases found : findEndRecord stream with
  | none =>
    rw [found] at built
    cases built
  | some offset =>
    rw [found] at built
    simp only at built
    split at built
    · cases built
    cases placed : diskOffset lengths (Bytes.readU16 (stream.drop offset) 6)
        (Bytes.readU32 (stream.drop offset) 16) with
    | error failure =>
      rw [placed] at built
      cases built
    | ok position =>
      rw [placed] at built
      simp only at built
      split at built
      · cases built
      rename_i inside
      cases normalized : normalizeCentralDirectory lengths 0
          ((stream.drop position).take (Bytes.readU32 (stream.drop offset) 12)) with
      | error failure =>
        rw [normalized] at built
        cases built
      | ok result =>
        obtain ⟨central, entries⟩ := result
        rw [normalized] at built
        simp only at built
        split at built
        · cases built
        split at built
        · cases built
        cases built
        have kept := length_normalizeCentralDirectory normalized
        rw [List.length_take] at kept
        exact ⟨offset, position, central, _, rfl, placed, by omega, rfl, rfl⟩

section

variable {joined central fields : List UInt8} {position offset : Nat}

theorem length_endRecordEntry (inside : offset + zipEocdMinSize ≤ joined.length)
    (width : fields.length = 12) :
    (Bytes.overwrite (joined.drop offset) 4 ([0, 0, 0, 0] ++ fields)).length =
      joined.length - offset := by
  unfold zipEocdMinSize at inside
  rw [Bytes.length_overwrite, List.length_drop]
  rw [List.length_append, List.length_drop, width, List.length_cons, List.length_cons,
    List.length_cons, List.length_cons, List.length_nil]
  omega

section

variable (before : position + central.length ≤ offset)
  (inside : offset + zipEocdMinSize ≤ joined.length) (width : fields.length = 12)
include before inside width

theorem length_patched :
    (Bytes.overwrite (Bytes.overwrite joined position central) offset
      (Bytes.overwrite (joined.drop offset) 4 ([0, 0, 0, 0] ++ fields))).length =
      joined.length := by
  have directory : (Bytes.overwrite joined position central).length = joined.length :=
    Bytes.length_overwrite (by omega)
  rw [Bytes.length_overwrite, directory]
  rw [length_endRecordEntry inside width, directory]
  omega

theorem getElem?_patched {index : Nat} (small : index < 4) :
    (Bytes.overwrite (Bytes.overwrite joined position central) offset
      (Bytes.overwrite (joined.drop offset) 4 ([0, 0, 0, 0] ++ fields)))[offset + (4 + index)]? =
      some 0 := by
  have directory : (Bytes.overwrite joined position central).length = joined.length :=
    Bytes.length_overwrite (by omega)
  have record := length_endRecordEntry inside width
  unfold zipEocdMinSize at inside
  have header : ([0, 0, 0, 0] ++ fields).length = 16 := by
    rw [List.length_append, width]
    rfl
  rw [Bytes.getElem?_overwrite_inside (by rw [record, directory]; omega) (by omega),
    Bytes.getElem?_overwrite_inside (by rw [header, List.length_drop]; omega)
      (by rw [header]; omega),
    List.getElem?_append_left small]
  match index, small with
  | 0, _ | 1, _ | 2, _ | 3, _ => rfl

end

end

/-- **What a split set is read as.** The stream has the length of the volumes
behind the signature; at its end record, which starts with the record's
signature, both disk fields are zero. -/
theorem openSplitZipReader_eq_ok {folder : ArchiveFolder} {first : Text}
    (opened : openSplitZipReader folder first paths = .ok stream) :
    ∃ parts offset position, openSegments folder 0 paths = .ok parts ∧
      4 ≤ (parts.headD []).length ∧
      stream.length = (parts.flatten.drop 4).length ∧
      offset + zipEocdMinSize ≤ stream.length ∧
      (parts.flatten.drop 4).getD offset 0 = 0x50 ∧
      diskOffset (parts.map List.length)
        (Bytes.readU16 ((parts.flatten.drop 4).drop offset) 6)
        (Bytes.readU32 ((parts.flatten.drop 4).drop offset) 16) = .ok position ∧
      ∀ index < 4, stream[offset + (4 + index)]? = some 0 := by
  unfold openSplitZipReader at opened
  cases segments : openSegments folder 0 paths with
  | error source =>
    rw [segments] at opened
    cases opened
  | ok parts =>
    rw [segments] at opened
    simp only at opened
    split at opened
    · cases opened
    rename_i long
    split at opened
    · cases opened
    cases built : buildNormalizationPatches (parts.map List.length) (parts.flatten.drop 4) with
    | error failure =>
      rw [built] at opened
      cases opened
    | ok patches =>
      rw [built] at opened
      obtain ⟨offset, position, central, fields, found, placed, before, rfl, width⟩ :=
        buildNormalizationPatches_eq_ok built
      obtain ⟨inside, signed⟩ := findEndRecord_eq_some found
      cases opened
      have kept := length_patched before inside width
      exact ⟨parts, offset, position, rfl, by omega, kept, inside.trans_eq kept.symm, signed,
        placed, fun index small => getElem?_patched before inside width small⟩

/-! ## No volume of a larger set reads as the set -/

/-- An offset into the first volume of a set whose first volume holds the
signature only is outside it. -/
theorem ne_zero_of_diskOffset {disk offset position : Nat} (bare : lengths.getD 0 0 = 4)
    (placed : diskOffset lengths disk offset = .ok position) :
    disk ≠ 0 := by
  rintro rfl
  unfold diskOffset at placed
  split at placed
  · cases placed
  rw [if_pos rfl, if_pos (by omega)] at placed
  cases placed

/-- Where a volume stands in its set, its file stands among the parts. -/
theorem exists_part_of_mem {folder : ArchiveFolder}
    (opened : List.Forall₂ (fun path part => folder.lookup path = some part ∧ part ≠ []) paths
      parts)
    (member : path ∈ paths) :
    ∃ before part after, parts = before ++ part :: after ∧ folder.lookup path = some part := by
  induction opened with
  | nil => cases member
  | @cons head part rest others opened tail ih =>
    rcases List.mem_cons.mp member with rfl | member
    · exact ⟨[], part, others, rfl, opened.1⟩
    · obtain ⟨before, found, after, rfl, same⟩ := ih member
      exact ⟨part :: before, found, after, rfl, same⟩

theorem ne_nil_of_mem_parts {folder : ArchiveFolder}
    (opened : List.Forall₂ (fun path part => folder.lookup path = some part ∧ part ≠ []) paths
      parts) :
    ∀ part ∈ parts, 0 < part.length := by
  induction opened with
  | nil => simp
  | cons opened tail ih =>
    intro part member
    rcases List.mem_cons.mp member with rfl | member
    · exact List.length_pos_iff.mpr opened.2
    · exact ih part member

/-- No volume of a split set reads as the set. -/
theorem openSplitZipReader_ne_part {folder : ArchiveFolder} {first : Text}
    (opened : openSplitZipReader folder first paths = .ok stream) (member : path ∈ paths) :
    ∃ bytes, folder.lookup path = some bytes ∧ bytes ≠ stream := by
  obtain ⟨parts, offset, position, segments, long, length, inside, signed, placed, blank⟩ :=
    openSplitZipReader_eq_ok opened
  have volumes := openSegments_eq_ok segments
  have filled := ne_nil_of_mem_parts volumes
  obtain ⟨before, part, after, rfl, content⟩ := exists_part_of_mem volumes member
  refine ⟨part, content, ?_⟩
  rintro rfl
  unfold zipEocdMinSize at inside
  cases before with
  | nil =>
    -- The volume comes first: the record's signature stands where the stream is blank.
    rw [List.nil_append, List.flatten_cons, List.length_drop, List.length_append] at length
    have shifted : part.getD (4 + offset) 0 = 0x50 := by
      rw [← signed, Bytes.getD_drop, List.nil_append, List.flatten_cons, List.getD_eq_getElem?_getD,
        List.getD_eq_getElem?_getD, List.getElem?_append_left (by omega)]
    have zero := blank 0 (by omega)
    rw [Nat.add_zero, Nat.add_comm] at zero
    rw [List.getD_eq_getElem?_getD, zero] at shifted
    exact absurd shifted (by decide)
  | cons head others =>
    -- The volume comes later, so it is the last of two behind the bare signature.
    have first := filled head (by simp)
    simp only [List.cons_append, List.headD_cons] at long
    simp only [List.cons_append, List.flatten_cons, List.flatten_append, List.length_drop,
      List.length_append] at length
    have bare : ((head :: others ++ part :: after).map List.length).getD 0 0 = 4 := by
      simp only [List.cons_append, List.map_cons, List.getD_cons_zero]
      omega
    have joined : (head :: others ++ part :: after).flatten.drop 4 = part := by
      have emptyOthers : others.flatten = [] := List.length_eq_zero_iff.mp (by omega)
      have emptyAfter : after.flatten = [] := List.length_eq_zero_iff.mp (by omega)
      have four : head.length = 4 := by omega
      simp only [List.cons_append, List.flatten_cons, List.flatten_append, emptyOthers,
        emptyAfter, List.append_nil, List.nil_append]
      rw [← four, List.drop_left]
    rw [joined] at placed
    refine ne_zero_of_diskOffset bare placed ?_
    unfold Bytes.readU16
    rw [Bytes.getD_drop, Bytes.getD_drop, List.getD_eq_getElem?_getD, List.getD_eq_getElem?_getD,
      blank 2 (by omega), blank 3 (by omega)]
    rfl

/-- **A volume is not its set.** When a set of at least two volumes is opened,
the file of none of them is what the set reads as. -/
theorem openZipReaderFromPaths_ne_volume {folder : ArchiveFolder}
    (opened : openZipReaderFromPaths folder paths = .ok stream) (member : path ∈ paths)
    (several : 2 ≤ paths.length) : ∃ bytes, folder.lookup path = some bytes ∧ bytes ≠ stream := by
  match paths, several with
  | first :: second :: others, several =>
    simp only [openZipReaderFromPaths] at opened
    cases header : openFile folder first with
    | error source =>
      rw [header] at opened
      cases opened
    | ok start =>
      rw [header] at opened
      simp only at opened
      split at opened
      · exact openSplitZipReader_ne_part opened member
      cases segments : openSegments folder 0 (first :: second :: others) with
      | error source =>
        rw [segments] at opened
        cases opened
      | ok parts =>
        rw [segments] at opened
        cases opened
        have volumes := openSegments_eq_ok segments
        have filled := ne_nil_of_mem_parts volumes
        have count := volumes.length_eq
        obtain ⟨before, part, after, rfl, content⟩ := exists_part_of_mem volumes member
        refine ⟨part, content, fun equal => ?_⟩
        have whole := congrArg List.length equal
        simp only [List.flatten_append, List.flatten_cons, List.length_append] at whole
        simp only [List.length_append, List.length_cons] at count
        have here : after.flatten.length = 0 := by omega
        have there : before.flatten.length = 0 := by omega
        cases before with
        | cons head rest =>
          have some := filled head (by simp)
          rw [List.flatten_cons, List.length_append] at there
          omega
        | nil =>
          cases after with
          | cons head rest =>
            have some := filled head (by simp)
            rw [List.flatten_cons, List.length_append] at here
            omega
          | nil => simp at count

end ZManager
