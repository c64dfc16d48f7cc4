import ZManager.Cpio.Encoding
import ZManager.Cpio.Hardlinks

/-! # Archives are read back

Entries that fit an encoding come back in their order, and the payloads are where
the entries say. Only the number that is reported for a payload is not always its
length: with checksums it is the checksum.
-/

namespace ZManager

namespace Cpio

/-! ## Records -/

/-- The entries of an archive that starts at a position. -/
def entriesOf (format : WireFormat) : Nat → Nat → List CpioSource → List ParsedEntry
  | _, _, [] => []
  | index, position, source :: rest =>
    entryOf format index position source ::
      entriesOf format (index + 1) (position + (encodeRecord format source).length) rest

theorem fitsFields_trailer (format : WireFormat) : FitsFields format trailer := by
  cases format with
  | newc => decide +kernel
  | crc => decide +kernel
  | odc => decide +kernel
  | binary littleEndian =>
    change trailer.mtime < 2 ^ 32 ∧ trailer.payload.length < 2 ^ 32 ∧ _
    decide +kernel

theorem encodeArchive_cons (format : WireFormat) (source : CpioSource) (rest : List CpioSource) :
    encodeArchive format (source :: rest) =
      encodeRecord format source ++ encodeArchive format rest :=
  rfl

section

variable {path : PathBuf} {format : WireFormat} {sources : List CpioSource}

variable {entry : ParsedEntry}

/-- The entries are read behind those that were read before. -/
theorem parseRecords_encoded {front : List UInt8} {entries : List ParsedEntry}
    (fits : ∀ source ∈ sources, FitsFields format source)
    (named : ∀ source ∈ sources, source.name ≠ trailerName)
    (isFile : (front ++ encodeArchive format sources).length < 2 ^ 64)
    (short : ∀ source ∈ sources, source.nameSize ≤ maxNameBytes) :
    parseRecords path (front ++ encodeArchive format sources) format front.length entries =
      .ok (entries ++ entriesOf format entries.length front.length sources) := by
  induction sources generalizing front entries with
  | nil =>
    have read := @readRecord_encoded path front [] trailer format (fitsFields_trailer format)
    rw [if_neg (by decide +kernel)] at read
    have last := @parseRecords_trailer path _ format front.length entries _ read rfl
    rw [entriesOf, List.append_nil]
    exact last
  | cons source rest ih =>
    have read := @readRecord_encoded path front (encodeArchive format rest) source format
      (fits source List.mem_cons_self)
    have bounded := short source List.mem_cons_self
    rw [if_neg (by omega)] at read
    rw [encodeArchive_cons] at isFile ⊢
    have entered := @readEntry_encoded path front (encodeArchive format rest) source format
      entries.length isFile
    rw [parseRecords_next read (named source List.mem_cons_self) entered]
    have later := @ih (front ++ encodeRecord format source)
      (entries ++ [entryOf format entries.length front.length source])
      (fun other member => fits other (List.mem_cons_of_mem _ member))
      (fun other member => named other (List.mem_cons_of_mem _ member))
      (by rw [List.append_assoc]; exact isFile)
      (fun other member => short other (List.mem_cons_of_mem _ member))
    rw [List.append_assoc] at later
    rw [later]
    simp [entriesOf, List.length_append]

/-- A name beyond the bound ends the reading. -/
theorem parseRecords_long {front : List UInt8} {entries : List ParsedEntry}
    (fits : ∀ source ∈ sources, FitsFields format source)
    (named : ∀ source ∈ sources, source.name ≠ trailerName)
    (isFile : (front ++ encodeArchive format sources).length < 2 ^ 64)
    (long : ∃ source ∈ sources, maxNameBytes < source.nameSize) :
    parseRecords path (front ++ encodeArchive format sources) format front.length entries =
      .error (.invalid path "CPIO pathname length is outside the supported bound") := by
  induction sources generalizing front entries with
  | nil =>
    obtain ⟨source, member, -⟩ := long
    cases member
  | cons source rest ih =>
    have read := @readRecord_encoded path front (encodeArchive format rest) source format
      (fits source List.mem_cons_self)
    rw [encodeArchive_cons] at isFile ⊢
    by_cases bounded : maxNameBytes < source.nameSize
    · rw [if_pos bounded] at read
      exact parseRecords_refused read
    · rw [if_neg bounded] at read
      have entered := @readEntry_encoded path front (encodeArchive format rest) source format
        entries.length isFile
      rw [parseRecords_next read (named source List.mem_cons_self) entered]
      have elsewhere : ∃ other ∈ rest, maxNameBytes < other.nameSize := by
        obtain ⟨other, member, beyond⟩ := long
        rcases List.mem_cons.mp member with rfl | inside
        · exact absurd beyond bounded
        · exact ⟨other, inside, beyond⟩
      have later := @ih (front ++ encodeRecord format source)
        (entries ++ [entryOf format entries.length front.length source])
        (fun other member => fits other (List.mem_cons_of_mem _ member))
        (fun other member => named other (List.mem_cons_of_mem _ member))
        (by rw [List.append_assoc]; exact isFile) elsewhere
      rw [List.append_assoc] at later
      exact later

/-- The encoding is recognised from the first record. -/
theorem detectFormat_encoded (source : CpioSource) (back : List UInt8) :
    detectFormat path (encodeRecord format source ++ back) = .ok format := by
  have start : ∀ magic rest : List UInt8, magic.length = 6 →
      readExact path (magic ++ rest) 0 6 = .ok magic := by
    intro magic rest width
    exact @readExact_append path [] rest magic 6 width
  have shape : ∀ rest, encodeRecord format source ++ back =
      encodeHeader source format ++ rest → readExact path (encodeRecord format source ++ back) 0 6 =
        .ok ((encodeHeader source format).take 6) := by
    intro rest split
    rw [split, ← List.take_append_drop 6 (encodeHeader source format), List.append_assoc]
    rw [start]
    · rw [List.take_append_drop]
    · rw [List.length_take, length_encodeHeader]
      cases format with
      | newc => rfl
      | crc => rfl
      | odc => rfl
      | binary littleEndian => rfl
  unfold detectFormat
  rw [shape _ (by unfold encodeRecord; rw [List.append_assoc])]
  cases format with
  | newc => rfl
  | crc => rfl
  | odc => rfl
  | binary littleEndian =>
    cases littleEndian with
    | true => rfl
    | false => rfl

theorem detectFormat_archive : detectFormat path (encodeArchive format sources) = .ok format := by
  cases sources with
  | nil => exact detectFormat_encoded trailer []
  | cons source rest => exact detectFormat_encoded source (encodeArchive format rest)

theorem entriesOf_index {index position place : Nat}
    (listed : (entriesOf format index position sources)[place]? = some entry) :
    entry.index = index + place := by
  induction sources generalizing index position place with
  | nil => cases listed
  | cons source rest ih =>
    cases place with
    | zero =>
      cases listed
      rfl
    | succ place =>
      have later := ih listed
      omega

section

variable (fits : ∀ source ∈ sources, FitsFields format source)
  (named : ∀ source ∈ sources, source.name ≠ trailerName)
  (isFile : (encodeArchive format sources).length < 2 ^ 64)
include fits named isFile

/-- The listing of a whole archive. -/
theorem parse_encoded (short : ∀ source ∈ sources, source.nameSize ≤ maxNameBytes) :
    parse path (encodeArchive format sources) =
      .ok ((entriesOf format 0 0 sources).map (withHardlink (entriesOf format 0 0 sources))) := by
  have read := @parseRecords_encoded path format sources [] [] fits named isFile short
  have indexed : Indexed (entriesOf format 0 0 sources) := by
    intro place entry listed
    have known := entriesOf_index listed
    omega
  unfold parse
  rw [detectFormat_archive]
  change (parseRecords path ([] ++ encodeArchive format sources) format 0 [] >>= fun entries =>
    .ok (assignHardlinks entries (linkCandidates entries))) = _
  rw [show (0 : Nat) = ([] : List UInt8).length from rfl, read]
  exact congrArg Except.ok (assignHardlinks_eq_map indexed)

theorem parse_long (long : ∃ source ∈ sources, maxNameBytes < source.nameSize) :
    parse path (encodeArchive format sources) =
      .error (.invalid path "CPIO pathname length is outside the supported bound") := by
  have read := @parseRecords_long path format sources [] [] fits named isFile long
  unfold parse
  rw [detectFormat_archive]
  change (parseRecords path ([] ++ encodeArchive format sources) format 0 [] >>= fun entries =>
    .ok (assignHardlinks entries (linkCandidates entries))) = _
  rw [show (0 : Nat) = ([] : List UInt8).length from rfl, read]
  rfl

end

/-! ## Payloads -/

/-- The copy loop writes what is left, counts it and sums it up. -/
theorem copyLoop_eq {unread written : List UInt8} {bytes checksum : Nat}
    (counted : bytes + unread.length < 2 ^ 64) (summed : checksum < 2 ^ 64) :
    copyLoop unread written bytes checksum =
      (written ++ unread, bytes + unread.length, (checksum + byteSum unread) % 2 ^ 64) := by
  induction measure : unread.length using Nat.strong_induction_on
    generalizing unread written bytes checksum with
  | _ size ih =>
    rw [copyLoop]
    by_cases done : unread = []
    · subst done
      rw [if_pos rfl, List.append_nil]
      simp only [byteSum, List.map_nil, List.sum_nil, Nat.add_zero, Nat.mod_eq_of_lt summed]
      cases measure
      rfl
    · rw [if_neg done]
      have nonempty := List.length_pos_iff.mpr done
      have parts := List.take_append_drop copyBufferSize unread
      have lengths : (unread.take copyBufferSize).length +
          (unread.drop copyBufferSize).length = unread.length := by
        rw [← List.length_append, parts]
      have sums : byteSum (unread.take copyBufferSize) +
          byteSum (unread.drop copyBufferSize) = byteSum unread := by
        unfold byteSum
        rw [← List.sum_append, ← List.map_append, parts]
      have shorter : (unread.drop copyBufferSize).length < size := by
        rw [List.length_drop, copyBufferSize]
        omega
      have capped : min (bytes + (unread.take copyBufferSize).length) (2 ^ 64 - 1) =
          bytes + (unread.take copyBufferSize).length := by
        omega
      simp only [capped]
      rw [ih _ shorter (by omega) (Nat.mod_lt _ (by omega)) rfl, List.append_assoc, parts,
        Nat.mod_add_mod, Nat.add_assoc, Nat.add_assoc]
      change (_, bytes + (_ + _), (checksum + (byteSum _ + byteSum _)) % 2 ^ 64) = _
      rw [lengths, sums, measure]

/-- Copying the payload that an entry points to. -/
theorem copyPayload_eq {archive payload : List UInt8}
    (content : slice archive entry.dataOffset (entry.dataOffset + entry.size) = payload)
    (sized : entry.size = payload.length) (isFile : payload.length < 2 ^ 64) :
    copyPayload path archive entry =
      (payload, .ok (if entry.checksum.isSome then byteSum payload % 2 ^ 64
        else payload.length)) := by
  have copied := @copyLoop_eq payload [] 0 0 (by omega) (by omega)
  unfold copyPayload
  rw [content, copied]
  simp only [Nat.zero_add, List.nil_append, sized, ne_eq, not_true_eq_false, ↓reduceIte]

theorem entriesOf_payload {front : List UInt8} {index place : Nat} {source : CpioSource}
    (listed : sources[place]? = some source) :
    ∃ entry, (entriesOf format index front.length sources)[place]? = some entry ∧
      entry.size = source.payload.length ∧ entry.checksum = checksumOf source format ∧
        slice (front ++ encodeArchive format sources) entry.dataOffset
          (entry.dataOffset + entry.size) = source.payload := by
  induction sources generalizing front index place with
  | nil => cases listed
  | cons other rest ih =>
    cases place with
    | zero =>
      cases listed
      exact ⟨_, rfl, rfl, rfl, slice_payload format⟩
    | succ place =>
      have later := @ih (front ++ encodeRecord format other) (index + 1) place listed
      rw [List.length_append, List.append_assoc] at later
      exact later

theorem length_payload_lt {source : CpioSource} (member : source ∈ sources)
    (isFile : (encodeArchive format sources).length < 2 ^ 64) :
    source.payload.length < 2 ^ 64 := by
  obtain ⟨before, after, rfl⟩ := List.append_of_mem member
  have size := length_encodeRecord format source
  simp only [encodeArchive, List.flatMap_append, List.flatMap_cons, List.length_append] at isFile
  omega

/-! ## The round trip -/

/-- Encoded entries come back in order with their names, modes, times and sizes, and
copying a regular entry delivers its payload and reports how long it is. -/
def RoundTrips (path : PathBuf) (format : WireFormat) (sources : List CpioSource) : Prop :=
  ∃ entries, parse path (encodeArchive format sources) = .ok entries ∧
    (entries.map fun entry => (entry.path, entry.mode, entry.modified, entry.size)) =
      (sources.map fun source =>
        (source.name, source.mode, some (Nat.toDigits 10 source.mtime), source.payload.length)) ∧
    ∀ (index : Nat) (source : CpioSource) (entry : ParsedEntry),
      sources[index]? = some source → entries[index]? = some entry →
        entryKind source.mode = .file →
          copyPayload path (encodeArchive format sources) entry =
            (source.payload, .ok source.payload.length)

theorem entriesOf_listing (index position : Nat) :
    ((entriesOf format index position sources).map fun entry =>
        (entry.path, entry.mode, entry.modified, entry.size)) =
      sources.map fun source =>
        (source.name, source.mode, some (Nat.toDigits 10 source.mtime),
          source.payload.length) := by
  induction sources generalizing index position with
  | nil => rfl
  | cons source rest ih =>
    rw [entriesOf, List.map_cons, List.map_cons, ih]
    rfl

/-- What copying reports of each entry of an archive that is read. -/
theorem copyPayload_encoded {index : Nat} {source : CpioSource}
    (isFile : (encodeArchive format sources).length < 2 ^ 64)
    (listed : sources[index]? = some source) (found : ((entriesOf format 0 0 sources).map
      (withHardlink (entriesOf format 0 0 sources)))[index]? = some entry) :
    copyPayload path (encodeArchive format sources) entry =
      (source.payload, .ok (if format = .crc then byteSum source.payload % 2 ^ 64
        else source.payload.length)) := by
  obtain ⟨read, present, sized, checksum, content⟩ :=
    @entriesOf_payload format sources [] 0 index source listed
  rw [List.length_nil] at present
  rw [List.getElem?_map, present] at found
  cases found
  obtain ⟨-, -, -, size, offset, check⟩ :=
    @withHardlink_keeps (entriesOf format 0 0 sources) read
  have bounded := length_payload_lt (List.mem_of_getElem? listed) isFile
  rw [copyPayload_eq (by rw [size, offset]; exact content) (size.trans sized) bounded, check,
    checksum]
  cases format with
  | newc => rfl
  | crc => rfl
  | odc => rfl
  | binary littleEndian => rfl

section

variable (fits : ∀ source ∈ sources, FitsFields format source)
  (named : ∀ source ∈ sources, source.name ≠ trailerName)
  (isFile : (encodeArchive format sources).length < 2 ^ 64) (trip : RoundTrips path format sources)
include fits named isFile trip

theorem RoundTrips.short :
    ∀ source ∈ sources, source.nameSize ≤ maxNameBytes := by
  intro source member
  by_contra long
  obtain ⟨entries, parsed, -⟩ := trip
  rw [parse_long fits named isFile ⟨source, member, by omega⟩] at parsed
  cases parsed

/-- With checksums, what is reported of a payload is its sum. -/
theorem RoundTrips.sums (checked : format = .crc) :
    ∀ source ∈ sources, entryKind source.mode = .file →
      byteSum source.payload % 2 ^ 64 = source.payload.length := by
  intro source member regular
  have short := trip.short fits named isFile
  obtain ⟨entries, parsed, -, copies⟩ := trip
  rw [parse_encoded fits named isFile short] at parsed
  cases parsed
  obtain ⟨index, listed⟩ := List.mem_iff_getElem?.mp member
  obtain ⟨read, present, -⟩ := @entriesOf_payload format sources [] 0 index source listed
  rw [List.length_nil] at present
  have found : ((entriesOf format 0 0 sources).map
      (withHardlink (entriesOf format 0 0 sources)))[index]? =
        some (withHardlink (entriesOf format 0 0 sources) read) := by
    rw [List.getElem?_map, present]
    rfl
  have copied := copies index source _ listed found regular
  rw [copyPayload_encoded isFile listed found, if_pos checked] at copied
  exact Except.ok.inj (congrArg Prod.snd copied)

end

/-- **Which archives are read back.** Entries that fit their encoding come back
exactly when no name is beyond the supported bound and, with checksums, the bytes of
every regular payload add up to its length: what is reported there is the sum. -/
theorem cpio_round_trip_iff (fits : ∀ source ∈ sources, FitsFields format source)
    (named : ∀ source ∈ sources, source.name ≠ trailerName)
    (isFile : (encodeArchive format sources).length < 2 ^ 64) :
    RoundTrips path format sources ↔
      (∀ source ∈ sources, source.nameSize ≤ maxNameBytes) ∧
        (format = .crc → ∀ source ∈ sources, entryKind source.mode = .file →
          byteSum source.payload % 2 ^ 64 = source.payload.length) := by
  constructor
  · intro trip
    exact ⟨trip.short fits named isFile, trip.sums fits named isFile⟩
  · intro ⟨short, sums⟩
    refine ⟨_, parse_encoded fits named isFile short, ?_, ?_⟩
    · rw [List.map_map, ← @entriesOf_listing format sources 0 0]
      apply List.map_congr_left
      intro entry member
      obtain ⟨path, mode, modified, size, -⟩ :=
        @withHardlink_keeps (entriesOf format 0 0 sources) entry
      simp only [Function.comp_apply, path, mode, modified, size]
    · intro index source entry listed found regular
      rw [copyPayload_encoded isFile listed found]
      by_cases checked : format = .crc
      · rw [if_pos checked, sums checked source (List.mem_of_getElem? listed) regular]
      · rw [if_neg checked]

end

/-- One file with its further name, written without checksums. -/
theorem cpio_round_trip_newc_pair :
    RoundTrips (PathBuf.ofText "a.cpio".toList) .newc
      [⟨"a".toList, 0o100644, 7, 1, (8, 1), 0, 0, 2, (0, 0), [104, 105]⟩,
        ⟨"b".toList, 0o100644, 7, 1, (8, 1), 0, 0, 2, (0, 0), []⟩] :=
  (cpio_round_trip_iff (by decide +kernel) (by decide +kernel) (by decide +kernel)).mpr
    ⟨by decide +kernel, by intro crc; cases crc⟩

/-- With checksums the two bytes of a payload are reported as their sum. -/
theorem cpio_crc_reports_checksum :
    ¬ RoundTrips (PathBuf.ofText "a.cpio".toList) .crc
      [⟨"a".toList, 0o100644, 7, 1, (8, 1), 0, 0, 1, (0, 0), [104, 105]⟩] := by
  intro trip
  have sums := trip.sums (by decide +kernel) (by decide +kernel) (by decide +kernel) rfl _
    List.mem_cons_self (by decide)
  revert sums
  decide +kernel

end Cpio

end ZManager
