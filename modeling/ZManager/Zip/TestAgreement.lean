import Mathlib.Algebra.Group.Prod
import ZManager.Zip.Test
import ZManager.Zip.VolumeStream

/-! # When parallel and sequential ZIP tests agree

Counting entries chunk by chunk and adding the counts gives the counts of all
entries in a row, failures included. What is left between the two ways of
testing is where the bytes come from: the workers read the file at the archive's
path, the sequential test reads the stream that was opened for it.
-/

namespace ZManager

/-! ## Chunks -/

/-- The pieces of a list are the list again. -/
theorem flatten_parChunks {α : Type*} {size : Nat} (positive : 0 < size) (items : List α) :
    (parChunks size items).flatten = items := by
  have taken : ∀ pieces, ((List.range pieces).map fun piece =>
      (items.drop (piece * size)).take size).flatten = items.take (pieces * size) := by
    intro pieces
    induction pieces with
    | zero => simp
    | succ pieces ih =>
      rw [List.range_succ, List.map_append, List.flatten_append, ih, List.map_singleton,
        List.flatten_singleton, Nat.succ_mul, List.take_add]
  rw [parChunks, taken, List.take_of_length_le]
  have enough := Nat.lt_div_mul_add positive (a := items.length + (size - 1))
  omega

section

variable {path : Text} {cancelled : Bool}

/-- Bytes counted before do not change what is read. -/
theorem countChunks_add (failure : Option IoError) (bytes more : Nat)
    (chunks : List (List UInt8)) :
    countChunks path cancelled failure (bytes + more) chunks =
      (countChunks path cancelled failure more chunks).map (bytes + ·) := by
  induction chunks generalizing more with
  | nil =>
    unfold countChunks
    cases cancelled <;> cases failure <;> rfl
  | cons chunk rest ih =>
    unfold countChunks
    cases cancelled with
    | true => rfl
    | false =>
      by_cases ended : chunk = []
      · simp only [ended, Bool.false_eq_true, ↓reduceIte]
        rfl
      · simp only [ended, Bool.false_eq_true, ↓reduceIte]
        rw [Nat.add_assoc, ih]

variable {archive : ZipArchive} {password : Option (List UInt8)}

/-- Counts made before do not change what an entry's test gives. -/
theorem testZipEntry_add (counts more : Nat × Nat) (index : Nat) :
    testZipEntry path cancelled archive password (counts + more) index =
      (testZipEntry path cancelled archive password more index).map (counts + ·) := by
  unfold testZipEntry
  cases cancelled with
  | true => rfl
  | false =>
    cases archive.byIndex index password with
    | error source => rfl
    | ok file =>
      simp only [Bool.false_eq_true, ↓reduceIte]
      split
      · exact congrArg Except.ok (Prod.ext (Nat.add_assoc ..) rfl)
      · rw [Prod.snd_add, countChunks_add]
        cases countChunks path false file.reader.failure more.2 file.reader.chunks with
        | error failure => rfl
        | ok bytes => exact congrArg Except.ok (Prod.ext (Nat.add_assoc ..) rfl)

theorem testZipEntries_add (counts more : Nat × Nat) (indexes : List Nat) :
    testZipEntries path cancelled archive password indexes (counts + more) =
      (testZipEntries path cancelled archive password indexes more).map (counts + ·) := by
  induction indexes generalizing more with
  | nil => rfl
  | cons index rest ih =>
    simp only [testZipEntries, testZipEntry_add]
    cases testZipEntry path cancelled archive password more index with
    | error failure => rfl
    | ok found => exact ih found

theorem testZipEntries_append (indexes others : List Nat) (counts : Nat × Nat) :
    testZipEntries path cancelled archive password (indexes ++ others) counts =
      testZipEntries path cancelled archive password indexes counts >>=
        testZipEntries path cancelled archive password others := by
  induction indexes generalizing counts with
  | nil => rfl
  | cons index rest ih =>
    simp only [List.cons_append, testZipEntries]
    cases testZipEntry path cancelled archive password counts index with
    | error failure => rfl
    | ok found => exact ih found

/-- **Chunks add up.** The counts of the chunks of a list of entries add up to
the counts of the list, and a failing chunk is a failing test. -/
theorem testZipEntries_chunks (chunks : List (List Nat)) :
    (do
      let results ← chunks.mapM fun chunk =>
        testZipEntries path cancelled archive password chunk (0, 0)
      return ((results.map Prod.fst).sum, (results.map Prod.snd).sum)) =
      testZipEntries path cancelled archive password chunks.flatten (0, 0) := by
  induction chunks with
  | nil => rfl
  | cons chunk rest ih =>
    rw [List.flatten_cons, testZipEntries_append, List.mapM_cons]
    cases testZipEntries path cancelled archive password chunk (0, 0) with
    | error failure => rfl
    | ok found =>
      have later := @testZipEntries_add path cancelled archive password found (0, 0)
        rest.flatten
      have nothing : found + (0, 0) = found := rfl
      rw [nothing, ← ih] at later
      change _ = testZipEntries path cancelled archive password rest.flatten found
      rw [later]
      cases rest.mapM fun chunk =>
          testZipEntries path cancelled archive password chunk (0, 0) with
      | error failure => rfl
      | ok results => rfl

end

/-! ## The two ways of testing -/

/-- Over the opened stream, testing with several processors and with one agree
for every decoder, password, selection and cancellation: both fail, or both
succeed with the same report. -/
def TestsAgree (folder : ArchiveFolder) (path : Text) (stream : List UInt8) : Prop :=
  ∀ (decoder : ZipDecoder) (archive : ZipArchive), decoder stream = .ok archive →
    ∀ (processors : Nat) (password : Option String) (cancelled : Bool) (selected : Text → Bool),
      (testZipArchive decoder folder (some processors) archive path password cancelled
        selected).toOption =
      (testZipArchive decoder folder none archive path password cancelled selected).toOption

/-- Workers that open what the sequential test has open count the same. -/
theorem testsAgree_of_lookup {folder : ArchiveFolder} {path : Text} {stream : List UInt8}
    (same : ∀ bytes, folder.lookup path = some bytes → bytes = stream) :
    TestsAgree folder path stream := by
  intro decoder archive decoded processors password cancelled selected
  unfold testZipArchive
  congr 1
  refine congrArg (_ >>= ·) (funext fun (toTest, skipped) => ?_)
  simp only [Option.isSome_some, Option.isSome_none, Bool.false_eq_true, false_and, and_false,
    ↓reduceIte, true_and]
  cases content : folder.lookup path with
  | none => simp
  | some bytes =>
    obtain rfl := same bytes content
    split
    · have worker : testZipChunk decoder folder path cancelled (passwordBytes password) =
          fun chunk => testZipEntries path cancelled archive (passwordBytes password) chunk
            (0, 0) := by
        funext chunk
        simp only [testZipChunk, openFile_eq_ok.mpr content, decoded]
      have whole := @testZipEntries_chunks path cancelled archive (passwordBytes password)
        (parChunks 32 toTest)
      rw [flatten_parChunks (by decide)] at whole
      rw [worker, ← whole]
      cases (parChunks 32 toTest).mapM fun chunk =>
          testZipEntries path cancelled archive (passwordBytes password) chunk (0, 0) with
      | error failure => rfl
      | ok results => rfl
    · rfl

/-- The names of four directories. -/
def directoryNames : List Text :=
  ["a/".toList, "b/".toList, "c/".toList, "d/".toList]

/-- A decoder that takes one byte string for an archive of four directories and
finds no end record in every other one. -/
def fourDirectories (stream : List UInt8) : ZipDecoder := fun bytes =>
  if bytes = stream then
    .ok ⟨4, fun index => directoryNames[index]?.map .ok, fun _ _ => .ok ⟨true, ⟨[], none⟩⟩⟩
  else .error (.other "invalid Zip archive: Could not find EOCD")

/-- Workers that open something else fail where the sequential test succeeds. -/
theorem lookup_of_testsAgree {folder : ArchiveFolder} {path : Text} {stream bytes : List UInt8}
    (agree : TestsAgree folder path stream) (content : folder.lookup path = some bytes) :
    bytes = stream := by
  by_contra different
  have accepted : fourDirectories stream stream =
      .ok ⟨4, fun index => directoryNames[index]?.map .ok, fun _ _ => .ok ⟨true, ⟨[], none⟩⟩⟩ :=
    if_pos rfl
  have rejected : fourDirectories stream bytes =
      .error (.other "invalid Zip archive: Could not find EOCD") :=
    if_neg different
  have results := agree (fourDirectories stream) _ accepted 2 none false fun _ => true
  have worker : ∀ chunk, testZipChunk (fourDirectories stream) folder path false
      (passwordBytes none) chunk =
          .error (.zip (.other "invalid Zip archive: Could not find EOCD")) := by
    intro chunk
    simp only [testZipChunk, openFile_eq_ok.mpr content, rejected, mapZipError]
  have failing : testZipArchive (fourDirectories stream) folder (some 2)
      ⟨4, fun index => directoryNames[index]?.map .ok, fun _ _ => .ok ⟨true, ⟨[], none⟩⟩⟩ path
      none false
      (fun _ => true) = .error (.zip (.other "invalid Zip archive: Could not find EOCD")) := by
    change (if 4 ≤ [0, 1, 2, 3].length ∧ (some 2).isSome ∧ (folder.lookup path).isSome then _
      else _) = _
    rw [if_pos ⟨by decide, rfl, by rw [content]; rfl⟩]
    change ([[0, 1, 2, 3]].mapM (testZipChunk (fourDirectories stream) folder path false
      (passwordBytes none)) >>= _) = _
    rw [List.mapM_cons, worker]
    rfl
  rw [failing] at results
  cases results

/-- **The tests agree exactly over the file at the path.** Whatever set of
volumes the archive is opened from, both ways of testing agree for every decoder
if and only if the stream opened is the content of the file at the path; and for
a path that is one of the volumes of its set, that is to say if and only if the
set has no second volume. -/
theorem zip_tests_agree_iff {folder : ArchiveFolder} {path : Text} {stream : List UInt8}
    (opened : openZipReader folder path = .ok stream) :
    (TestsAgree folder path stream ↔
      ∀ bytes, folder.lookup path = some bytes → bytes = stream) ∧
    ((∀ volumes, discoverSplitZipVolumes folder path = some volumes → path ∈ volumes) →
      (TestsAgree folder path stream ↔
        ∀ volumes, discoverSplitZipVolumes folder path = some volumes → volumes.length ≤ 1)) := by
  have whole : TestsAgree folder path stream ↔
      ∀ bytes, folder.lookup path = some bytes → bytes = stream :=
    ⟨fun agree _ content => lookup_of_testsAgree agree content, testsAgree_of_lookup⟩
  refine ⟨whole, fun given => whole.trans
    ⟨fun same volumes found => ?_, fun single bytes content => ?_⟩⟩
  · by_contra several
    rw [openZipReader, found, Option.getD_some] at opened
    obtain ⟨bytes, content, different⟩ :=
      openZipReaderFromPaths_ne_volume opened (given volumes found) (by omega)
    exact different (same bytes content)
  · have alone : (discoverSplitZipVolumes folder path).getD [path] = [path] := by
      cases found : discoverSplitZipVolumes folder path with
      | none => rfl
      | some volumes =>
        have member := given volumes found
        match volumes, single volumes found with
        | [volume], _ =>
          rw [List.mem_singleton.mp member]
          rfl
        | [], _ => cases member
    rw [openZipReader, alone, openZipReaderFromPaths, openFile_eq_ok.mpr content] at opened
    cases opened
    rfl

/-- A single file is tested alike either way. -/
theorem zip_tests_agree_single_file :
    openZipReader [("a.zip".toList, [1, 2, 3])] "a.zip".toList = .ok [1, 2, 3] ∧
      TestsAgree [("a.zip".toList, [1, 2, 3])] "a.zip".toList [1, 2, 3] := by
  have opened : openZipReader [("a.zip".toList, [1, 2, 3])] "a.zip".toList = .ok [1, 2, 3] := by
    decide +kernel
  have alone : discoverSplitZipVolumes [("a.zip".toList, [1, 2, 3])] "a.zip".toList = none := by
    decide +kernel
  refine ⟨opened, ((zip_tests_agree_iff opened).2 fun volumes found => ?_).mpr
    fun volumes found => ?_⟩
  · rw [alone] at found
    cases found
  · rw [alone] at found
    cases found

/-- The local header of an empty directory. -/
def localHeader (name : List UInt8) : List UInt8 :=
  [0x50, 0x4b, 0x03, 0x04, 20, 0, 0, 0, 0, 0, 0, 0, 0x21, 0] ++ List.replicate 12 0 ++
    Bytes.leU16 name.length ++ [0, 0] ++ name

/-- The central directory record of an empty directory. -/
def centralRecord (name : List UInt8) (offset : Nat) : List UInt8 :=
  [0x50, 0x4b, 0x01, 0x02, 20, 0, 20, 0, 0, 0, 0, 0, 0, 0, 0x21, 0] ++ List.replicate 12 0 ++
    Bytes.leU16 name.length ++ List.replicate 8 0 ++ [0x10, 0, 0, 0] ++ Bytes.leU32 offset ++ name

/-- The ZIP file of the four directories: 128 bytes of local headers, 192 of
central directory, and the end record. -/
def directoryArchive : List UInt8 :=
  let names : List (List UInt8) := [[0x61, 0x2f], [0x62, 0x2f], [0x63, 0x2f], [0x64, 0x2f]]
  names.flatMap localHeader ++
    (List.zipWith centralRecord names [0, 32, 64, 96]).flatten ++
    ([0x50, 0x4b, 0x05, 0x06, 0, 0, 0, 0, 4, 0, 4, 0] ++ Bytes.leU32 192 ++ Bytes.leU32 128 ++
      [0, 0])

/-- The archive in two raw segments. -/
def segmentedArchive : ArchiveFolder :=
  [("a.zip.001".toList, directoryArchive.take 200), ("a.zip.002".toList, directoryArchive.drop 200)]

/-- **A segmented archive fails on several processors only.** The workers find no
end record in the first segment, while the joined segments test well. -/
theorem zip_tests_disagree_on_segments :
    openZipReader segmentedArchive "a.zip.001".toList = .ok directoryArchive ∧
    testZipWithPasswordFilter (fourDirectories directoryArchive) segmentedArchive (some 8)
      "a.zip.001".toList none (fun _ => true) =
      .error (.zip (.other "invalid Zip archive: Could not find EOCD")) ∧
    testZipWithPasswordFilter (fourDirectories directoryArchive) segmentedArchive none
      "a.zip.001".toList none (fun _ => true) = .ok ⟨4, 0, 0⟩ := by
  decide +kernel

end ZManager
