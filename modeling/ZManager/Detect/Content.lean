import Mathlib.Data.List.Infix

/-! # Detection of formats by content

A file whose name says nothing is detected by its first bytes: a ZIP signature anywhere in the
first mebibyte, then signatures at fixed places in a fixed order.
-/

namespace ZManager

namespace Detect

variable {bytes magic : List UInt8} {offset count : Nat}

/-- Archive format kind detected from a path. -/
inductive ArchiveFormatKind where
  | zip
  | splitZip
  | sevenZ
  | tarZst
  | tarGz
  | tar
  | tarBz2
  | tarXz
  | tarLzma
  | tarLz
  | tarLzo
  | tarCompress
  | tarLz4
  | tarUu
  | iso
  | cab
  | cpio
  | rpm
  | xar
  | pkg
  | dmg
  | lha
  | ar
  | warc
  | mtree
  | tzap
  | rar
  | appleArchive
  | deb
  | msi
  | vhd
  | vmdk
  | udf
  | squashfs
  | appImage
  | wim
  | vdi
  | nrg
  | mdf
  | cdi
  | isz
  | ccd
  | cue
  | vhdx
  | qcow2
  | ewf
  | ad1
  | dar
  | aff4
  | rawDisk
  | rawStream
  | unknown
  deriving Repr, DecidableEq

variable {kind : ArchiveFormatKind}

/-! ## The program -/

/-- `PK\x03\x04`, `PK\x05\x06` and `PK\x07\x08`. -/
def zipSignatures : List (List UInt8) :=
  [[0x50, 0x4b, 3, 4], [0x50, 0x4b, 5, 6], [0x50, 0x4b, 7, 8]]

/-- From one `P` to the next. -/
def searchZip : List UInt8 → Bool
  | [] => false
  | byte :: rest =>
    if byte ≠ 0x50 then searchZip rest
    else if (byte :: rest).length < 4 then false
    else if (byte :: rest).take 4 ∈ zipSignatures then true
    else searchZip rest

/-- The magic of CPIO members, `070701`, `070702` and `070707`. -/
def cpioMagics : List (List UInt8) :=
  [[0x30, 0x37, 0x30, 0x37, 0x30, 0x31], [0x30, 0x37, 0x30, 0x37, 0x30, 0x32],
    [0x30, 0x37, 0x30, 0x37, 0x30, 0x37]]

/-- `ustar\0` and `ustar `. -/
def ustarMagics : List (List UInt8) :=
  [[0x75, 0x73, 0x74, 0x61, 0x72, 0], [0x75, 0x73, 0x74, 0x61, 0x72, 0x20]]

def wimMagic : List UInt8 := [0x4d, 0x53, 0x57, 0x49, 0x4d, 0, 0, 0]

def squashfsMagic : List UInt8 := [0x68, 0x73, 0x71, 0x73]

def elfMagic : List UInt8 := [0x7f, 0x45, 0x4c, 0x46]

def appImageMarker : List UInt8 := [0x41, 0x49, 0x02]

def vdiSignature : List UInt8 := [0x7f, 0x10, 0xda, 0xbe]

def iszMagic : List UInt8 := [0x49, 0x73, 0x5a, 0x21]

def vhdxMagic : List UInt8 := [0x76, 0x68, 0x64, 0x78, 0x66, 0x69, 0x6c, 0x65]

def qcowMagic : List UInt8 := [0x51, 0x46, 0x49, 0xfb]

/-- `EVF` and `EVF2`. -/
def ewfMagics : List (List UInt8) :=
  [[0x45, 0x56, 0x46, 0x09, 0x0d, 0x0a, 0xff, 0x00],
    [0x45, 0x56, 0x46, 0x32, 0x0d, 0x0a, 0x81, 0x00]]

/-- `ADSEGMENTEDFILE\0`. -/
def ad1Magic : List UInt8 :=
  [0x41, 0x44, 0x53, 0x45, 0x47, 0x4d, 0x45, 0x4e, 0x54, 0x45, 0x44, 0x46, 0x49, 0x4c, 0x45, 0]

/-- The tests behind that for gzip. -/
def detectSignature (head : List UInt8) : Option ArchiveFormatKind :=
  if wimMagic <+: head then some .wim
  else if squashfsMagic <+: head then some .squashfs
  else if elfMagic <+: head ∧ 11 ≤ head.length ∧ (head.drop 8).take 3 = appImageMarker then
    some .appImage
  else if 68 ≤ head.length ∧ (head.drop 64).take 4 = vdiSignature then some .vdi
  else if iszMagic <+: head then some .isz
  else if vhdxMagic <+: head then some .vhdx
  else if qcowMagic <+: head then some .qcow2
  else if ∃ magic ∈ ewfMagics, magic <+: head then some .ewf
  else if ad1Magic <+: head then some .ad1
  else none

/-- The format of a file, if it can be read. `gunzip` gives the first six bytes that a file holds
in gzip form. -/
def detectContentFormat (gunzip : List UInt8 → Option (List UInt8)) :
    Option (List UInt8) → Option ArchiveFormatKind
  | none => none
  | some file =>
    let head := file.take (1024 * 1024)
    if searchZip head then some .zip
    else if 265 ≤ head.length ∧ (head.drop 257).take 6 ∈ ustarMagics then some .tar
    else if [0x1f, 0x8b] <+: head then
      match gunzip file with
      | none => none
      | some magic => if magic ∈ cpioMagics then some .cpio else detectSignature head
    else detectSignature head

/-! ## Signatures at fixed places -/

/-- Some bytes stand at a place. -/
def At (bytes : List UInt8) (offset : Nat) (magic : List UInt8) : Prop :=
  magic <+: bytes.drop offset

instance (bytes : List UInt8) (offset : Nat) (magic : List UInt8) :
    Decidable (At bytes offset magic) :=
  inferInstanceAs (Decidable (magic <+: _))

/-- The signature of a format, where it has one at a fixed place. -/
def Carries (bytes : List UInt8) : ArchiveFormatKind → Prop
  | .tar => ∃ magic ∈ ustarMagics, At bytes 257 magic
  | .wim => At bytes 0 wimMagic
  | .squashfs => At bytes 0 squashfsMagic
  | .appImage => At bytes 0 elfMagic ∧ At bytes 8 appImageMarker
  | .vdi => At bytes 64 vdiSignature
  | .isz => At bytes 0 iszMagic
  | .vhdx => At bytes 0 vhdxMagic
  | .qcow2 => At bytes 0 qcowMagic
  | .ewf => ∃ magic ∈ ewfMagics, At bytes 0 magic
  | .ad1 => At bytes 0 ad1Magic
  | _ => False

instance (bytes : List UInt8) : DecidablePred (Carries bytes) := fun kind => by
  cases kind <;> unfold Carries <;> infer_instance

/-- The order of the tests behind that for gzip. -/
def signatureOrder : List ArchiveFormatKind :=
  [.wim, .squashfs, .appImage, .vdi, .isz, .vhdx, .qcow2, .ewf, .ad1]

/-- Only the bytes up to the end of the signature count. -/
theorem at_take_iff (within : offset + magic.length ≤ count) :
    At (bytes.take count) offset magic ↔ At bytes offset magic := by
  unfold At
  rw [List.drop_take, List.prefix_take_iff]
  exact ⟨And.left, fun found => ⟨found, by omega⟩⟩

/-- Every signature at a fixed place lies in the first 512 bytes. -/
theorem carries_take_iff (header : 512 ≤ count) (kind : ArchiveFormatKind) :
    Carries (bytes.take count) kind ↔ Carries bytes kind := by
  have fits {offset : Nat} {magic : List UInt8} (small : offset + magic.length ≤ 512) :
      At (bytes.take count) offset magic ↔ At bytes offset magic :=
    at_take_iff (Nat.le_trans small header)
  cases kind with
  | tar =>
    have short : ∀ magic ∈ ustarMagics, 257 + magic.length ≤ 512 := by decide
    exact exists_congr fun magic => and_congr_right fun known => fits (short magic known)
  | appImage => exact and_congr (fits (by decide)) (fits (by decide))
  | ewf =>
    have short : ∀ magic ∈ ewfMagics, 0 + magic.length ≤ 512 := by decide
    exact exists_congr fun magic => and_congr_right fun known => fits (short magic known)
  | wim => exact fits (by decide)
  | _ => first | exact Iff.rfl | exact fits (by decide)

/-- A slice of the signature's length is compared with the signature. -/
theorem at_iff_take :
    At bytes offset magic ↔ (bytes.drop offset).take magic.length = magic := by
  unfold At
  rw [List.prefix_iff_eq_take]
  exact eq_comm

/-- What stands at a place ends within the file. -/
theorem At.ends_within (found : At bytes offset magic) (something : magic ≠ []) :
    offset + magic.length ≤ bytes.length := by
  have fits := List.IsPrefix.length_le found
  have positive := List.length_pos_of_ne_nil something
  rw [List.length_drop] at fits
  omega

theorem carries_tar_iff : Carries bytes .tar ↔ (bytes.drop 257).take 6 ∈ ustarMagics := by
  have six : ∀ magic ∈ ustarMagics, magic.length = 6 := by decide
  constructor
  · rintro ⟨magic, known, found⟩
    rw [at_iff_take, six magic known] at found
    rwa [found]
  · intro known
    refine ⟨_, known, at_iff_take.mpr ?_⟩
    rw [six _ known]

/-! ## The search for ZIP signatures -/

/-- One of the ZIP signatures stands somewhere. -/
def HoldsZip (bytes : List UInt8) : Prop :=
  ∃ offset, ∃ magic ∈ zipSignatures, At bytes offset magic

theorem searchZip_iff (bytes : List UInt8) : searchZip bytes ↔ HoldsZip bytes := by
  have signed : ∀ magic ∈ zipSignatures, magic.head? = some 0x50 ∧ magic.length = 4 := by decide
  induction bytes with
  | nil =>
    refine iff_of_false Bool.false_ne_true ?_
    rintro ⟨offset, magic, known, found⟩
    have length := (signed magic known).2
    have fits := List.IsPrefix.length_le found
    rw [List.drop_nil, List.length_nil] at fits
    omega
  | cons byte rest ih =>
    have later : HoldsZip rest → HoldsZip (byte :: rest) := fun ⟨offset, found⟩ =>
      ⟨offset + 1, found⟩
    have here : HoldsZip (byte :: rest) ↔
        (byte :: rest).take 4 ∈ zipSignatures ∨ HoldsZip rest := by
      constructor
      · rintro ⟨offset, magic, known, found⟩
        cases offset with
        | zero =>
          left
          rw [at_iff_take, (signed magic known).2, List.drop_zero] at found
          rwa [found]
        | succ offset => exact .inr ⟨offset, magic, known, found⟩
      · rintro (known | found)
        · refine ⟨0, _, known, at_iff_take.mpr ?_⟩
          rw [(signed _ known).2, List.drop_zero]
        · exact later found
    rw [here]
    unfold searchZip
    split
    next other =>
      refine ih.trans (or_iff_right fun known => other ?_).symm
      simpa using (signed _ known).1
    next same =>
      split
      next short =>
        refine iff_of_false Bool.false_ne_true ?_
        rintro (known | ⟨offset, magic, known, found⟩)
        · have length := (signed _ known).2
          rw [List.length_take] at length
          omega
        · have length := (signed magic known).2
          have fits := List.IsPrefix.length_le found
          rw [List.length_drop] at fits
          rw [List.length_cons] at short
          omega
      next enough =>
        split
        next known => exact iff_of_true rfl (.inl known)
        next unknown => exact ih.trans (or_iff_right unknown).symm

/-! ## The answer for a header -/

/-- A test in front of a search is the search's first test. -/
theorem find?_of_test {head : List UInt8} {kinds : List ArchiveFormatKind} {test : Prop}
    [Decidable test] {answer : Option ArchiveFormatKind} (carried : test ↔ Carries head kind)
    (others : answer = kinds.find? fun kind => decide (Carries head kind)) :
    (if test then some kind else answer) =
      (kind :: kinds).find? fun kind => decide (Carries head kind) := by
  rw [List.find?_cons]
  by_cases found : test
  · rw [if_pos found, decide_eq_true (carried.mp found)]
  · rw [if_neg found, decide_eq_false (mt carried.mpr found), others]

/-- The tests behind that for gzip are one search in their order. -/
theorem detectSignature_eq (head : List UInt8) :
    detectSignature head = signatureOrder.find? fun kind => decide (Carries head kind) := by
  have elf : (elfMagic <+: head ∧ 11 ≤ head.length ∧ (head.drop 8).take 3 = appImageMarker) ↔
      Carries head .appImage := by
    have marker : At head 8 appImageMarker ↔
        11 ≤ head.length ∧ (head.drop 8).take 3 = appImageMarker :=
      ⟨fun found => ⟨found.ends_within (by decide), at_iff_take.mp found⟩,
        fun found => at_iff_take.mpr found.2⟩
    exact and_congr_right fun _ => marker.symm
  have disk : (68 ≤ head.length ∧ (head.drop 64).take 4 = vdiSignature) ↔ Carries head .vdi :=
    ⟨fun found => at_iff_take.mpr found.2,
      fun found => ⟨found.ends_within (by decide), at_iff_take.mp found⟩⟩
  unfold detectSignature signatureOrder
  refine find?_of_test Iff.rfl ?_
  refine find?_of_test Iff.rfl ?_
  refine find?_of_test elf ?_
  refine find?_of_test disk ?_
  refine find?_of_test Iff.rfl ?_
  refine find?_of_test Iff.rfl ?_
  refine find?_of_test Iff.rfl ?_
  refine find?_of_test Iff.rfl ?_
  exact find?_of_test Iff.rfl rfl

/-- A file's bytes decide for the format of its header. -/
structure Decided (gunzip : List UInt8 → Option (List UInt8)) (file : List UInt8)
    (kind : ArchiveFormatKind) : Prop where
  noZip : ¬ HoldsZip (file.take (1024 * 1024))
  tarLength : kind = .tar → 265 ≤ file.length
  notTar : kind ≠ .tar → ¬ (265 ≤ file.length ∧ Carries file .tar)
  notCpio : kind ≠ .tar → [0x1f, 0x8b] <+: file → ∃ magic, gunzip file = some magic ∧
    magic ∉ cpioMagics
  first : kind ≠ .tar → ∀ earlier ∈ signatureOrder.takeWhile (· ≠ kind), ¬ Carries file earlier

/-- A search gives a listed hit exactly when nothing in front of it is one. -/
theorem find?_eq_some_iff_takeWhile {α : Type*} [DecidableEq α] {test : α → Bool} {hit : α}
    (good : test hit) {items : List α} (listed : hit ∈ items) :
    items.find? test = some hit ↔ ∀ earlier ∈ items.takeWhile (· ≠ hit), ¬ test earlier := by
  induction items with
  | nil => exact absurd listed List.not_mem_nil
  | cons item items ih =>
    by_cases same : item = hit
    · subst same
      rw [List.find?_cons_of_pos good, List.takeWhile_cons_of_neg (by simp)]
      exact iff_of_true rfl fun _ none => absurd none List.not_mem_nil
    · rw [List.takeWhile_cons_of_pos (by simpa using same), List.forall_mem_cons]
      have listed' : hit ∈ items := (List.mem_cons.mp listed).resolve_left (Ne.symm same)
      by_cases found : test item
      · rw [List.find?_cons_of_pos found]
        exact iff_of_false (fun equal => same (Option.some.inj equal)) fun all => all.1 found
      · rw [List.find?_cons_of_neg found, ih listed', and_iff_right found]

theorem detectSignature_eq_some_iff {head : List UInt8} (notTar : kind ≠ .tar)
    (carried : Carries head kind) :
    detectSignature head = some kind ↔
      ∀ earlier ∈ signatureOrder.takeWhile (· ≠ kind), ¬ Carries head earlier := by
  have listed : kind ∈ signatureOrder := by
    cases kind <;> first | decide | exact absurd rfl notTar | exact carried.elim
  rw [detectSignature_eq, @find?_eq_some_iff_takeWhile _ _ (fun kind => decide (Carries head kind))
    kind (decide_eq_true carried) _ listed]
  simp only [decide_eq_true_eq]

/-- TAR is not among the tests behind that for gzip. -/
theorem detectSignature_ne_tar (head : List UInt8) : detectSignature head ≠ some .tar := by
  intro found
  rw [detectSignature_eq] at found
  exact absurd (List.mem_of_find?_eq_some found) (by decide)

/-- The test for TAR, on the whole file. -/
theorem tar_test_iff {file : List UInt8} (enough : 512 ≤ count) :
    265 ≤ (file.take count).length ∧ ((file.take count).drop 257).take 6 ∈ ustarMagics ↔
      265 ≤ file.length ∧ Carries file .tar := by
  rw [← carries_tar_iff, carries_take_iff enough, List.length_take]
  exact and_congr_left fun _ => ⟨by omega, by omega⟩

/-- What is detected is the format of the header exactly when the file decides for it. -/
theorem detectContentFormat_eq_iff {gunzip : List UInt8 → Option (List UInt8)} {file : List UInt8}
    (carried : Carries file kind) :
    detectContentFormat gunzip (some file) = some kind ↔ Decided gunzip file kind := by
  have enough : 512 ≤ 1024 * 1024 := by decide
  have gzipped : [0x1f, 0x8b] <+: file.take (1024 * 1024) ↔ [0x1f, 0x8b] <+: file := by
    rw [List.prefix_take_iff]
    exact and_iff_left (by decide)
  unfold detectContentFormat
  dsimp only
  split
  next zip =>
    refine iff_of_false ?_ fun decided => decided.noZip ((searchZip_iff _).mp zip)
    intro equal
    rw [← Option.some.inj equal] at carried
    exact carried
  next noZip =>
    rw [searchZip_iff] at noZip
    by_cases tar : 265 ≤ file.length ∧ Carries file .tar
    · rw [if_pos ((tar_test_iff enough).mpr tar)]
      constructor
      · intro equal
        obtain rfl := Option.some.inj equal
        exact ⟨noZip, fun _ => tar.1, fun other => absurd rfl other,
          fun other => absurd rfl other, fun other => absurd rfl other⟩
      · intro decided
        by_contra different
        exact decided.notTar (fun same => different (by rw [same])) tar
    · rw [if_neg (mt (tar_test_iff enough).mp tar)]
      by_cases isTar : kind = .tar
      · subst isTar
        refine iff_of_false ?_ fun decided => tar ⟨decided.tarLength rfl, carried⟩
        split
        · split
          · exact nofun
          · split
            · exact fun equal => ArchiveFormatKind.noConfusion (Option.some.inj equal)
            · exact detectSignature_ne_tar _
        · exact detectSignature_ne_tar _
      · have answer := detectSignature_eq_some_iff isTar ((carries_take_iff enough kind).mpr carried)
        simp only [carries_take_iff enough] at answer
        have decided_iff : Decided gunzip file kind ↔
            ([0x1f, 0x8b] <+: file → ∃ magic, gunzip file = some magic ∧ magic ∉ cpioMagics) ∧
              ∀ earlier ∈ signatureOrder.takeWhile (· ≠ kind), ¬ Carries file earlier :=
          ⟨fun decided => ⟨decided.notCpio isTar, decided.first isTar⟩,
            fun ⟨cpio, first⟩ => ⟨noZip, fun same => absurd same isTar, fun _ => tar, fun _ => cpio,
              fun _ => first⟩⟩
        rw [decided_iff]
        by_cases gzip : [0x1f, 0x8b] <+: file
        · rw [if_pos (gzipped.mpr gzip)]
          split
          next failed =>
            refine iff_of_false nofun fun decided => ?_
            obtain ⟨magic, read, -⟩ := decided.1 gzip
            exact absurd (failed.symm.trans read) nofun
          next magic read =>
            by_cases cpio : magic ∈ cpioMagics
            · rw [if_pos cpio]
              refine iff_of_false ?_ fun decided => ?_
              · intro equal
                rw [← Option.some.inj equal] at carried
                exact carried
              · obtain ⟨magic', read', other⟩ := decided.1 gzip
                exact other (Option.some.inj (read'.symm.trans read) ▸ cpio)
            · rw [if_neg cpio, answer]
              exact (and_iff_right fun _ => ⟨magic, read, cpio⟩).symm
        · rw [if_neg (mt gzipped.mp gzip), answer]
          exact (and_iff_right fun found => absurd found gzip).symm

/-- **Content detection is decided by the header when the file does not speak against it.** Two
files with the same first 512 bytes and a signature there are both detected as the format of that
signature exactly when neither has a ZIP signature in its first mebibyte, a TAR is long enough for
its test, and, for another format, no test in front of its own finds something in the common bytes
or in what the file decompresses to. -/
theorem content_decided_iff (gunzip : List UInt8 → Option (List UInt8)) {one two : List UInt8}
    {kind : ArchiveFormatKind} (agree : one.take 512 = two.take 512)
    (carried : Carries (one.take 512) kind) :
    (detectContentFormat gunzip (some one) = some kind ∧
        detectContentFormat gunzip (some two) = some kind) ↔
      Decided gunzip one kind ∧ Decided gunzip two kind := by
  have first := (carries_take_iff (Nat.le_refl 512) kind).mp carried
  have second := (carries_take_iff (Nat.le_refl 512) kind).mp (agree ▸ carried)
  rw [detectContentFormat_eq_iff first, detectContentFormat_eq_iff second]

/-- The header of an empty POSIX TAR block, with nothing but its magic. -/
def tarHeader : List UInt8 :=
  List.replicate 257 0 ++ [0x75, 0x73, 0x74, 0x61, 0x72, 0] ++ List.replicate 249 0

theorem content_decided_sample :
    (detectContentFormat (fun _ => none) (some tarHeader) = some .tar ∧
        detectContentFormat (fun _ => none) (some (tarHeader ++ [7])) = some .tar) ↔
      Decided (fun _ => none) tarHeader .tar ∧ Decided (fun _ => none) (tarHeader ++ [7]) .tar :=
  content_decided_iff _ (by decide +kernel) (by decide +kernel)

/-- A stored ZIP archive behind the header makes a TAR a ZIP archive. -/
theorem stored_zip_changes_format :
    tarHeader.take 512 = (tarHeader ++ [0x50, 0x4b, 3, 4]).take 512 ∧
      Carries (tarHeader.take 512) .tar ∧ searchZip (tarHeader.take 512) = false ∧
      detectContentFormat (fun _ => none) (some tarHeader) = some .tar ∧
      detectContentFormat (fun _ => none) (some (tarHeader ++ [0x50, 0x4b, 3, 4])) = some .zip := by
  decide +kernel

end Detect

end ZManager
