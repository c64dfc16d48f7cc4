import ZManager.Wim.Archive
import ZManager.Wim.MetadataSafety

/-! # Verifying and testing a WIM

Both loops read the stream of every regular file and make the same checks of it. Where a file has
no stream, testing passes over it and verifying fails.
-/

namespace ZManager

open Bytes

namespace Wim

section

variable {codecs : ChunkCodecs} {set : WimSet} {sha1 : List UInt8 → List UInt8}
  {cache : ResourceCache} {entry : WimEntry} {entries : List WimEntry}

/-! ## What the retained streams do not change -/

/-- The stream of an entry. -/
def entryData (codecs : ChunkCodecs) (set : WimSet) (entry : WimEntry) :
    Read (Option (List UInt8)) :=
  (readEntryData codecs set {} entry).map Prod.fst

/-- What is retained is what the lookup table's stream reads as. -/
def ResourceCache.Sound (codecs : ChunkCodecs) (set : WimSet) (cache : ResourceCache) : Prop :=
  ∀ sha1 data, cache.retained sha1 = some data →
    ∃ lookup, set.lut sha1 = some lookup ∧ set.readStream codecs lookup = .ok data

theorem ResourceCache.sound_empty (codecs : ChunkCodecs) (set : WimSet) :
    ResourceCache.Sound codecs set {} := nofun

theorem ResourceCache.Sound.retainResource (sound : cache.Sound codecs set) {hash : List UInt8}
    {data : List UInt8} {lookup : WimLookupEntry} (found : set.lut hash = some lookup)
    (read : set.readStream codecs lookup = .ok data) :
    (cache.retainResource hash data).Sound codecs set := by
  unfold ResourceCache.retainResource
  split
  · exact sound
  · have room : ResourceCache.Sound codecs set
        (if resourceCacheBudgetBytes < cache.bytes + data.length then {} else cache) := by
      split
      · exact sound_empty codecs set
      · exact sound
    intro other kept holds
    dsimp only at holds
    by_cases same : other = hash
    · subst same
      rw [Function.update_self] at holds
      cases holds
      exact ⟨lookup, found, read⟩
    · exact room other kept (by rwa [Function.update_of_ne same] at holds)

/-- Reading an entry gives its stream, whatever is retained. -/
theorem readEntryData_eq (sound : cache.Sound codecs set) (entry : WimEntry) :
    (∃ stopped, readEntryData codecs set cache entry = .error stopped ∧
      entryData codecs set entry = .error stopped) ∨
    ∃ data after, readEntryData codecs set cache entry = .ok (data, after) ∧
      after.Sound codecs set ∧ entryData codecs set entry = .ok data := by
  unfold entryData readEntryData
  by_cases zero : entry.sha1 = noHash
  · rw [if_pos zero, if_pos zero]
    exact .inr ⟨none, cache, rfl, sound, rfl⟩
  · rw [if_neg zero, if_neg zero]
    cases retained : cache.retained entry.sha1 with
    | some data =>
      obtain ⟨lookup, found, read⟩ := sound _ _ retained
      simp only [found, read]
      exact .inr ⟨some data, cache, rfl, sound, rfl⟩
    | none =>
      cases found : set.lut entry.sha1 with
      | none =>
        exact .inl ⟨_, rfl, rfl⟩
      | some lookup =>
        cases read : set.readStream codecs lookup with
        | error stopped =>
          simp only [read]
          exact .inl ⟨stopped, rfl, rfl⟩
        | ok data =>
          simp only [read]
          exact .inr ⟨some data, _, rfl, sound.retainResource found read, rfl⟩

/-! ## Streams that pass -/

/-- The stream of an entry can be read and has the recorded size and hash. -/
def Passes (codecs : ChunkCodecs) (set : WimSet) (sha1 : List UInt8 → List UInt8)
    (entry : WimEntry) : Prop :=
  ∃ data, entryData codecs set entry = .ok (some data) ∧ data.length = entry.size ∧
    sha1 data = entry.sha1

theorem checkStream_eq_ok_iff {path : Text} {data : List UInt8} :
    checkStream sha1 path entry data = .ok () ↔
      data.length = entry.size ∧ sha1 data = entry.sha1 := by
  unfold checkStream
  by_cases size : data.length = entry.size <;> by_cases hash : sha1 data = entry.sha1 <;>
    simp [size, hash]

theorem entryData_of_noHash (zero : entry.sha1 = noHash) :
    entryData codecs set entry = .ok none := by
  unfold entryData readEntryData
  rw [if_pos zero]
  rfl

theorem Passes.sha1_ne (passes : Passes codecs set sha1 entry) : entry.sha1 ≠ noHash := by
  obtain ⟨data, read, -⟩ := passes
  intro zero
  rw [entryData_of_noHash zero] at read
  cases read

/-- A stream with a hash is never missing. -/
theorem entryData_ne_none (hash : entry.sha1 ≠ noHash) :
    entryData codecs set entry ≠ .ok none := by
  unfold entryData readEntryData
  rw [if_neg hash]
  cases found : set.lut entry.sha1 with
  | none =>
    exact nofun
  | some lookup =>
    cases read : set.readStream codecs lookup with
    | error stopped =>
      simp only [read]
      exact nofun
    | ok data =>
      simp only [read]
      exact nofun

/-- The sizes of the regular files with a hash, added up. -/
def streamBytes (total : Nat) : List WimEntry → Nat
  | [] => total
  | entry :: rest =>
    if entry.kind = .file ∧ entry.sha1 ≠ noHash then
      streamBytes (saturatingAdd total entry.size) rest
    else streamBytes total rest

/-! ## The loops -/

theorem verifyLoop_eq (sha1 : List UInt8 → List UInt8) (entries : List WimEntry)
    (sound : cache.Sound codecs set) (total : Nat) :
    (∀ entry ∈ entries, entry.kind = .file → Passes codecs set sha1 entry) ∧
        verifyLoop codecs set sha1 entries cache total = .ok (streamBytes total entries) ∨
      (∃ entry ∈ entries, entry.kind = .file ∧ ¬ Passes codecs set sha1 entry) ∧
        ∃ stopped, verifyLoop codecs set sha1 entries cache total = .error stopped := by
  induction entries generalizing cache total with
  | nil => exact .inl ⟨nofun, rfl⟩
  | cons entry rest ih =>
    rw [verifyLoop, streamBytes]
    by_cases file : entry.kind = .file
    · rw [if_neg (not_not_intro file)]
      obtain ⟨stopped, fails, none_⟩ | ⟨data, after, read, kept, stream⟩ :=
        readEntryData_eq sound entry
      · rw [fails]
        refine .inr ⟨⟨entry, List.mem_cons_self, file, ?_⟩, stopped, rfl⟩
        rintro ⟨data, read, -⟩
        rw [none_] at read
        cases read
      · rw [read]
        cases data with
        | none =>
          refine .inr ⟨⟨entry, List.mem_cons_self, file, ?_⟩, _, rfl⟩
          rintro ⟨data, found, -⟩
          rw [stream] at found
          cases found
        | some data =>
          cases checked : checkStream sha1 set.path entry data with
          | error error =>
            simp only [checked]
            refine .inr ⟨⟨entry, List.mem_cons_self, file, ?_⟩, _, rfl⟩
            rintro ⟨other, found, checks⟩
            rw [stream] at found
            cases found
            rw [checkStream_eq_ok_iff.mpr checks] at checked
            cases checked
          | ok =>
            have checks := checkStream_eq_ok_iff.mp checked
            have passes : Passes codecs set sha1 entry := ⟨data, stream, checks⟩
            simp only [checked]
            rw [if_pos ⟨file, passes.sha1_ne⟩, checks.1]
            obtain ⟨all, result⟩ | ⟨⟨bad, member, fails⟩, result⟩ :=
              ih kept (saturatingAdd total entry.size)
            · exact .inl ⟨List.forall_mem_cons.mpr ⟨fun _ => passes, all⟩, result⟩
            · exact .inr ⟨⟨bad, List.mem_cons_of_mem _ member, fails⟩, result⟩
    · rw [if_pos file, if_neg fun both => file both.1]
      obtain ⟨all, result⟩ | ⟨⟨bad, member, fails⟩, result⟩ := ih sound total
      · exact .inl ⟨List.forall_mem_cons.mpr ⟨fun is => absurd is file, all⟩, result⟩
      · exact .inr ⟨⟨bad, List.mem_cons_of_mem _ member, fails⟩, result⟩

/-- Nothing is left out of a test, and nothing cancels it. -/
structure TestOptions.Everything (options : TestOptions) : Prop where
  selected : options.selectedPaths = []
  going : ∀ check, options.isCancelled check = false

theorem TestOptions.Everything.selects {options : TestOptions} (all : options.Everything)
    (path : Text) : options.selects path = true := by
  unfold TestOptions.selects
  rw [all.selected]
  rfl

theorem testLoop_eq (sha1 : List UInt8 → List UInt8) (entries : List WimEntry)
    {options : TestOptions} (everything : options.Everything) (sound : cache.Sound codecs set)
    (check : Nat) (report : WimReport) :
    (∀ entry ∈ entries, entry.kind = .file → entry.sha1 ≠ noHash →
        Passes codecs set sha1 entry) ∧
        (∃ result, testLoop codecs set sha1 options entries check cache report = .ok result ∧
          result.bytes = streamBytes report.bytes entries) ∨
      (∃ entry ∈ entries, entry.kind = .file ∧ entry.sha1 ≠ noHash ∧
        ¬ Passes codecs set sha1 entry) ∧
        ∃ stopped, testLoop codecs set sha1 options entries check cache report =
          .error stopped := by
  induction entries generalizing cache check report with
  | nil => exact .inl ⟨nofun, report, rfl, rfl⟩
  | cons entry rest ih =>
    rw [testLoop, streamBytes, everything.going, if_neg (by decide), everything.selects,
      if_neg (by decide)]
    by_cases file : entry.kind = .file
    · rw [if_pos file]
      obtain ⟨stopped, fails, none_⟩ | ⟨data, after, read, kept, stream⟩ :=
        readEntryData_eq sound entry
      · rw [fails]
        refine .inr ⟨⟨entry, List.mem_cons_self, file, ?_, ?_⟩, _, rfl⟩
        · intro zero
          rw [entryData_of_noHash zero] at none_
          cases none_
        · rintro ⟨data, read, -⟩
          rw [none_] at read
          cases read
      · rw [read]
        cases data with
        | none =>
          have zero : entry.sha1 = noHash :=
            Decidable.byContradiction fun hash => entryData_ne_none hash stream
          rw [if_neg fun both => both.2 zero]
          obtain ⟨all, result⟩ | ⟨⟨bad, member, fails⟩, result⟩ :=
            ih kept (check + 1) { report with entries := saturatingAdd report.entries 1 }
          · exact .inl ⟨List.forall_mem_cons.mpr ⟨fun _ hash => absurd zero hash, all⟩, result⟩
          · exact .inr ⟨⟨bad, List.mem_cons_of_mem _ member, fails⟩, result⟩
        | some data =>
          have hash : entry.sha1 ≠ noHash := by
            intro zero
            rw [entryData_of_noHash zero] at stream
            cases stream
          cases checked : checkStream sha1 set.path entry data with
          | error error =>
            simp only [checked]
            refine .inr ⟨⟨entry, List.mem_cons_self, file, hash, ?_⟩, _, rfl⟩
            rintro ⟨other, found, checks⟩
            rw [stream] at found
            cases found
            rw [checkStream_eq_ok_iff.mpr checks] at checked
            cases checked
          | ok =>
            have checks := checkStream_eq_ok_iff.mp checked
            have passes : Passes codecs set sha1 entry := ⟨data, stream, checks⟩
            simp only [checked]
            rw [if_pos ⟨file, hash⟩, checks.1]
            obtain ⟨all, result⟩ | ⟨⟨bad, member, fails⟩, result⟩ :=
              ih kept (check + 1) { report with
                entries := saturatingAdd report.entries 1
                bytes := saturatingAdd report.bytes entry.size }
            · exact .inl ⟨List.forall_mem_cons.mpr ⟨fun _ _ => passes, all⟩, result⟩
            · exact .inr ⟨⟨bad, List.mem_cons_of_mem _ member, fails⟩, result⟩
    · rw [if_neg file, if_neg fun both => file both.1]
      obtain ⟨all, result⟩ | ⟨⟨bad, member, fails⟩, result⟩ :=
        ih sound (check + 1) { report with entries := saturatingAdd report.entries 1 }
      · exact .inl ⟨List.forall_mem_cons.mpr ⟨fun is => absurd is file, all⟩, result⟩
      · exact .inr ⟨⟨bad, List.mem_cons_of_mem _ member, fails⟩, result⟩

/-! ## Agreement -/

/-- Both fail, or both succeed with the same number of bytes. -/
def Agree : Read Nat → Except (Stop WimBackendError) WimReport → Prop
  | .ok verified, .ok report => report.bytes = verified
  | .error _, .error _ => True
  | _, _ => False

/-- **Verifying agrees with testing** unless some file has no hash, and so no stream, and the
streams of all others pass. -/
theorem verify_agrees_iff (sound : cache.Sound codecs set) {options : TestOptions}
    (everything : options.Everything) :
    Agree (verify codecs set sha1 cache) (test codecs set sha1 options) ↔
      ∀ entries, set.entries codecs = .ok entries →
        (∀ entry ∈ entries, entry.kind = .file → entry.sha1 ≠ noHash) ∨
          ∃ entry ∈ entries, entry.kind = .file ∧ entry.sha1 ≠ noHash ∧
            ¬ Passes codecs set sha1 entry := by
  unfold verify test
  cases listed : set.entries codecs with
  | error stopped => exact iff_of_true trivial nofun
  | ok entries =>
    simp only [Except.ok.injEq, forall_eq']
    show Agree (verifyLoop codecs set sha1 entries cache 0) _ ↔ _
    obtain ⟨all, verified⟩ | ⟨⟨bad, member, file, fails⟩, stopped, verified⟩ :=
      verifyLoop_eq sha1 entries sound 0
    · obtain ⟨-, report, tested, bytes⟩ | ⟨⟨bad, member, file, -, fails⟩, -⟩ :=
        testLoop_eq sha1 entries everything (ResourceCache.sound_empty codecs set) 0 {}
      · rw [verified, tested]
        exact iff_of_true bytes (.inl fun entry member file => (all entry member file).sha1_ne)
      · exact absurd (all bad member file) fails
    · obtain ⟨passing, report, tested, -⟩ | ⟨broken, stopped', tested⟩ :=
        testLoop_eq sha1 entries everything (ResourceCache.sound_empty codecs set) 0 {}
      · rw [verified, tested]
        refine iff_of_false id ?_
        rintro (hashed | ⟨other, member', file', hash, fails'⟩)
        · exact fails (passing bad member file (hashed bad member file))
        · exact fails' (passing other member' file' hash)
      · rw [verified, tested]
        exact iff_of_true trivial (.inr broken)

end

/-! ## A file without a stream -/

/-- A directory with one file, whose hash is zero. -/
def emptyFileMetadata : List UInt8 :=
  leU64 8 ++
    (leU64 102 ++ leU32 fileAttributeDirectory ++ List.replicate 4 0 ++ leU64 112 ++
      List.replicate 78 0) ++ [0, 0] ++
    (leU64 104 ++ List.replicate 92 0 ++ leU16 2 ++ [97, 0]) ++ List.replicate 8 0

/-- A part that holds the directory, uncompressed. -/
def emptyFilePart : WimPart where
  path := "a.wim".toList
  file := emptyFileMetadata
  chunkSize := 32768
  compression := .none

def emptyFileSet : WimSet where
  first := emptyFilePart
  others := []
  lut := fun _ => none
  metadataResources := [⟨⟨2, 0, 224, 224⟩, List.replicate 20 1, 0⟩]

def emptyFile : WimEntry where
  index := 0
  path := ['a']
  kind := .file
  size := 0
  linkTarget := none
  sha1 := noHash
  reparseTag := 0

def emptyFileBuffer : Slice := ⟨emptyFileMetadata, by decide +kernel⟩

theorem parse_emptyFileBuffer :
    parseDentries emptyFileBuffer none 0 = .ok ([emptyFile], 1) := by
  have root := @readDentry_of_inside emptyFileBuffer 8 (by decide +kernel) (by decide +kernel)
  have file := @readDentry_of_inside emptyFileBuffer 112 (by decide +kernel) (by decide +kernel)
  have last := @readDentry_of_none emptyFileBuffer 216 (by decide) (.inr (by decide +kernel))
  have list : (dentryAt emptyFileBuffer 8).subdirOffset = 112 := by decide +kernel
  have alone : (dentryAt emptyFileBuffer 112).numExtraStreams = 0 := by decide +kernel
  have streams : readExtraStreams emptyFileBuffer (dentryAt emptyFileBuffer 112).numExtraStreams 0
      (wrappingAdd 112 (align8 (dentryAt emptyFileBuffer 112).length)) none =
        .ok (216, none) := by
    rw [alone, show wrappingAdd 112 (align8 (dentryAt emptyFileBuffer 112).length) = 216 by
      decide +kernel]
    rfl
  have walk := @walkFrom_of_leaf emptyFileBuffer 112 216 0 []
    { nextIndex := 0, visited := [112, 8] } _ none file streams (by decide +kernel)
    (by decide +kernel)
  rw [walkFrom_of_none last] at walk
  rw [@parseDentries_of_secured emptyFileBuffer none 0 8 (by decide +kernel) (by decide +kernel),
    if_neg (by decide +kernel), root]
  have entered : walkDentryList emptyFileBuffer 112 [] { nextIndex := 0, visited := [8] } 0 =
      .ok { entries := [emptyFile], nextIndex := 1, visited := [112, 8] } := by
    have pushed : (dentryAt emptyFileBuffer 112).push [] none
        { nextIndex := 0, visited := [112, 8] } =
        { entries := [emptyFile], nextIndex := 1, visited := [112, 8] } := by
      have fields : ({
          index := 0
          path := (dentryAt emptyFileBuffer 112).fullPath []
          kind := (dentryAt emptyFileBuffer 112).kind
          size := 0
          linkTarget := none
          sha1 := (dentryAt emptyFileBuffer 112).dataHash none
          reparseTag := (dentryAt emptyFileBuffer 112).reparseTag } : WimEntry) = emptyFile := by
        decide +kernel
      exact congrArg (fun entry =>
        ({ entries := [entry], nextIndex := 1, visited := [112, 8] } : Walked)) fields
    rw [← pushed]
    exact walk
  simp only [bind, Except.bind, list]
  rw [if_pos (by decide +kernel), show (none : Option Text).getD [] = [] from rfl, entered]
  rfl

/-- A resource that is a whole uncompressed part. -/
theorem readResource_whole (codecs : ChunkCodecs) {part : WimPart} {flags : Nat}
    (plain : part.compression = .none) (some_ : part.file.length ≠ 0)
    (small : part.file.length ≤ maxResourceBytes) :
    readResource codecs part ⟨flags, 0, part.file.length, part.file.length⟩ = .ok part.file := by
  unfold readResource
  dsimp only
  rw [if_neg some_, if_neg (Nat.not_lt.mpr small), ite_self, if_neg (by omega),
    if_pos (.inr plain), List.drop_zero, List.take_length, List.take_length]

/-- One image whose metadata is the whole first part. -/
theorem readImageEntries_whole (codecs : ChunkCodecs) {set : WimSet} {metadata : WimLookupEntry}
    {nextIndex after : Nat} {entries resolved : List WimEntry}
    (first : metadata.partIndex = 0)
    (read : readResource codecs set.first metadata.res = .ok set.first.file)
    (inMemory : set.first.file.length < 2 ^ 63)
    (parsed : parseDentries ⟨set.first.file, inMemory⟩ none nextIndex = .ok (entries, after))
    (details : set.resolveEntryDetails codecs entries = .ok resolved) :
    set.readImageEntries codecs metadata none nextIndex = .ok (resolved, after) := by
  have part : set.part metadata = .ok set.first := by
    unfold WimSet.part
    rw [first]
    rfl
  unfold WimSet.readImageEntries WimSet.readStream
  rw [part]
  simp only [bind, Except.bind, read, dif_pos inMemory, parsed, details]
  rfl

theorem entries_emptyFileSet (codecs : ChunkCodecs) :
    emptyFileSet.entries codecs = .ok [emptyFile] := by
  have whole := @readResource_whole codecs emptyFilePart 2 rfl (by decide +kernel)
    (by decide +kernel)
  have long : emptyFilePart.file.length = 224 := by decide +kernel
  rw [long] at whole
  have image := @readImageEntries_whole codecs emptyFileSet
    ⟨⟨2, 0, 224, 224⟩, List.replicate 20 1, 0⟩ _ _ _ _ rfl whole emptyFileBuffer.addressable
    parse_emptyFileBuffer rfl
  have images : emptyFileSet.imagesEntries codecs false
      [⟨⟨2, 0, 224, 224⟩, List.replicate 20 1, 0⟩] 1 0 = .ok [emptyFile] := by
    rw [WimSet.imagesEntries, if_neg (by decide), image]
    rfl
  exact images

/-- No codec is asked for. -/
def noCodecs : ChunkCodecs := ⟨fun _ _ => .error "", fun _ _ => .error ""⟩

/-- The archive with an empty file is tested without an error and fails to verify. -/
theorem verify_agrees_sample :
    ¬ Agree (verify noCodecs emptyFileSet id {}) (test noCodecs emptyFileSet id {}) := by
  have everything : ({} : TestOptions).Everything := ⟨rfl, fun _ => rfl⟩
  rw [verify_agrees_iff (ResourceCache.sound_empty noCodecs emptyFileSet) everything]
  intro condition
  rcases condition _ (entries_emptyFileSet noCodecs) with hashed | ⟨entry, member, -, hash, -⟩
  · exact hashed emptyFile List.mem_cons_self rfl rfl
  · obtain rfl := List.mem_singleton.mp member
    exact hash rfl

theorem empty_file_fails_to_verify : ¬ ∀ (codecs : ChunkCodecs) (set : WimSet)
    (sha1 : List UInt8 → List UInt8) (cache : ResourceCache), cache.Sound codecs set →
      ∀ options : TestOptions, options.Everything →
        Agree (verify codecs set sha1 cache) (test codecs set sha1 options) := by
  intro always
  obtain ⟨set, listed⟩ : ∃ set : WimSet, set.entries noCodecs = .ok [emptyFile] :=
    ⟨emptyFileSet, entries_emptyFileSet noCodecs⟩
  have everything : ({} : TestOptions).Everything := ⟨rfl, fun _ => rfl⟩
  have agrees := always noCodecs set id {} (ResourceCache.sound_empty _ _) {} everything
  unfold verify test at agrees
  rw [listed] at agrees
  exact agrees

end Wim

end ZManager
