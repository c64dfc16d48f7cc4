import ZManager.Create.SplitZip

/-! # What the split ZIP writer stages

After every step the staged outputs hold the pieces of the bytes written so far,
the last of them being filled. A step that fails has dropped all of them.
-/

namespace ZManager

namespace ZipSplitVolumeWriter

variable {outcome : Except ZipBackendError ZipSplitVolumeWriter × Files}

/-- The staged volumes of a writer hold the pieces of a stream. -/
structure Stages (names : TempNames) (base files : Files) (writer : ZipSplitVolumeWriter)
    (staged : List (AtomicOutputFile × List UInt8)) (stream : List UInt8) : Prop where
  held : Staged base files staged
  outputs : staged.map Prod.fst = writer.outputs
  finals : staged.map (·.1.finalPath) = writer.paths.take writer.nextIndex
  index : staged.length = writer.nextIndex
  contents : staged.map (·.2) =
    (List.range writer.nextIndex).map (Bytes.piece writer.volumeSize stream)
  temps : ∀ output ∈ staged, ∃ attempt,
    output.1.tempPath = AtomicOutputFile.tempPathAt names output.1.finalPath attempt

/-- The writer is filling the last of its volumes. -/
structure Holds (names : TempNames) (base files : Files) (writer : ZipSplitVolumeWriter)
    (staged : List (AtomicOutputFile × List UInt8)) (stream : List UInt8) : Prop
    extends Stages names base files writer staged stream where
  current : ∃ output, writer.current = some output
  length : stream.length + writer.volumeSize =
    writer.nextIndex * writer.volumeSize + writer.currentWritten
  room : writer.currentWritten ≤ writer.volumeSize

variable {names : TempNames} {base files last : Files} {writer writer' : ZipSplitVolumeWriter}
  {staged : List (AtomicOutputFile × List UInt8)} {stream bytes : List UInt8}

theorem outputs_finishCurrentVolume (writer : ZipSplitVolumeWriter) :
    writer.finishCurrentVolume.outputs = writer.outputs := by
  simp [finishCurrentVolume, outputs]

section

variable (stages : Stages names base files writer staged stream)
include stages

/-- A volume that cannot be staged takes the others with it. -/
theorem startNextVolume_error {failure : ZipBackendError}
    (failed : writer.startNextVolume names files = (.error failure, last)) : last = base := by
  unfold startNextVolume at failed
  cases path : writer.paths[writer.nextIndex]? with
  | none =>
    simp only [path, ← stages.outputs, Prod.mk.injEq] at failed
    rw [← failed.2, stages.held.dropAll]
  | some path' =>
    cases created : AtomicOutputFile.create names files path' with
    | error source =>
      simp only [path, created, ← stages.outputs, Prod.mk.injEq] at failed
      rw [← failed.2, stages.held.dropAll]
    | ok result => simp [path, created] at failed

/-- The next volume is staged empty beside those that are full. -/
theorem startNextVolume_ok (idle : writer.current = none)
    (full : stream.length = writer.nextIndex * writer.volumeSize)
    (done : writer.startNextVolume names files = (.ok writer', last)) :
    ∃ output, Holds names base last writer' (staged ++ [(output, [])]) stream ∧
      writer'.paths = writer.paths ∧ writer'.volumeSize = writer.volumeSize ∧
      writer'.currentWritten = 0 := by
  unfold startNextVolume at done
  cases path : writer.paths[writer.nextIndex]? with
  | none => simp [path] at done
  | some path' =>
    cases created : AtomicOutputFile.create names files path' with
    | error source => simp [path, created] at done
    | ok result =>
      obtain ⟨output, files'⟩ := result
      obtain ⟨final, ⟨attempt, temp⟩, held⟩ := stages.held.create created
      simp only [path, created, Prod.mk.injEq, Except.ok.injEq] at done
      obtain ⟨rfl, rfl⟩ := done
      refine ⟨output, ⟨⟨held, ?_, ?_, ?_, ?_, ?_⟩, ⟨output, rfl⟩, ?_, Nat.zero_le _⟩,
        rfl, rfl, rfl⟩
      · have completed : writer.outputs = writer.completed := by
          simp [ZipSplitVolumeWriter.outputs, idle]
        have outputs := stages.outputs
        rw [completed] at outputs
        simp [ZipSplitVolumeWriter.outputs, outputs]
      · rw [List.map_append, stages.finals, List.map_singleton, final, List.take_add_one,
          path]
        rfl
      · rw [List.length_append, stages.index, List.length_singleton]
      · have empty : Bytes.piece writer.volumeSize stream writer.nextIndex = [] := by
          rw [Bytes.piece, List.drop_eq_nil_of_le (by omega), List.take_nil]
        rw [List.map_append, stages.contents, List.range_succ, List.map_append,
          List.map_singleton, List.map_singleton, empty]
      · intro candidate member
        rcases List.mem_append.mp member with inside | new
        · exact stages.temps candidate inside
        · rw [List.mem_singleton.mp new]
          exact ⟨attempt, by rw [temp, final]⟩
      · change stream.length + writer.volumeSize =
          (writer.nextIndex + 1) * writer.volumeSize + 0
        rw [full, Nat.add_mul, Nat.one_mul, Nat.add_zero]

/-- A full volume set aside is still staged. -/
theorem Stages.finishCurrentVolume :
    Stages names base files writer.finishCurrentVolume staged stream :=
  { stages with outputs := stages.outputs.trans (outputs_finishCurrentVolume writer).symm }

end

theorem Holds.nextIndex_pos (holds : Holds names base files writer staged stream) :
    0 < writer.nextIndex := by
  obtain ⟨output, current⟩ := holds.current
  have outputs := congrArg List.length holds.outputs
  rw [List.length_map, holds.index] at outputs
  simp only [ZipSplitVolumeWriter.outputs, current, Option.toList_some, List.length_append,
    List.length_singleton] at outputs
  omega

/-- Writing into the room that the current volume has. -/
theorem Holds.append {output : AtomicOutputFile}
    (holds : Holds names base files writer staged stream) (current : writer.current = some output)
    (fits : writer.currentWritten + bytes.length ≤ writer.volumeSize) :
    ∃ staged', Holds names base (files.appendFile output.tempPath bytes)
      { writer with currentWritten := writer.currentWritten + bytes.length } staged'
      (stream ++ bytes) := by
  have positive := holds.nextIndex_pos
  obtain ⟨index, next⟩ := Nat.exists_eq_succ_of_ne_zero positive.ne'
  have length := holds.length
  rw [next, Nat.succ_mul] at length
  -- the current output is the last of the staged ones
  have nonempty : staged ≠ [] := by
    intro empty
    have count := holds.index
    rw [empty, List.length_nil] at count
    omega
  obtain ⟨front, latest, rfl⟩ := (List.eq_nil_or_concat' staged).resolve_left nonempty
  obtain ⟨output', before⟩ := latest
  have outputs := holds.outputs
  simp only [ZipSplitVolumeWriter.outputs, current, List.map_append, List.map_singleton,
    Option.toList_some] at outputs
  obtain ⟨completed, same⟩ := List.append_inj' outputs rfl
  cases same
  have contents := holds.contents
  rw [next, List.range_succ, List.map_append, List.map_append, List.map_singleton,
    List.map_singleton] at contents
  obtain ⟨full, piece⟩ := List.append_inj' contents rfl
  have piece : before = Bytes.piece writer.volumeSize stream index := by simpa using piece
  refine ⟨front ++ [(output, before ++ bytes)],
    ⟨holds.held.append bytes, ?_, ?_, ?_, ?_, ?_⟩, holds.current, ?_, fits⟩
  · rw [List.map_append, List.map_singleton, completed]
    simp [ZipSplitVolumeWriter.outputs, current]
  · rw [← holds.finals]
    simp
  · rw [← holds.index]
    simp
  · change _ = (List.range writer.nextIndex).map
      (Bytes.piece writer.volumeSize (stream ++ bytes))
    rw [List.map_append, full, next, List.range_succ, List.map_append, List.map_singleton,
      List.map_singleton, Bytes.piece_append_last (by omega) (by rw [Nat.succ_mul]; omega), piece]
    congr 1
    apply List.map_congr_left
    intro other member
    rw [List.mem_range] at member
    have before : (other + 1) * writer.volumeSize ≤ index * writer.volumeSize :=
      Nat.mul_le_mul_right _ member
    rw [Bytes.piece_append_of_le _ (by omega)]
  · intro candidate member
    rcases List.mem_append.mp member with inside | last
    · exact holds.temps candidate (List.mem_append_left _ inside)
    · rw [List.mem_singleton.mp last]
      exact holds.temps (output, before) (List.mem_append_right _ (List.mem_singleton.mpr rfl))
  · change (stream ++ bytes).length + writer.volumeSize =
      writer.nextIndex * writer.volumeSize + (writer.currentWritten + bytes.length)
    rw [List.length_append, next, Nat.succ_mul]
    omega

/-- What a step of the writer leads to: a failure that has dropped every output, or
a writer with the same volumes that holds more of the stream. -/
def Continues (names : TempNames) (base : Files) (writer : ZipSplitVolumeWriter)
    (stream : List UInt8) :
    Except ZipBackendError ZipSplitVolumeWriter × Files → Prop
  | (.error _, files) => files = base
  | (.ok writer', files) =>
    (∃ staged, Holds names base files writer' staged stream) ∧
      writer'.paths = writer.paths ∧ writer'.volumeSize = writer.volumeSize

theorem Continues.of_same (continues : Continues names base writer' stream outcome)
    (paths : writer'.paths = writer.paths) (size : writer'.volumeSize = writer.volumeSize) :
    Continues names base writer stream outcome := by
  obtain ⟨result, files⟩ := outcome
  cases result with
  | error failure => exact continues
  | ok later =>
    obtain ⟨holds, paths', size'⟩ := continues
    exact ⟨holds, paths'.trans paths, size'.trans size⟩

section

variable (holds : Holds names base files writer staged stream)
include holds

/-- Filling the current volume as far as the bytes go. -/
theorem Holds.fill (space : writer.currentWritten < writer.volumeSize) (nonempty : bytes ≠ []) :
    ∃ output, writer.current = some output ∧ ∃ written,
      written = min (writer.volumeSize - writer.currentWritten) bytes.length ∧
      0 < written ∧ written ≤ bytes.length ∧
      ∃ staged', Holds names base (files.appendFile output.tempPath (bytes.take written))
        { writer with currentWritten := writer.currentWritten + written } staged'
        (stream ++ bytes.take written) := by
  have some_byte := List.length_pos_iff.mpr nonempty
  obtain ⟨output, current⟩ := holds.current
  refine ⟨output, current, _, rfl, by omega, by omega, ?_⟩
  generalize counted : min (writer.volumeSize - writer.currentWritten) bytes.length = written
  have taken : (bytes.take written).length = written := by
    rw [List.length_take]
    omega
  have appended := @Holds.append names base files writer staged stream (bytes.take written)
    output holds current (by omega)
  rwa [taken] at appended

/-- One round writes part of the bytes, and at least one of them. -/
theorem Holds.writeSome (positive : 0 < writer.volumeSize) (nonempty : bytes ≠ []) :
    (∃ failure, writer.writeSome names bytes files = (.error failure, base)) ∨
      ∃ writer' written files', writer.writeSome names bytes files =
          (.ok (writer', written), files') ∧ 0 < written ∧ written ≤ bytes.length ∧
        (∃ staged', Holds names base files' writer' staged' (stream ++ bytes.take written)) ∧
        writer'.paths = writer.paths ∧ writer'.volumeSize = writer.volumeSize := by
  unfold ZipSplitVolumeWriter.writeSome
  by_cases full : writer.currentWritten = writer.volumeSize
  · rw [if_pos full]
    have stages := holds.toStages.finishCurrentVolume
    rcases started : writer.finishCurrentVolume.startNextVolume names files with ⟨result, files'⟩
    cases result with
    | error failure =>
      left
      rw [startNextVolume_error stages started]
      exact ⟨failure, rfl⟩
    | ok writer' =>
      right
      have length := holds.length
      have filled : stream.length = writer.nextIndex * writer.volumeSize := by omega
      obtain ⟨output, holds', paths, size, written⟩ :=
        startNextVolume_ok stages rfl filled started
      have size : writer'.volumeSize = writer.volumeSize := size
      obtain ⟨output, current, count, rfl, low, high, filled⟩ :=
        holds'.fill (by omega) nonempty
      simp only [current] at filled ⊢
      exact ⟨_, _, _, rfl, low, high, filled, paths, size⟩
  · rw [if_neg full]
    right
    have space := lt_of_le_of_ne holds.room full
    obtain ⟨output, current, count, rfl, low, high, filled⟩ := holds.fill space nonempty
    simp only [current] at filled ⊢
    exact ⟨_, _, _, rfl, low, high, filled, rfl, rfl⟩

theorem Holds.writeRounds {rounds : Nat} (positive : 0 < writer.volumeSize)
    (enough : bytes.length ≤ rounds) :
    Continues names base writer (stream ++ bytes) (writer.writeRounds names rounds bytes files) :=
        by
  induction rounds generalizing writer files staged stream bytes with
  | zero =>
    have empty : bytes = [] := List.length_eq_zero_iff.mp (Nat.le_zero.mp enough)
    rw [empty, List.append_nil]
    exact ⟨⟨staged, holds⟩, rfl, rfl⟩
  | succ rounds ih =>
    unfold ZipSplitVolumeWriter.writeRounds
    by_cases empty : bytes = []
    · rw [if_pos empty, empty, List.append_nil]
      exact ⟨⟨staged, holds⟩, rfl, rfl⟩
    rw [if_neg empty]
    rcases holds.writeSome positive empty with ⟨failure, failed⟩ |
      ⟨writer', written, files', done, some_byte, inside, ⟨staged', holds'⟩, paths, size⟩
    · rw [failed]
      rfl
    · rw [done]
      have rest := @ih _ writer' _ _ (bytes.drop written) holds' (by omega)
        (by rw [List.length_drop]; omega)
      rw [List.append_assoc, List.take_append_drop] at rest
      exact rest.of_same paths size

/-- **Writing appends to the stream** that the staged volumes hold. -/
theorem Holds.writeAll (positive : 0 < writer.volumeSize) (bytes : List UInt8) :
    Continues names base writer (stream ++ bytes) (writer.writeAll names bytes files) :=
  holds.writeRounds positive (Nat.le_refl _)

end

/-- **Copying appends what is read** of the source. -/
theorem Holds.copyFrom {sourcePath : PathBuf} {count : Nat} {unread : List UInt8}
    (holds : Holds names base files writer staged stream) (positive : 0 < writer.volumeSize)
    (enough : count ≤ unread.length) :
    Continues names base writer (stream ++ unread.take count)
      (writer.copyFrom names sourcePath count unread files) := by
  induction count using Nat.strong_induction_on generalizing writer files staged stream unread with
  | _ count ih =>
    unfold ZipSplitVolumeWriter.copyFrom
    by_cases nothing : count = 0
    · rw [if_pos nothing, nothing, List.take_zero, List.append_nil]
      exact ⟨⟨staged, holds⟩, rfl, rfl⟩
    rw [if_neg nothing, if_neg (by omega)]
    have progress : 0 < min count copyBufferSize := by
      unfold copyBufferSize
      omega
    generalize chunk : min count copyBufferSize = size at progress
    have chunkRead := holds.writeAll positive (unread.take size)
    rcases outcome : writer.writeAll names (unread.take size) files with ⟨result, files'⟩
    rw [outcome] at chunkRead
    cases result with
    | error failure => exact chunkRead
    | ok writer' =>
      obtain ⟨⟨staged', holds'⟩, paths, same⟩ := chunkRead
      have rest := @ih (count - size) (by omega) _ writer' _ _ (unread.drop size) holds'
        (by omega) (by rw [List.length_drop]; omega)
      rw [List.append_assoc, ← List.take_add, Nat.add_sub_cancel' (by omega)] at rest
      exact rest.of_same paths same

/-- A new writer stages its first volume. -/
theorem new_continues {paths : List PathBuf} {volumeSize : Nat} :
    Continues names files ⟨paths, volumeSize, 0, none, 0, []⟩ []
      (ZipSplitVolumeWriter.new names paths volumeSize files) := by
  have stages : Stages names files files ⟨paths, volumeSize, 0, none, 0, []⟩ [] [] :=
    ⟨.nil files, rfl, rfl, rfl, rfl, by simp⟩
  unfold ZipSplitVolumeWriter.new
  rcases started : startNextVolume names ⟨paths, volumeSize, 0, none, 0, []⟩ files with
    ⟨result, files'⟩
  cases result with
  | error failure => exact startNextVolume_error stages started
  | ok writer =>
    obtain ⟨output, holds, same, size, -⟩ :=
      startNextVolume_ok stages rfl (Nat.zero_mul _).symm started
    exact ⟨⟨_, holds⟩, same, size⟩

/-- A failed step ends a run, a successful one hands its writer on. -/
theorem Continues.andThen {α : Type}
    {next : ZipSplitVolumeWriter → Files → Except ZipBackendError α × Files}
    (continues : Continues names base writer stream outcome)
    {goal : Except ZipBackendError α × Files → Prop}
    (failed : ∀ failure, goal (.error failure, base))
    (onward : ∀ writer' files' staged, Holds names base files' writer' staged stream →
      writer'.paths = writer.paths → writer'.volumeSize = writer.volumeSize →
      goal (next writer' files')) :
    goal (ZManager.andThen outcome next) := by
  obtain ⟨result, files'⟩ := outcome
  cases result with
  | error failure =>
    have same : files' = base := continues
    rw [same]
    exact failed failure
  | ok writer' =>
    obtain ⟨⟨staged, holds⟩, paths, size⟩ := continues
    exact onward writer' files' staged holds paths size

section

variable {destination : PathBuf} {existing : List PathBuf} {replaceExisting : Bool}

/-- Finishing a writer that has staged every volume replaces the old ones. -/
theorem Holds.finish_of_all (holds : Holds names base files writer staged stream)
    (all : staged.length = writer.paths.length)
    (available : ∀ path ∈ destination :: (writer.paths ++ existing),
      base.IsAvailable replaceExisting path)
    (distinct : (writer.paths.map Files.place).Nodup)
    (other : ∀ path ∈ destination :: (writer.paths ++ existing),
      ∀ output ∈ staged, Files.place path ≠ Files.place output.1.tempPath) :
    writer.finish destination existing replaceExisting files =
        (.ok (), publish staged (if replaceExisting then
          removeAll (existing ++ [destination]) base else base)) ∧
      staged.map (·.1.finalPath) = writer.paths := by
  have completed : writer.finishCurrentVolume.completed = staged.map Prod.fst := holds.outputs.symm
  have finals : staged.map (·.1.finalPath) = writer.paths := by
    rw [holds.finals, List.take_of_length_le]
    rw [← holds.index, all]
  have committed := holds.held.commitSplitVolumes (fun _ => destination)
    (by rw [finals]; exact available)
    (by rw [← finals, List.map_map] at distinct; exact distinct)
    (by rw [finals]; exact other)
  unfold ZipSplitVolumeWriter.finish
  simp only [completed, List.length_map]
  rw [if_neg (by simpa [ZipSplitVolumeWriter.finishCurrentVolume] using all), committed]
  exact ⟨rfl, finals⟩

/-- **Finishing** either drops everything or replaces the old volumes by the staged
ones. -/
theorem Holds.finish (holds : Holds names base files writer staged stream)
    (available : ∀ path ∈ destination :: (writer.paths ++ existing),
      base.IsAvailable replaceExisting path)
    (distinct : (writer.paths.map Files.place).Nodup)
    (other : ∀ path ∈ destination :: (writer.paths ++ existing),
      ∀ output ∈ staged, Files.place path ≠ Files.place output.1.tempPath) :
    (∃ failure, writer.finish destination existing replaceExisting files =
        (.error failure, base)) ∨
      writer.finish destination existing replaceExisting files =
          (.ok (), publish staged (if replaceExisting then
            removeAll (existing ++ [destination]) base else base)) ∧
        staged.map (·.1.finalPath) = writer.paths := by
  by_cases all : staged.length = writer.paths.length
  · exact .inr (holds.finish_of_all all available distinct other)
  · left
    have completed : writer.finishCurrentVolume.completed = staged.map Prod.fst :=
      holds.outputs.symm
    unfold ZipSplitVolumeWriter.finish
    simp only [completed, List.length_map, outputs_finishCurrentVolume, ← holds.outputs,
      holds.held.dropAll]
    rw [if_pos (by simpa [ZipSplitVolumeWriter.finishCurrentVolume] using all)]
    exact ⟨_, rfl⟩

end

end ZipSplitVolumeWriter

end ZManager
