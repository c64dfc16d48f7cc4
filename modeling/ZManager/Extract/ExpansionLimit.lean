import ZManager.Extract.Stream

/-! # The expansion limit and the bytes written

The planner charges what an entry declares; the copy loop writes what its reader
delivers. Where no file delivers more than it declares, the bytes charged bound
the bytes written, and the limit bounds the bytes charged
(`written_within_limit`).
-/

namespace ZManager

open StepM

/-! ## Steps that write no file bytes -/

/-- A condition on the planner and the bytes written only. -/
def ReadsBytesOnly (condition : StreamState → Prop) : Prop :=
  ∀ before after : StreamState, after.planner = before.planner →
    after.writtenFileBytes = before.writtenFileBytes → condition before → condition after

variable {condition : StreamState → Prop}

section

variable (reads : ReadsBytesOnly condition)
include reads

theorem changeDisk_maintains (path : PathBuf)
    (operation : FileSystem (List UInt8) → Except IoErrorKind (FileSystem (List UInt8))) :
    Maintains condition (changeDisk path operation) := by
  refine .get_bind fun state holds => ?_
  split
  · exact .set fun _ _ => reads state _ rfl rfl holds
  · exact .throw fun _ same => same ▸ holds

theorem skipEntry_maintains (warning : String) :
    Maintains condition (skipEntry warning) :=
  .modify fun state holds => reads state _ rfl rfl holds

theorem countWritten_maintains (bytes : Nat) :
    Maintains condition (countWritten bytes) :=
  .modify fun state holds => reads state _ rfl rfl holds

theorem checkCancelled_maintains (environment : StreamEnvironment) :
    Maintains condition (checkCancelled environment) := by
  refine .get_bind fun state holds => ?_
  refine .set_bind fun _ _ => ?_
  have held := reads state { state with time := state.time + 1 } rfl rfl holds
  split_ifs
  · exact .throw fun _ same => same ▸ held
  · exact .pure fun _ same => same ▸ held

theorem prepareDestination_maintains (entry : ExtractionEntry) (plan : PlannedWrite) :
    Maintains condition (prepareDestination entry plan) := by
  unfold prepareDestination
  split_ifs
  · exact .pure fun _ held => held
  · exact changeDisk_maintains reads _ _

theorem materializeDeferredHardlinks_maintains :
    Maintains condition materializeDeferredHardlinks := by
  refine .get_bind fun state holds => ?_
  dsimp only
  split
  · exact .throw fun _ same => same ▸ holds
  · refine Triple.weaken (Maintains.forM fun link _ => changeDisk_maintains reads _ _)
      (fun _ same => same ▸ holds) (fun _ _ held => held) fun _ held => held

end

/-! ## The copy loop -/

/-- Conditions that leave room for a number of file bytes, of which writing uses
up a part. -/
structure IsRoom (room : Nat → StreamState → Prop) : Prop where
  reads : ∀ bytes, ReadsBytesOnly (room bytes)
  less : ∀ state {part bytes : Nat}, part ≤ bytes → room bytes state → room part state
  spend : ∀ state {part bytes : Nat}, part ≤ bytes → room bytes state →
    room (bytes - part) { state with
      time := state.time + 1
      writtenFileBytes := state.writtenFileBytes + part }

namespace IsRoom

variable {room : Nat → StreamState → Prop} (isRoom : IsRoom room)
  {environment : StreamEnvironment} {path : PathBuf}

include isRoom

theorem writeChunk (chunk : List UInt8) (rest : Nat) :
    Triple (room (chunk.length + rest)) (writeChunk environment path chunk)
      (fun _ => room rest) (room 0) := by
  refine .get_bind fun state holds => ?_
  split
  · refine .set fun _ _ => ?_
    have spent := isRoom.spend state (Nat.le_add_right chunk.length rest) holds
    rwa [Nat.add_sub_cancel_left] at spent
  · rename_i written _
    have short : min written chunk.length ≤ chunk.length + rest :=
      (Nat.min_le_right _ _).trans (Nat.le_add_right ..)
    refine .set_bind fun _ _ => .throw fun _ same => ?_
    rw [same]
    exact isRoom.less _ (Nat.zero_le _) (isRoom.spend state short holds)

/-- The copy loop uses up the bytes the reader delivers; a failure has used up a
part of them. -/
theorem copyChunks {failure : Option IoError} (chunks : List (List UInt8)) :
    Triple (room (chunks.takeWhile (· ≠ [])).flatten.length)
      (copyChunks environment path failure chunks) (fun _ => room 0) (room 0) := by
  induction chunks with
  | nil =>
    refine Triple.bind (checkCancelled_maintains (isRoom.reads 0) environment) fun _ => ?_
    cases failure with
    | none => exact .pure fun _ held => held
    | some source => exact .throw fun _ held => held
  | cons chunk rest ih =>
    have checked := checkCancelled_maintains
      (isRoom.reads ((chunk :: rest).takeWhile (· ≠ [])).flatten.length) environment
    refine Triple.bind (checked.weaken (fun _ held => held) (fun _ _ held => held)
      fun state held => isRoom.less state (Nat.zero_le _) held) fun _ => ?_
    by_cases empty : chunk = []
    · rw [if_pos empty]
      exact .pure fun state held => isRoom.less state (Nat.zero_le _) held
    · have taken : ((chunk :: rest).takeWhile (· ≠ [])).flatten.length =
          chunk.length + (rest.takeWhile (· ≠ [])).flatten.length := by
        simp [empty]
      rw [if_neg empty, taken]
      exact .bind (isRoom.writeChunk chunk _) fun _ => ih

theorem streamFileEntry (plan : PlannedWrite) (reader : EntryReader) :
    Triple (room reader.content.length) (streamFileEntry environment plan reader)
      (fun _ => room 0) (room 0) := by
  have keeps := fun bytes => changeDisk_maintains (isRoom.reads bytes) plan.destinationPath
  refine Triple.bind ((keeps reader.content.length _).weaken (fun _ held => held)
    (fun _ _ held => held) fun state held => isRoom.less state (Nat.zero_le _) held) fun _ => ?_
  exact .bind (isRoom.copyChunks reader.chunks) fun _ => keeps 0 _

/-- The room a write decision for an entry needs. -/
def needed (entry : ExtractionEntry) (reader : EntryReader) : Nat :=
  if entry.kind = .file then reader.content.length else 0

theorem writeTarEntry (entry : ExtractionEntry) (plan : PlannedWrite) (reader : EntryReader) :
    Triple (room (needed entry reader)) (writeTarEntry environment entry plan reader)
      (fun _ => room 0) (room 0) := by
  have keeps := changeDisk_maintains (isRoom.reads 0) plan.destinationPath
  have counts := countWritten_maintains (isRoom.reads 0)
  refine Triple.bind ((prepareDestination_maintains (isRoom.reads _) entry plan).weaken
    (fun _ held => held) (fun _ _ held => held)
    fun state held => isRoom.less state (Nat.zero_le _) held) fun _ => ?_
  unfold needed
  cases entry.kind with
  | directory => exact .bind (keeps _) fun _ => counts 0
  | file => exact .bind (isRoom.streamFileEntry plan reader) fun _ => counts _
  | symlink target => exact .bind (keeps _) fun _ => counts 0
  | hardlink target =>
    cases plan.linkTargetPath with
    | none => exact .throw fun _ held => held
    | some source => exact .modify fun state held => isRoom.reads 0 state _ rfl rfl held
  | device => exact .throw fun _ held => held
  | special => exact .throw fun _ held => held

theorem writeZipEntry (entry : ExtractionEntry) (plan : PlannedWrite) (reader : EntryReader) :
    Triple (room (needed entry reader)) (writeZipEntry environment entry plan reader)
      (fun _ => room 0) (room 0) := by
  have keeps := changeDisk_maintains (isRoom.reads 0) plan.destinationPath
  have counts := countWritten_maintains (isRoom.reads 0)
  have skips := skipEntry_maintains (isRoom.reads 0)
  refine Triple.bind ((prepareDestination_maintains (isRoom.reads _) entry plan).weaken
    (fun _ held => held) (fun _ _ held => held)
    fun state held => isRoom.less state (Nat.zero_le _) held) fun _ => ?_
  unfold needed
  cases entry.kind with
  | directory => exact .bind (keeps _) fun _ => counts 0
  | file => exact .bind (isRoom.streamFileEntry plan reader) fun _ => counts _
  | symlink target => exact .bind (keeps _) fun _ => counts 0
  | hardlink target =>
    cases plan.linkTargetPath with
    | none => exact .throw fun _ held => held
    | some source => exact .bind (keeps _) fun _ => counts 0
  | device => exact skips _
  | special => exact skips _

/-- One entry, when the planner's decision to write it makes room for it. -/
theorem processExtractionEntry {fold : CaseFolding} {resolver : Option OverwriteResolver}
    {write : ExtractionEntry → PlannedWrite → EntryReader → StreamM Unit}
    {entry : ExtractionEntry} {reader : EntryReader} {start : StreamState → Prop}
    (writes : ∀ plan, Triple (room (needed entry reader)) (write entry plan reader)
      (fun _ => room 0) (room 0))
    (enough : ∀ state, start state → room 0 state)
    (plans : Triple start (planStreamEntry fold resolver entry)
      (fun decision state => match decision with
        | .write _ => room (needed entry reader) state
        | .skip .. => room 0 state) (room 0)) :
    Triple start (processExtractionEntry environment fold resolver write entry reader)
      (fun _ => room 0) (room 0) := by
  unfold ZManager.processExtractionEntry
  split_ifs
  · exact (skipEntry_maintains (isRoom.reads 0) _).weaken enough (fun _ _ held => held)
      fun _ held => held
  · refine .bind plans fun decision => ?_
    cases decision with
    | write plan =>
      have checked := checkCancelled_maintains (isRoom.reads (needed entry reader)) environment
      refine .bind (checked.weaken (fun _ held => held) (fun _ _ held => held)
        fun state held => isRoom.less state (Nat.zero_le _) held) fun _ => writes plan
    | skip name reason =>
      exact .bind (checkCancelled_maintains (isRoom.reads 0) environment) fun _ =>
        skipEntry_maintains (isRoom.reads 0) _

end IsRoom

/-! ## Bytes charged -/

/-- The bytes written, with room for more, are within the bytes charged, which
are within the limit. -/
structure IsCharged (limit : UInt64) (bytes : Nat) (state : StreamState) : Prop where
  limited : state.planner.policy.limits.maxExpandedBytes = some limit
  written : state.writtenFileBytes + bytes ≤ state.planner.plannedExpandedBytes.toNat
  charged : state.planner.plannedExpandedBytes ≤ limit

theorem IsCharged.isRoom (limit : UInt64) : IsRoom (IsCharged limit) where
  reads bytes before after planner same holds :=
    ⟨planner ▸ holds.limited, planner ▸ same ▸ holds.written, planner ▸ holds.charged⟩
  less state part bytes fewer holds :=
    ⟨holds.limited, (Nat.add_le_add_left fewer _).trans holds.written, holds.charged⟩
  spend state part bytes fewer holds :=
    ⟨holds.limited, by have := holds.written; dsimp only; omega, holds.charged⟩

/-- A sum that stays below the greatest number was not cut off. -/
theorem saturatingAdd_toNat {left right limit : UInt64} (bounded : saturatingAdd left right ≤ limit)
    (below : limit ≠ 18446744073709551615) :
    (saturatingAdd left right).toNat = left.toNat + right.toNat := by
  unfold saturatingAdd at bounded ⊢
  split_ifs at bounded ⊢ with fits
  · rw [UInt64.toNat_add]
    exact Nat.mod_eq_of_lt fits
  · exfalso
    apply below
    have greatest := UInt64.le_iff_toNat_le.mp bounded
    have size := limit.toNat_lt
    apply UInt64.toNat_inj.mp
    change limit.toNat = 18446744073709551615
    change 18446744073709551615 ≤ limit.toNat at greatest
    omega

/-- A decision to write a file charges the size it declares. -/
theorem planStreamEntry_charges {limit : UInt64} (below : limit ≠ 18446744073709551615)
    {fold : CaseFolding} {resolver : Option OverwriteResolver} {entry : ExtractionEntry}
    {reader : EntryReader} {size : UInt64} (declared : entry.uncompressedSize = some size)
    (honest : entry.kind = .file → reader.content.length ≤ size.toNat) :
    Triple (IsCharged limit 0) (planStreamEntry fold resolver entry)
      (fun decision state => match decision with
        | .write _ => IsCharged limit (IsRoom.needed entry reader) state
        | .skip .. => IsCharged limit 0 state) (IsCharged limit 0) := by
  refine .get_bind fun state holds => ?_
  rcases outcome : (Planner.validateEntry fold state.fs.probe resolver entry).exec state.planner
    with ⟨result, after⟩
  have quiet : (∀ plan, result ≠ .ok (.write plan)) →
      IsCharged limit 0 { state with planner := after } := by
    intro unwritten
    have step := Planner.validateEntry_quiet outcome unwritten
    exact ⟨step.settings.policy ▸ holds.limited, step.plannedExpandedBytes ▸ holds.written,
      step.plannedExpandedBytes ▸ holds.charged⟩
  refine .set_bind fun _ _ => ?_
  cases result with
  | error failure => exact .throw fun _ same => same ▸ quiet (by simp)
  | ok decision =>
    refine .pure fun _ same => ?_
    rw [same]
    cases decision with
    | skip name reason => exact quiet (by simp)
    | write plan =>
      have step := Planner.validateEntry_write outcome
      have limited := holds.limited
      have written := holds.written
      unfold IsRoom.needed
      dsimp only
      split_ifs with kind
      · obtain ⟨charged, bounded⟩ := step.charge.file size limit kind declared limited
        refine ⟨step.settings.policy ▸ limited, ?_, bounded⟩
        have fits := honest kind
        have total := saturatingAdd_toNat (charged ▸ bounded) below
        change state.writtenFileBytes + reader.content.length ≤
          after.plannedExpandedBytes.toNat
        rw [charged, total]
        omega
      · have charged := step.charge.other kind
        exact ⟨step.settings.policy ▸ limited, charged ▸ written, charged ▸ holds.charged⟩

/-! ## Bytes delivered -/

/-- The bytes written leave room below a bound. -/
def IsBelowBound (bound bytes : Nat) (state : StreamState) : Prop :=
  state.writtenFileBytes + bytes ≤ bound

theorem IsBelowBound.isRoom (bound : Nat) : IsRoom (IsBelowBound bound) where
  reads bytes before after planner same holds := by
    unfold IsBelowBound
    rw [same]
    exact holds
  less state part bytes fewer holds := (Nat.add_le_add_left fewer _).trans holds
  spend state part bytes fewer holds := by
    unfold IsBelowBound at *
    dsimp only
    omega

theorem planStreamEntry_delivers {bound bytes : Nat} {fold : CaseFolding}
    {resolver : Option OverwriteResolver} {entry : ExtractionEntry} {reader : EntryReader}
    (fits : IsRoom.needed entry reader ≤ bytes) :
    Triple (IsBelowBound bound bytes) (planStreamEntry fold resolver entry)
      (fun decision state => match decision with
        | .write _ => IsBelowBound bound (IsRoom.needed entry reader) state
        | .skip .. => IsBelowBound bound 0 state) (IsBelowBound bound 0) := by
  have less := fun state part fewer holds =>
    @(IsBelowBound.isRoom bound).less state part bytes fewer holds
  refine .get_bind fun state holds => ?_
  refine .set_bind fun _ _ => ?_
  split
  · refine .pure fun _ same => ?_
    rw [same]
    split
    · exact less state _ fits holds
    · exact less state _ (Nat.zero_le _) holds
  · refine .throw fun _ same => ?_
    rw [same]
    exact less state _ (Nat.zero_le _) holds

/-! ## Whole extractions -/

/-- The bytes the entries of a TAR archive deliver. -/
def tarDelivered (archive : List (Except IoError TarEntry)) : Nat :=
  (archive.map fun item => match item with
    | .ok entry => entry.reader.content.length
    | .error _ => 0).sum

/-- The bytes the entries at the given indices of a ZIP archive deliver. -/
def zipDelivered (archive : List (Except IoError ZipEntry)) (indices : List Nat) : Nat :=
  (indices.map fun index => match archive[index]? with
    | some (.ok entry) => entry.reader.content.length
    | _ => 0).sum

theorem needed_le (entry : ExtractionEntry) (reader : EntryReader) :
    IsRoom.needed entry reader ≤ reader.content.length := by
  unfold IsRoom.needed
  split_ifs
  · exact le_rfl
  · exact Nat.zero_le _

section

variable {environment : StreamEnvironment} {fold : CaseFolding}
  {resolver : Option OverwriteResolver} {limit : UInt64}

theorem extractTarEntries_charged (below : limit ≠ 18446744073709551615)
    (selection : Option TarSelection) (seen : List Text) (archive : List (Except IoError TarEntry))
    (honest : ∀ entry, .ok entry ∈ archive → entry.kind = .ok .file →
      entry.reader.content.length ≤ (entry.headerSize.getD 0).toNat) :
    Maintains (IsCharged limit 0)
      (extractTarEntries environment fold resolver selection seen archive) := by
  have isRoom := IsCharged.isRoom limit
  induction archive generalizing seen with
  | nil => exact .pure fun _ held => held
  | cons item rest ih =>
    refine Triple.bind (checkCancelled_maintains (isRoom.reads 0) environment) fun _ => ?_
    cases item with
    | error failure => exact .throw fun _ held => held
    | ok entry =>
      have others := ih (seen ++ [entry.path]) fun other member =>
        honest other (List.mem_cons_of_mem _ member)
      dsimp only
      split_ifs
      · refine .lift_bind (fun kind found => ?_) fun _ _ _ held => held
        refine Triple.bind (isRoom.processExtractionEntry
          (fun plan => isRoom.writeTarEntry _ plan _) (fun _ held => held) ?_) fun _ => others
        exact planStreamEntry_charges below rfl fun file =>
          honest entry (List.mem_cons_self ..) (found.trans (congrArg _ file))
      · refine Triple.bind ?_ fun _ => others
        exact .modify fun state held => isRoom.reads 0 state { state with
          report := { state.report with
            skippedEntries := state.report.skippedEntries + 1 } } rfl rfl held

/-- One entry writes at most what it delivers. -/
theorem processExtractionEntry_delivered
    {write : ExtractionEntry → PlannedWrite → EntryReader → StreamM Unit}
    {entry : ExtractionEntry} {reader : EntryReader} (bound : Nat)
    (writes : ∀ {room : Nat → StreamState → Prop}, IsRoom room → ∀ plan,
      Triple (room (IsRoom.needed entry reader)) (write entry plan reader) (fun _ => room 0)
        (room 0)) :
    Triple (IsBelowBound bound 0)
      (processExtractionEntry environment fold resolver write entry reader)
      (fun _ => IsBelowBound (bound + reader.content.length) 0)
      (IsBelowBound (bound + reader.content.length) 0) := by
  have isRoom := IsBelowBound.isRoom (bound + reader.content.length)
  have process := @IsRoom.processExtractionEntry _ isRoom environment fold resolver write entry
    reader (IsBelowBound (bound + reader.content.length) reader.content.length)
    (writes isRoom) (fun state held => isRoom.less state (Nat.zero_le _) held)
    (planStreamEntry_delivers (needed_le entry reader))
  refine process.weaken (fun state held => ?_) (fun _ _ held => held) fun _ held => held
  unfold IsBelowBound at *
  omega

theorem extractTarEntries_delivered (selection : Option TarSelection) (seen : List Text)
    (archive : List (Except IoError TarEntry)) (bound : Nat) :
    Triple (IsBelowBound bound 0)
      (extractTarEntries environment fold resolver selection seen archive)
      (fun _ => IsBelowBound (bound + tarDelivered archive) 0)
      (IsBelowBound (bound + tarDelivered archive) 0) := by
  have grow : ∀ {less more : Nat}, less ≤ more → ∀ state, IsBelowBound less 0 state →
      IsBelowBound more 0 state := fun fewer _ held => held.trans fewer
  induction archive generalizing seen bound with
  | nil => exact .pure fun _ held => held
  | cons item rest ih =>
    have checked := checkCancelled_maintains ((IsBelowBound.isRoom bound).reads 0) environment
    refine Triple.bind (checked.weaken (fun _ held => held) (fun _ _ held => held)
      (grow (Nat.le_add_right ..))) fun _ => ?_
    cases item with
    | error failure => exact .throw (grow (Nat.le_add_right ..))
    | ok entry =>
      have total : tarDelivered (.ok entry :: rest) =
          entry.reader.content.length + tarDelivered rest := rfl
      rw [total, ← Nat.add_assoc]
      have others := ih (seen ++ [entry.path]) (bound + entry.reader.content.length)
      dsimp only
      split_ifs
      · refine .lift_bind (fun kind _ => ?_) fun _ _ => grow (by omega)
        exact .bind ((processExtractionEntry_delivered bound
          fun isRoom plan => isRoom.writeTarEntry _ plan _).weaken (fun _ held => held)
            (fun _ _ held => held) (grow (by omega))) fun _ => others
      · refine Triple.bind (.modify fun state held => ?_) fun _ => others
        exact grow (Nat.le_add_right ..) state held

theorem extractZipEntry_charged (below : limit ≠ 18446744073709551615)
    (archive : List (Except IoError ZipEntry))
    (honest : ∀ entry, .ok entry ∈ archive → entry.kind = .ok .file →
      entry.reader.content.length ≤ entry.size.toNat) (index : Nat) :
    Maintains (IsCharged limit 0) (extractZipEntry environment fold resolver archive index) := by
  have isRoom := IsCharged.isRoom limit
  refine Triple.bind (checkCancelled_maintains (isRoom.reads 0) environment) fun _ => ?_
  split
  · exact .throw fun _ held => held
  · exact .throw fun _ held => held
  · rename_i entry found
    refine .lift_bind (fun kind same => ?_) fun _ _ _ held => held
    refine isRoom.processExtractionEntry (fun plan => isRoom.writeZipEntry _ plan _)
      (fun _ held => held) (planStreamEntry_charges below rfl fun file => ?_)
    exact honest entry (List.mem_of_getElem? found) (same.trans (congrArg _ file))

theorem extractZipEntries_delivered (archive : List (Except IoError ZipEntry))
    (indices : List Nat) (bound : Nat) :
    Triple (IsBelowBound bound 0)
      (indices.forM (extractZipEntry environment fold resolver archive))
      (fun _ => IsBelowBound (bound + zipDelivered archive indices) 0)
      (IsBelowBound (bound + zipDelivered archive indices) 0) := by
  have grow : ∀ {less more : Nat}, less ≤ more → ∀ state, IsBelowBound less 0 state →
      IsBelowBound more 0 state := fun fewer _ held => held.trans fewer
  induction indices generalizing bound with
  | nil => exact .pure fun _ held => held
  | cons index rest ih =>
    have total : zipDelivered archive (index :: rest) =
        (match archive[index]? with
          | some (.ok entry) => entry.reader.content.length
          | _ => 0) + zipDelivered archive rest := rfl
    rw [total, ← Nat.add_assoc]
    refine Triple.bind ?_ fun _ => ih _
    have checked := checkCancelled_maintains ((IsBelowBound.isRoom bound).reads 0) environment
    refine Triple.bind (checked.weaken (fun _ held => held) (fun _ _ held => held)
      (grow (by omega))) fun _ => ?_
    cases archive[index]? with
    | none => exact .throw (grow (by omega))
    | some item =>
      cases item with
      | error failure => exact .throw (grow (by omega))
      | ok entry =>
        dsimp only
        refine .lift_bind (fun kind _ => ?_) fun _ _ => grow (by omega)
        exact (processExtractionEntry_delivered bound
          fun isRoom plan => isRoom.writeZipEntry _ plan _).weaken (fun _ held => held)
            (fun _ _ held => held) (grow (by omega))

end

/-- **The limit bounds what is written.** When no file delivers more bytes than it
declares, an extraction under a limit writes no more file bytes than that,
whether it finishes, fails or is cancelled. A limit of the greatest number needs
that so many bytes are not delivered at all: the sum of declared sizes is cut off
there. -/
theorem written_within_limit (environment : StreamEnvironment) (fold : CaseFolding)
    (resolver : Option OverwriteResolver) (fs : FileSystem (List UInt8)) (root : PathBuf)
    (policy : ExtractionPolicy) (limit : UInt64)
    (limited : policy.limits.maxExpandedBytes = some limit) :
    (∀ selection archive,
      (∀ entry, .ok entry ∈ archive → entry.kind = .ok .file →
        entry.reader.content.length ≤ (entry.headerSize.getD 0).toNat) →
      limit ≠ 18446744073709551615 ∨ tarDelivered archive < 2 ^ 64 →
      ((extractWithSelector environment fold resolver selection archive).exec
        (.start fs root policy)).2.writtenFileBytes ≤ limit.toNat) ∧
    ∀ selectedIndices archive,
      (∀ entry, .ok entry ∈ archive → entry.kind = .ok .file →
        entry.reader.content.length ≤ entry.size.toNat) →
      limit ≠ 18446744073709551615 ∨
        zipDelivered archive (selectedIndices.getD (List.range archive.length)) < 2 ^ 64 →
      ((extractZipArchive environment fold resolver selectedIndices archive).exec
        (.start fs root policy)).2.writtenFileBytes ≤ limit.toNat := by
  have start : IsCharged limit 0 (.start fs root policy) :=
    ⟨limited, Nat.zero_le _, UInt64.le_iff_toNat_le.mpr (Nat.zero_le _)⟩
  have bounded : ∀ {state}, IsCharged limit 0 state → state.writtenFileBytes ≤ limit.toNat :=
    fun held => held.written.trans (UInt64.le_iff_toNat_le.mp held.charged)
  have greatest : ∀ {delivered : Nat} {state}, delivered < 2 ^ 64 →
      limit = 18446744073709551615 → IsBelowBound (0 + delivered) 0 state →
        state.writtenFileBytes ≤ limit.toNat := by
    rintro delivered state fits rfl held
    change state.writtenFileBytes ≤ 18446744073709551615
    unfold IsBelowBound at held
    omega
  constructor
  · intro selection archive honest fits
    by_cases below : limit = 18446744073709551615
    · refine greatest (fits.resolve_left (not_not.mpr below)) below (Triple.exec
        (.bind (extractTarEntries_delivered selection [] archive 0) fun _ =>
          materializeDeferredHardlinks_maintains ((IsBelowBound.isRoom _).reads 0)) ?_)
      exact Nat.zero_le 0
    · refine bounded (Triple.exec (.bind (extractTarEntries_charged below selection [] archive
        honest) fun _ => ?_) start)
      exact materializeDeferredHardlinks_maintains ((IsCharged.isRoom limit).reads 0)
  · intro selectedIndices archive honest fits
    unfold extractZipArchive
    split_ifs
    · exact Nat.zero_le _
    by_cases below : limit = 18446744073709551615
    · refine greatest (fits.resolve_left (not_not.mpr below)) below (Triple.exec
        (extractZipEntries_delivered archive _ 0) ?_)
      exact Nat.zero_le 0
    · exact bounded (Triple.exec (Maintains.forM fun index _ =>
        extractZipEntry_charged below archive honest index) start)

/-- A TAR entry whose extension record and header agree, under a limit that a
second entry does not fit. -/
theorem written_within_limit_tar :
    ((extractWithSelector {} .ascii none none
      [.ok ⟨"a".toList, .ok .file, some 3, { chunks := [[1, 2], [3]] }⟩,
        .ok ⟨"b".toList, .ok .file, some 2, { chunks := [[4, 5]] }⟩]).exec
      (.start (.ofObjects [(["out".toList], .directory)]) outRoot
        { limits := { maxExpandedBytes := some 4 } })).2.writtenFileBytes ≤ 4 :=
  (written_within_limit {} .ascii none (.ofObjects [(["out".toList], .directory)]) outRoot
    { limits := { maxExpandedBytes := some 4 } } 4 rfl).1 none _ (by
      intro entry member file
      simp only [List.mem_cons, Except.ok.injEq, List.not_mem_nil, or_false] at member
      rcases member with rfl | rfl
      · decide
      · decide) (.inl (by decide))

/-- A TAR header that declares nothing and a reader that delivers eight bytes, as
an extension record allows. -/
theorem written_beyond_limit :
    4 < ((extractWithSelector {} .ascii none none
      [.ok ⟨"a".toList, .ok .file, some 0, { chunks := [[1, 2, 3, 4, 5, 6, 7, 8]] }⟩]).exec
      (.start (.ofObjects [(["out".toList], .directory)]) outRoot
        { limits := { maxExpandedBytes := some 4 } })).2.writtenFileBytes := by
  decide +kernel

end ZManager
