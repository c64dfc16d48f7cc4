import ZManager.Foundation.Step
import ZManager.Manifest.Planner
import ZManager.Tar.ExactLength
import ZManager.Tar.PaxTime

/-! # Creating TAR archives

The entries of a manifest are appended one after the other. A PAX record goes with the
member that follows it, so it is written only once its entry is certain to become a
member; and a member has the length that its header promised.
-/

namespace ZManager

/-- The types of members that are written. -/
inductive TarEntryType where
  | regular
  | directory
  | symlink

/-- The header of a member. -/
structure TarHeader where
  entryType : TarEntryType
  size : Nat
  mode : Nat
  mtime : Nat

/-- A member of the archive. -/
structure TarMember where
  path : Text
  header : TarHeader
  link : Option PathBuf
  data : List UInt8

/-- What the builder appends: PAX extensions with an `mtime`, or a member. -/
inductive TarRecord where
  | paxMtime (value : Text)
  | member (member : TarMember)

/-- Failures of TAR creation. -/
inductive TarCreateError where
  | invalidLevel (level : Int)
  | io (path : PathBuf) (source : IoError)
  | cancelled

/-- What the host does while an entry is archived. -/
structure EntryHost where
  /-- A check of the job before the entry finds it cancelled. -/
  cancelled : Bool
  opened : Except IoError FileReads
  /-- The sizes of the buffers that the member is copied with. -/
  buffers : Nat → Nat
  room : ∀ index, 0 < buffers index
  /-- The header that `set_metadata` fills from the metadata of the open file. -/
  metadata : Except IoError TarHeader
  /-- The header that `append_dir` writes. -/
  directory : Except IoError TarHeader

/-- The host and the libraries. Times are numbered, as in the manifest. -/
structure TarHost where
  /-- `archive_timestamp_from_system_time`. -/
  timestamp : Nat → Option TarTimestamp
  unixSeconds : Nat → Option Nat
  humanBytes : Nat → String
  /-- Appending a record behind others fails. -/
  refuses : List TarRecord → TarRecord → Option IoError
  /-- Creating the output and the encoder. -/
  start : Except IoError Unit
  /-- Ending the archive and the encoder, and committing the output. -/
  finish : List TarRecord → Except IoError Unit

/-- What differs between the backends. -/
structure TarBackend where
  writes : String

def tarGz : TarBackend := ⟨"tar.gz backend only writes files, directories, and symlinks"⟩

def tarZst : TarBackend := ⟨"TAR.ZST backend only writes files, directories, and symlinks"⟩

/-- What a TAR archive is created with. -/
structure TarCreateOptions where
  destination : PathBuf
  level : Int
  preserveMetadata : Bool

/-- The report on a created archive. -/
structure TarCreateReport where
  writtenEntries : Nat
  writtenBytes : UInt64
  level : Int
  warnings : List String

/-- The records that the builder has and the report so far. -/
structure TarJob where
  records : List TarRecord
  report : TarCreateReport

abbrev TarM := StepM TarCreateError TarJob

/-- Plain-language note for a file whose length moved while it was being read. -/
def changedDuringReadNote (humanBytes : Nat → String) (archivePath : Text)
    (declared padded : Nat) (grew : Bool) : Option String :=
  if 0 < padded then
    some (String.ofList archivePath ++ " was shortened while being archived; kept the " ++
      humanBytes (declared - padded) ++ " that was still there and filled the remaining " ++
      humanBytes padded ++ " with zeros")
  else if grew then
    some (String.ofList archivePath ++
      " was still being written while being archived; stored the first " ++ humanBytes declared)
  else none

section

variable (host : TarHost)

def append (path : PathBuf) (record : TarRecord) : TarM Unit := do
  let job ← get
  match host.refuses job.records record with
  | some source => throw (.io path source)
  | none => set { job with records := job.records ++ [record] }

/-- The failure of an operation on a path. -/
def attempt {α : Type} (path : PathBuf) (result : Except IoError α) : TarM α :=
  match result with
  | .ok value => pure value
  | .error source => throw (.io path source)

def warn (warning : String) : TarM Unit :=
  modify fun job => { job with
    report := { job.report with warnings := job.report.warnings ++ [warning] } }

def countEntry (size : UInt64) : TarM Unit :=
  modify fun job => { job with
    report := { job.report with
      writtenEntries := job.report.writtenEntries + 1
      writtenBytes := job.report.writtenBytes + size } }

/-- Whole seconds from the epoch on are in the header already. -/
def needsPaxMtime (timestamp : TarTimestamp) : Bool :=
  !(0 ≤ timestamp.seconds && timestamp.nanoseconds = 0)

def appendPaxMtime (path : PathBuf) (modified : Option Nat) : TarM Unit :=
  match modified with
  | none => pure ()
  | some modified =>
    match host.timestamp modified with
    | none => throw (.io path ⟨.invalidInput,
        "modification time is outside the supported tar timestamp range"⟩)
    | some timestamp =>
      if needsPaxMtime timestamp then
        append host path (.paxMtime (timestampToPaxValue timestamp))
      else pure ()

/-- Writes this entry's PAX `mtime` record, when tar needs one. -/
def appendManifestMtime (entry : ManifestEntry) (preserveMetadata : Bool) : TarM Unit :=
  if preserveMetadata then appendPaxMtime host entry.sourcePath entry.modified else pure ()

def appendDirectory (entry : ManifestEntry) (source : EntryHost) (preserveMetadata : Bool) :
    TarM Unit := do
  appendManifestMtime host entry preserveMetadata
  let header ← attempt entry.sourcePath
    (if preserveMetadata then source.directory else .ok ⟨.directory, 0, 0o755, 0⟩)
  append host entry.sourcePath (.member ⟨entry.archivePath, header, none, []⟩)
  countEntry 0

def appendFile (entry : ManifestEntry) (source : EntryHost) (preserveMetadata : Bool) :
    TarM Unit :=
  match source.opened with
  | .error failure => warn ("skipped " ++ entry.sourcePath.display ++ ": " ++ failure.message)
  | .ok inner => do
      appendManifestMtime host entry preserveMetadata
      let header ← attempt entry.sourcePath
        (if preserveMetadata then source.metadata else .ok ⟨.regular, 0, 0o644, 0⟩)
      let (copied, exact) := ExactLengthReader.copy source.buffers (.new inner entry.size.toNat)
      let data ← attempt entry.sourcePath copied
      append host entry.sourcePath (.member
        ⟨entry.archivePath, { header with entryType := .regular, size := entry.size.toNat }, none,
          data⟩)
      match changedDuringReadNote host.humanBytes entry.archivePath entry.size.toNat exact.padded
        exact.grew with
      | some note => warn note
      | none => pure ()
      countEntry entry.size

/-- The header of a link. -/
def symlinkHeader (entry : ManifestEntry) (preserveMetadata : Bool) : TarHeader :=
  if preserveMetadata then
    ⟨.symlink, 0, (entry.permissions.unixMode.map (· &&& 0o7777)).getD 0,
      (entry.modified.bind host.unixSeconds).getD 0⟩
  else ⟨.symlink, 0, 0o777, 0⟩

def appendSymlink (entry : ManifestEntry) (preserveMetadata : Bool) : TarM Unit :=
  match entry.symlinkTarget with
  | none => warn ("skipped symlink " ++ String.ofList entry.archivePath ++ ": missing target")
  | some target => do
      appendManifestMtime host entry preserveMetadata
      append host entry.sourcePath (.member
        ⟨entry.archivePath, symlinkHeader host entry preserveMetadata, some target, []⟩)
      countEntry 0

def appendManifestEntry (backend : TarBackend) (preserveMetadata : Bool) (entry : ManifestEntry)
    (source : EntryHost) : TarM Unit :=
  if source.cancelled then throw .cancelled
  else
    match entry.fileType with
    | .directory => appendDirectory host entry source preserveMetadata
    | .file => appendFile host entry source preserveMetadata
    | .symlink => appendSymlink host entry preserveMetadata
    | .other =>
      warn ("skipped special file " ++ String.ofList entry.archivePath ++ ": " ++
        backend.writes)

def appendManifestEntries (backend : TarBackend) (preserveMetadata : Bool) :
    List (ManifestEntry × EntryHost) → TarM Unit
  | [] => pure ()
  | (entry, source) :: rest => do
      appendManifestEntry host backend preserveMetadata entry source
      appendManifestEntries backend preserveMetadata rest

/-- The records of the archive, and the report. -/
def createTar (backend : TarBackend) (options : TarCreateOptions)
    (members : List (ManifestEntry × EntryHost)) :
    Except TarCreateError (List TarRecord × TarCreateReport) := do
  host.start.mapError (.io options.destination)
  let (result, job) := (appendManifestEntries host backend options.preserveMetadata members).exec
    ⟨[], ⟨0, 0, options.level, []⟩⟩
  result
  (host.finish job.records).mapError (.io options.destination)
  return (job.records, job.report)

/-- Writes a TGZ archive. -/
def createTarGz (options : TarCreateOptions) (members : List (ManifestEntry × EntryHost)) :
    Except TarCreateError (List TarRecord × TarCreateReport) :=
  if 0 ≤ options.level ∧ options.level ≤ 9 then createTar host tarGz options members
  else .error (.invalidLevel options.level)

/-- Writes a TAR.ZST archive. -/
def createTarZst (options : TarCreateOptions) (members : List (ManifestEntry × EntryHost)) :
    Except TarCreateError (List TarRecord × TarCreateReport) :=
  createTar host tarZst options members

end

/-! ## What the records are -/

/-- A member comes of the entry: a file that can be opened, a link with a target, or a
directory. -/
def Produces (entry : ManifestEntry) (source : EntryHost) : Prop :=
  match entry.fileType with
  | .directory => True
  | .file => ∃ inner, source.opened = .ok inner
  | .symlink => ∃ target, entry.symlinkTarget = some target
  | .other => False

section

variable (host : TarHost)

/-- The record in front of an entry's member. -/
def mtimeRecords (preserveMetadata : Bool) (entry : ManifestEntry) : List TarRecord :=
  if preserveMetadata then
    match entry.modified.bind host.timestamp with
    | none => []
    | some timestamp =>
      if needsPaxMtime timestamp then [.paxMtime (timestampToPaxValue timestamp)] else []
  else []

/-- The member of an entry. That of a file has as many bytes as the entry says: what
the file delivered before the first read that returned nothing, and zeros, which are
counted as padding. -/
structure IsMemberOf (entry : ManifestEntry) (source : EntryHost) (member : TarMember) : Prop where
  path : member.path = entry.archivePath
  data : entry.fileType = .file → ∀ inner, source.opened = .ok inner →
    member.header.size = entry.size.toNat ∧ member.data.length = entry.size.toNat ∧
      ∃ zeros, member.data =
          ExactLengthReader.deliveredBytes inner source.buffers entry.size.toNat ++
            List.replicate zeros 0 ∧
        (ExactLengthReader.copy source.buffers (.new inner entry.size.toNat)).2.padded = zeros

/-- The records of an archive, entry by entry: nothing for an entry without a member,
and else its member, directly behind its own time. -/
inductive KeepsMembers (preserveMetadata : Bool) :
    List (ManifestEntry × EntryHost) → List TarRecord → Prop
  | nil : KeepsMembers preserveMetadata [] []
  | skipped {entry : ManifestEntry} {source : EntryHost}
      {members : List (ManifestEntry × EntryHost)} {records : List TarRecord}
      (left : ¬Produces entry source) (rest : KeepsMembers preserveMetadata members records) :
      KeepsMembers preserveMetadata ((entry, source) :: members) records
  | written {entry : ManifestEntry} {source : EntryHost} {member : TarMember}
      {members : List (ManifestEntry × EntryHost)} {records : List TarRecord}
      (produces : Produces entry source) (is : IsMemberOf entry source member)
      (rest : KeepsMembers preserveMetadata members records) :
      KeepsMembers preserveMetadata ((entry, source) :: members)
        (mtimeRecords host preserveMetadata entry ++ .member member :: records)

end

section

variable {host : TarHost} {preserveMetadata : Bool} {entry : ManifestEntry} {source : EntryHost}
  {job job' : TarJob} {path : PathBuf}

open StepM

variable {members : List (ManifestEntry × EntryHost)}

theorem records_of_append {record : TarRecord}
    (done : (append host path record).exec job = (.ok (), job')) :
    job'.records = job.records ++ [record] := by
  unfold append at done
  obtain ⟨_, _, got, done⟩ := exec_bind_eq_ok.mp done
  cases got
  cases refused : host.refuses job.records record with
  | some source =>
    simp only [refused] at done
    cases done
  | none =>
    simp only [refused] at done
    cases done
    rfl

theorem exec_attempt {α : Type} {result : Except IoError α} {value : α}
    (done : (attempt path result).exec job = (.ok value, job')) :
    result = .ok value ∧ job' = job := by
  unfold attempt at done
  cases result with
  | ok found =>
    cases done
    exact ⟨rfl, rfl⟩
  | error source => cases done

theorem records_of_appendManifestMtime
    (done : (appendManifestMtime host entry preserveMetadata).exec job = (.ok (), job')) :
    job'.records = job.records ++ mtimeRecords host preserveMetadata entry := by
  unfold appendManifestMtime at done
  unfold mtimeRecords
  cases preserveMetadata with
  | false =>
    cases done
    exact (List.append_nil _).symm
  | true =>
    rw [if_pos rfl] at done ⊢
    unfold appendPaxMtime at done
    cases modified : entry.modified with
    | none =>
      simp only [modified] at done
      cases done
      exact (List.append_nil _).symm
    | some time =>
      simp only [modified] at done
      rw [Option.bind_some]
      cases timestamp : host.timestamp time with
      | none =>
        simp only [timestamp] at done
        cases done
      | some timestamp' =>
        simp only [timestamp] at done
        dsimp only
        by_cases needs : needsPaxMtime timestamp'
        · rw [if_pos needs] at done ⊢
          exact records_of_append done
        · rw [if_neg needs] at done ⊢
          cases done
          exact (List.append_nil _).symm

theorem records_of_warn {warning : String} (done : (warn warning).exec job = (.ok (), job')) :
    job'.records = job.records := by
  cases done
  rfl

theorem records_of_countEntry {size : UInt64}
    (done : (countEntry size).exec job = (.ok (), job')) : job'.records = job.records := by
  cases done
  rfl

/-- The member of an entry; that of a file is copied from it. -/
structure IsCopyOf (entry : ManifestEntry) (source : EntryHost) (member : TarMember) : Prop where
  path : member.path = entry.archivePath
  copied : entry.fileType = .file → ∀ inner, source.opened = .ok inner →
    member.header.size = entry.size.toNat ∧ ∃ reader,
      ExactLengthReader.copy source.buffers (.new inner entry.size.toNat) =
        (.ok member.data, reader)

/-- What an entry leaves in the archive. -/
inductive EntryRecords (host : TarHost) (preserveMetadata : Bool) (entry : ManifestEntry)
    (source : EntryHost) : List TarRecord → Prop
  | skipped (left : ¬Produces entry source) : EntryRecords host preserveMetadata entry source []
  | written {member : TarMember} (produces : Produces entry source)
      (is : IsCopyOf entry source member) :
      EntryRecords host preserveMetadata entry source
        (mtimeRecords host preserveMetadata entry ++ [TarRecord.member member])

theorem records_of_appendDirectory (type : entry.fileType = .directory)
    (done : (appendDirectory host entry source preserveMetadata).exec job = (.ok (), job')) :
    ∃ records, job'.records = job.records ++ records ∧
      EntryRecords host preserveMetadata entry source records := by
  unfold appendDirectory at done
  obtain ⟨_, timed, mtime, behindMtime⟩ := exec_bind_eq_ok.mp done
  obtain ⟨header, _, attempted, behindHeader⟩ := exec_bind_eq_ok.mp behindMtime
  obtain ⟨_, appended, member, last⟩ := exec_bind_eq_ok.mp behindHeader
  obtain ⟨-, rfl⟩ := exec_attempt attempted
  have produces : Produces entry source := by
    unfold Produces
    rw [type]
    trivial
  refine ⟨mtimeRecords host preserveMetadata entry ++
    [.member ⟨entry.archivePath, header, none, []⟩], ?_, .written produces
      ⟨rfl, fun file => absurd (type.symm.trans file) nofun⟩⟩
  rw [records_of_countEntry last, records_of_append member, records_of_appendManifestMtime mtime,
    List.append_assoc]

theorem records_of_appendFile (type : entry.fileType = .file)
    (done : (appendFile host entry source preserveMetadata).exec job = (.ok (), job')) :
    ∃ records, job'.records = job.records ++ records ∧
      EntryRecords host preserveMetadata entry source records := by
  unfold appendFile at done
  cases opened : source.opened with
  | error failure =>
    simp only [opened] at done
    refine ⟨[], ?_, .skipped ?_⟩
    · rw [records_of_warn done, List.append_nil]
    · unfold Produces
      rw [type, opened]
      rintro ⟨inner, ⟨⟩⟩
  | ok inner =>
    simp only [opened] at done
    obtain ⟨_, timed, mtime, behindMtime⟩ := exec_bind_eq_ok.mp done
    obtain ⟨header, _, attempted, behindHeader⟩ := exec_bind_eq_ok.mp behindMtime
    obtain ⟨data, _, attempted', behindData⟩ := exec_bind_eq_ok.mp behindHeader
    obtain ⟨_, appended, member, behindMember⟩ := exec_bind_eq_ok.mp behindData
    obtain ⟨-, rfl⟩ := exec_attempt attempted
    obtain ⟨copied, rfl⟩ := exec_attempt attempted'
    have kept : job'.records = appended.records := by
      split at behindMember
      · obtain ⟨_, noted, note, last⟩ := exec_bind_eq_ok.mp behindMember
        rw [records_of_countEntry last, records_of_warn note]
      · exact records_of_countEntry behindMember
    have produces : Produces entry source := by
      unfold Produces
      rw [type]
      exact ⟨inner, opened⟩
    have copy {other : FileReads} (same : source.opened = .ok other) :
        ∃ reader, ExactLengthReader.copy source.buffers (.new other entry.size.toNat) =
          (.ok data, reader) := by
      cases opened.symm.trans same
      exact ⟨_, Prod.ext copied rfl⟩
    refine ⟨mtimeRecords host preserveMetadata entry ++ [TarRecord.member ⟨entry.archivePath,
      { header with entryType := .regular, size := entry.size.toNat }, none, data⟩], ?_,
        .written produces ⟨rfl, fun _ _ same => ⟨rfl, copy same⟩⟩⟩
    rw [kept, records_of_append member, records_of_appendManifestMtime mtime, List.append_assoc]

theorem records_of_appendSymlink (type : entry.fileType = .symlink)
    (done : (appendSymlink host entry preserveMetadata).exec job = (.ok (), job')) :
    ∃ records, job'.records = job.records ++ records ∧
      EntryRecords host preserveMetadata entry source records := by
  unfold appendSymlink at done
  cases target : entry.symlinkTarget with
  | none =>
    simp only [target] at done
    refine ⟨[], ?_, .skipped ?_⟩
    · rw [records_of_warn done, List.append_nil]
    · unfold Produces
      rw [type, target]
      rintro ⟨target, ⟨⟩⟩
  | some target' =>
    simp only [target] at done
    obtain ⟨_, timed, mtime, behindMtime⟩ := exec_bind_eq_ok.mp done
    obtain ⟨_, appended, member, last⟩ := exec_bind_eq_ok.mp behindMtime
    have produces : Produces entry source := by
      unfold Produces
      rw [type]
      exact ⟨target', target⟩
    refine ⟨mtimeRecords host preserveMetadata entry ++ [TarRecord.member ⟨entry.archivePath,
      symlinkHeader host entry preserveMetadata, some target', []⟩], ?_, .written produces
        ⟨rfl, fun file => absurd (type.symm.trans file) nofun⟩⟩
    rw [records_of_countEntry last, records_of_append member,
      records_of_appendManifestMtime mtime, List.append_assoc]

/-- **One entry** leaves nothing, or its time and its member. -/
theorem records_of_appendManifestEntry {backend : TarBackend}
    (done : (appendManifestEntry host backend preserveMetadata entry source).exec job =
      (.ok (), job')) :
    ∃ records, job'.records = job.records ++ records ∧
      EntryRecords host preserveMetadata entry source records := by
  unfold appendManifestEntry at done
  cases cancelled : source.cancelled with
  | true =>
    simp only [cancelled] at done
    cases done
  | false =>
    simp only [cancelled, Bool.false_eq_true, ↓reduceIte] at done
    cases type : entry.fileType with
    | directory =>
      simp only [type] at done
      exact records_of_appendDirectory type done
    | file =>
      simp only [type] at done
      exact records_of_appendFile type done
    | symlink =>
      simp only [type] at done
      exact records_of_appendSymlink type done
    | other =>
      simp only [type] at done
      refine ⟨[], ?_, .skipped ?_⟩
      · rw [records_of_warn done, List.append_nil]
      · unfold Produces
        rw [type]
        exact id

/-! ## Members -/

/-- Once a read of the entry's file has returned nothing, no further read of the member
returns a byte. -/
def NotRegrown (entry : ManifestEntry) (source : EntryHost) : Prop :=
  entry.fileType = .file → ∀ inner, source.opened = .ok inner →
    ExactLengthReader.StaysEnded inner source.buffers entry.size.toNat

theorem IsCopyOf.isMemberOf_iff {member : TarMember} (is : IsCopyOf entry source member) :
    IsMemberOf entry source member ↔ NotRegrown entry source := by
  constructor
  · intro whole file inner opened
    obtain ⟨-, reader, copied⟩ := is.copied file inner opened
    obtain ⟨-, -, zeros, same, padded⟩ := whole.data file inner opened
    rw [copied] at padded
    exact (ExactLengthReader.copy_spec source.room copied).2.mp ⟨zeros, same, padded⟩
  · intro steady
    refine ⟨is.path, fun file inner opened => ?_⟩
    obtain ⟨size, reader, copied⟩ := is.copied file inner opened
    obtain ⟨length, padded⟩ := ExactLengthReader.copy_spec source.room copied
    obtain ⟨zeros, same, count⟩ := padded.mpr (steady file inner opened)
    exact ⟨size, length, zeros, same, by rw [copied]; exact count⟩

theorem notRegrown_of_skipped (left : ¬Produces entry source) : NotRegrown entry source := by
  intro file inner opened
  refine absurd ?_ left
  unfold Produces
  rw [file]
  exact ⟨inner, opened⟩

/-- The records of an entry and those behind them. -/
theorem EntryRecords.keepsMembers_iff {records later : List TarRecord}
    (are : EntryRecords host preserveMetadata entry source records) :
    KeepsMembers host preserveMetadata ((entry, source) :: members) (records ++ later) ↔
      NotRegrown entry source ∧ KeepsMembers host preserveMetadata members later := by
  cases are with
  | skipped left =>
    rw [List.nil_append]
    constructor
    · intro keeps
      cases keeps with
      | skipped _ rest => exact ⟨notRegrown_of_skipped left, rest⟩
      | written produces _ _ => exact absurd produces left
    · exact fun ⟨_, rest⟩ => .skipped left rest
  | @written member produces is =>
    rw [List.append_assoc, List.singleton_append]
    constructor
    · intro keeps
      generalize same : mtimeRecords host preserveMetadata entry ++ .member member :: later =
        all at keeps
      cases keeps with
      | skipped left _ => exact absurd produces left
      | written _ whole rest =>
        cases List.append_cancel_left same
        exact ⟨is.isMemberOf_iff.mp whole, rest⟩
    · exact fun ⟨steady, rest⟩ => .written produces (is.isMemberOf_iff.mpr steady) rest

/-- **The entries of a manifest**, one after the other. -/
theorem records_of_appendManifestEntries {backend : TarBackend}
    (done : (appendManifestEntries host backend preserveMetadata members).exec job =
      (.ok (), job')) :
    ∃ records, job'.records = job.records ++ records ∧
      (KeepsMembers host preserveMetadata members records ↔
        ∀ pair ∈ members, NotRegrown pair.1 pair.2) := by
  induction members generalizing job with
  | nil =>
    cases done
    exact ⟨[], (List.append_nil _).symm, fun _ _ member => absurd member List.not_mem_nil,
      fun _ => .nil⟩
  | cons pair members ih =>
    obtain ⟨entry, source⟩ := pair
    obtain ⟨_, middle, first, done⟩ := exec_bind_eq_ok.mp done
    obtain ⟨records, appended, are⟩ := records_of_appendManifestEntry first
    obtain ⟨later, appended', keeps⟩ := ih done
    refine ⟨records ++ later, ?_, ?_⟩
    · rw [appended', appended, List.append_assoc]
    · rw [are.keepsMembers_iff, keeps, List.forall_mem_cons]

end

/-- Creation with either backend. -/
theorem keepsMembers_iff_of_createTar {host : TarHost} {backend : TarBackend}
    {options : TarCreateOptions} {members : List (ManifestEntry × EntryHost)}
    {records : List TarRecord} {report : TarCreateReport}
    (created : createTar host backend options members = .ok (records, report)) :
    KeepsMembers host options.preserveMetadata members records ↔
      ∀ pair ∈ members, NotRegrown pair.1 pair.2 := by
  unfold createTar at created
  obtain ⟨_, -, created⟩ := Except.bind_eq_ok_iff.mp created
  rcases ran : (appendManifestEntries host backend options.preserveMetadata members).exec
    ⟨[], ⟨0, 0, options.level, []⟩⟩ with ⟨result, job⟩
  simp only [ran] at created
  obtain ⟨_, done, behind⟩ := Except.bind_eq_ok_iff.mp created
  obtain ⟨_, -, last⟩ := Except.bind_eq_ok_iff.mp behind
  cases last
  subst done
  obtain ⟨records, same, keeps⟩ := records_of_appendManifestEntries ran
  rwa [same, List.nil_append]

/-- **When creation keeps the members.** In an archive that was created, every time
stands directly in front of the member of its own entry, an entry without a member has
left nothing, and the member of a file is what the file delivered before the first read
that returned nothing, filled up with counted zeros, if and only if no file returned a
further byte after that. -/
theorem tar_creation_keeps_members_iff (host : TarHost) (options : TarCreateOptions)
    (members : List (ManifestEntry × EntryHost)) (records : List TarRecord)
    (report : TarCreateReport)
    (created : createTarGz host options members = .ok (records, report) ∨
      createTarZst host options members = .ok (records, report)) :
    KeepsMembers host options.preserveMetadata members records ↔
      ∀ pair ∈ members, NotRegrown pair.1 pair.2 := by
  rcases created with gz | zst
  · unfold createTarGz at gz
    split at gz
    · exact keepsMembers_iff_of_createTar gz
    · cases gz
  · exact keepsMembers_iff_of_createTar zst

/-! ## A file that shrinks and grows again -/

/-- A file `a` of the given size, and half a second before the epoch. -/
def fileEntry (size : UInt64) : ManifestEntry :=
  ⟨['a'], [.normal ['a']], .file, size, some 0, ⟨false, none⟩, none⟩

/-- The file holds one byte; behind its end it answers as given. -/
def oneByteFile (behind : FileReads) : EntryHost where
  cancelled := false
  opened := .ok fun index => if index = 0 then .ok [1] else behind (index - 1)
  buffers := fun _ => 8192
  room := fun _ => by decide
  metadata := .ok ⟨.regular, 1, 0o644, 0⟩
  directory := .error ⟨.other, ""⟩

def writingHost : TarHost where
  timestamp := fun _ => some ⟨-1, 500000000⟩
  unixSeconds := fun _ => none
  humanBytes := fun _ => ""
  refuses := fun _ _ => none
  start := .ok ()
  finish := fun _ => .ok ()

def preserving : TarCreateOptions := ⟨[.normal ['t']], 6, true⟩

theorem shrunk_file_is_filled_up :
    KeepsMembers writingHost true [(fileEntry 3, oneByteFile fun _ => .ok [])]
      [.paxMtime ['-', '0', '.', '5', '0', '0', '0', '0', '0', '0', '0', '0'],
        .member ⟨['a'], ⟨.regular, 3, 0o644, 0⟩, none, [1, 0, 0]⟩] := by
  refine (tar_creation_keeps_members_iff writingHost preserving _ _
    ⟨1, 3, 6, ["a was shortened while being archived; kept the  that was still there and " ++
      "filled the remaining  with zeros"]⟩ (.inl rfl)).mpr ?_
  rintro pair member - inner opened
  cases List.mem_singleton.mp member
  cases opened
  unfold ExactLengthReader.StaysEnded
  rw [ExactLengthReader.innerReads_of_ok rfl (by decide) (by decide)]
  change ∀ chunk ∈ (ExactLengthReader.innerReads _ _ 2).dropWhile _, chunk = []
  rw [ExactLengthReader.innerReads_of_ok rfl (by decide) (by decide)]
  change ∀ chunk ∈ [] :: ExactLengthReader.innerReads _ _ 0, chunk = []
  rw [ExactLengthReader.innerReads_complete]
  simp

/-- The file has one byte, then a read finds its end, and the next finds the byte 9: it
stands behind the zeros. -/
def regrownFile : EntryHost :=
  oneByteFile fun index => if index = 0 then .ok [] else .ok [9]

theorem not_notRegrown_regrownFile : ¬NotRegrown (fileEntry 8194) regrownFile := by
  intro steady
  have ended := steady rfl _ rfl
  unfold ExactLengthReader.StaysEnded at ended
  rw [ExactLengthReader.innerReads_of_ok rfl (by decide) (by decide)] at ended
  change ∀ chunk ∈ (ExactLengthReader.innerReads _ _ 8193).dropWhile _, chunk = [] at ended
  rw [ExactLengthReader.innerReads_of_ok rfl (by decide) (by decide)] at ended
  change ∀ chunk ∈ [] :: ExactLengthReader.innerReads _ _ 1, chunk = [] at ended
  rw [ExactLengthReader.innerReads_of_ok rfl (by decide) (by decide)] at ended
  exact absurd (ended [9] (.tail _ (.head _))) (List.cons_ne_nil _ _)

theorem regrown_bytes_follow_the_zeros :
    ∃ records report,
      createTarGz writingHost preserving [(fileEntry 8194, regrownFile)] = .ok (records, report) ∧
      records = [
        .paxMtime ['-', '0', '.', '5', '0', '0', '0', '0', '0', '0', '0', '0'],
        .member ⟨['a'], ⟨.regular, 8194, 0o644, 0⟩, none, 1 :: (List.replicate 8192 0 ++ [9])⟩] ∧
      ¬KeepsMembers writingHost true [(fileEntry 8194, regrownFile)] records := by
  have created : ∃ report, createTar writingHost tarGz preserving
      [(fileEntry 8194, regrownFile)] = .ok ([
        .paxMtime ['-', '0', '.', '5', '0', '0', '0', '0', '0', '0', '0', '0'],
        .member ⟨['a'], ⟨.regular, 8194, 0o644, 0⟩, none,
          1 :: (List.replicate 8192 0 ++ [9])⟩], report) := ⟨_, rfl⟩
  obtain ⟨report, created⟩ := created
  refine ⟨_, report, (if_pos (by decide)).trans created, rfl, fun keeps => ?_⟩
  have steady := (keepsMembers_iff_of_createTar created).mp keeps
  exact not_notRegrown_regrownFile (steady _ (.head _))

end ZManager
