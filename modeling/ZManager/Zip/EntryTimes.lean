import ZManager.Foundation.Bytes
import ZManager.Foundation.Calendar

/-! # Modification times of ZIP entries

An entry is stamped with its local wall-clock time in the DOS field, and with
the exact time in the NTFS field and in the extended timestamp where these can
hold it. A listing and an extraction read the most precise of them.
-/

namespace ZManager

variable {seconds : Int} {time : FileTime} {ticks : UInt64}

/-- The machine's clock counts seconds in 64 bits. -/
def FileTime.Representable (time : FileTime) : Prop :=
  -2 ^ 63 ≤ time.seconds ∧ time.seconds < 2 ^ 63 ∧ time.nanoseconds < 1000000000

/-- An arithmetic step that leaves its machine type stops the program. -/
structure ArithmeticOverflow where

def subI64 (left right : Int) : Except ArithmeticOverflow Int :=
  if -2 ^ 63 ≤ left - right ∧ left - right < 2 ^ 63 then .ok (left - right) else .error {}

def mulU64 (left right : Nat) : Except ArithmeticOverflow Nat :=
  if left * right < 2 ^ 64 then .ok (left * right) else .error {}

/-! ## The calendar and the ZIP library -/

/-- Seconds east of Greenwich, less than a day. -/
abbrev UtcOffset := { seconds : Int // -86400 < seconds ∧ seconds < 86400 }

/-- The offsets with which a clock shows a local time. -/
inductive LocalOffset where
  | none
  | single (offset : UtcOffset)
  | ambiguous (earliest latest : UtcOffset)

/-- The offsets of a time zone. -/
structure TimeZone where
  offsetFromUtc : CivilTime → UtcOffset
  offsetFromLocal : CivilTime → LocalOffset

def TimeZone.fixed (offset : UtcOffset) : TimeZone where
  offsetFromUtc _ := offset
  offsetFromLocal _ := .single offset

/-- What is used of the calendar library. -/
structure DateLibrary where
  fromTimestamp : Int → Option CivilTime
  withOffset : CivilTime → UtcOffset → CivilTime
  fromYmdHms : (year month day hour minute second : Nat) → Option CivilTime
  timestamp : CivilTime → Int
  localTimestamp : CivilTime → UtcOffset → Int
  subOneDay : CivilTime → Option CivilTime

/-- The calendar library is the Gregorian calendar, within its range of years. -/
structure DateLibrary.Documented (dates : DateLibrary) : Prop where
  fromTimestamp : ∀ {seconds civil}, dates.fromTimestamp seconds = some civil →
    civil = .ofSeconds seconds
  range : ∀ {seconds}, dates.fromTimestamp seconds = none →
    (CivilTime.ofSeconds seconds).year < -262143 ∨ 262142 < (CivilTime.ofSeconds seconds).year
  withOffset : ∀ {seconds civil} offset, dates.fromTimestamp seconds = some civil →
    dates.withOffset civil offset = .ofSeconds (seconds + offset)
  fromYmdHms : ∀ {year month day hour minute second : Nat}, year < 65536 →
    dates.fromYmdHms year month day hour minute second =
      if CivilTime.Valid ⟨year, month, day, hour, minute, second⟩ then
        some ⟨year, month, day, hour, minute, second⟩
      else none
  timestamp : ∀ {civil : CivilTime}, civil.Valid → dates.timestamp civil = civil.toSeconds
  localTimestamp : ∀ {civil : CivilTime} offset, civil.Valid →
    dates.localTimestamp civil offset = civil.toSeconds - offset

/-- An extra field of an entry. -/
inductive ExtraField where
  | ntfs (mtime : UInt64)
  | extendedTimestamp (modTime : Option UInt32)
  | other

/-- What is used of the ZIP library. -/
structure ZipLibrary (DateTime : Type) where
  fromDateAndTime : (year month day hour minute second : Nat) → Option DateTime
  default : DateTime
  year : DateTime → UInt16
  month : DateTime → UInt8
  day : DateTime → UInt8
  hour : DateTime → UInt8
  minute : DateTime → UInt8
  second : DateTime → UInt8
  extraField : (headerId : Nat) → (data : List UInt8) → Option ExtraField

variable {DateTime : Type}

/-- The wall-clock time that the accessors show. -/
def ZipLibrary.civil (zip : ZipLibrary DateTime) (dt : DateTime) : CivilTime where
  year := (zip.year dt).toNat
  month := (zip.month dt).toNat
  day := (zip.day dt).toNat
  hour := (zip.hour dt).toNat
  minute := (zip.minute dt).toNat
  second := (zip.second dt).toNat

/-- A DOS time holds the years 1980 to 2107 in steps of two seconds. -/
structure ZipLibrary.Documented (zip : ZipLibrary DateTime) : Prop where
  fromDateAndTime : ∀ {year month day hour minute second : Nat}, 1980 ≤ year → year ≤ 2107 →
    CivilTime.Valid ⟨year, month, day, hour, minute, second⟩ →
    ∃ dt, zip.fromDateAndTime year month day hour minute second = some dt ∧
      zip.civil dt = ⟨year, month, day, hour, minute, second / 2 * 2⟩
  default : zip.civil zip.default = ⟨1980, 1, 1, 0, 0, 0⟩
  ntfs : ∀ {reserved : List UInt8} (mtime : UInt64) (atime ctime : Nat), reserved.length = 4 →
    zip.extraField 0x000a (reserved ++ Bytes.leU16 1 ++ Bytes.leU16 24 ++
      Bytes.leU64 mtime.toNat ++ Bytes.leU64 atime ++ Bytes.leU64 ctime) = some (.ntfs mtime)
  extendedTimestamp : ∀ modTime : UInt32,
    zip.extraField 0x5455 (1 :: Bytes.leU32 modTime.toNat) =
      some (.extendedTimestamp (some modTime))

/-! ## Reading -/

def ntfsToUnixEpochSeconds : Int := 11644473600

def ntfsTicksPerSecond : Nat := 10000000

def ntfsFileTime (ticks : UInt64) : Except ArithmeticOverflow (Option FileTime) :=
  if ticks.toNat / ntfsTicksPerSecond < 2 ^ 63 then do
    let seconds ← subI64 (ticks.toNat / ntfsTicksPerSecond : Nat) ntfsToUnixEpochSeconds
    let nanoseconds ← mulU64 (ticks.toNat % ntfsTicksPerSecond) 100
    .ok (if nanoseconds < 2 ^ 32 then some ⟨seconds, nanoseconds⟩ else none)
  else .ok none

def dosFileTimeIn (dates : DateLibrary) (zip : ZipLibrary DateTime) (dt : DateTime)
    (zone : TimeZone) : Except ArithmeticOverflow (Option FileTime) :=
  let month := if 1 ≤ (zip.month dt).toNat ∧ (zip.month dt).toNat ≤ 12
    then (zip.month dt).toNat else 1
  match dates.fromYmdHms (zip.year dt).toNat month (max (zip.day dt).toNat 1)
      (zip.hour dt).toNat (zip.minute dt).toNat (zip.second dt).toNat with
  | none => .ok none
  | some naive =>
    match zone.offsetFromLocal naive with
    | .single offset | .ambiguous offset _ =>
      .ok (some ⟨dates.localTimestamp naive offset, 0⟩)
    | .none =>
      match dates.subOneDay naive with
      | none => .ok none
      | some beforeJump => do
          let seconds ← subI64 (dates.timestamp naive) (zone.offsetFromUtc beforeJump)
          .ok (some ⟨seconds, 0⟩)

/-- The bits of a `u32` as an `i32`. -/
def signed32 (raw : UInt32) : Int :=
  if raw.toNat < 2 ^ 31 then raw.toNat else (raw.toNat : Int) - 2 ^ 32

/-- What the loop over the extra fields has found. -/
structure FieldTimes where
  ntfs : Option UInt64 := none
  extended : Option Int := none

def FieldTimes.step (times : FieldTimes) : ExtraField → FieldTimes
  | .ntfs mtime => if mtime ≠ 0 then { times with ntfs := some mtime } else times
  | .extendedTimestamp modTime =>
    { times with extended := times.extended.or (modTime.map signed32) }
  | .other => times

def FieldTimes.exact (times : FieldTimes) : Except ArithmeticOverflow (Option FileTime) :=
  match times.ntfs with
  | some ticks => ntfsFileTime ticks
  | none => .ok none

/-- The times that an entry carries. -/
structure ZipEntryTimes (DateTime : Type) where
  extraDataFields : List ExtraField
  lastModified : Option DateTime

/-- The time of an entry. -/
def zipEntryMtime (dates : DateLibrary) (zip : ZipLibrary DateTime) (zone : TimeZone)
    (file : ZipEntryTimes DateTime) : Except ArithmeticOverflow (Option FileTime) := do
  let times := file.extraDataFields.foldl FieldTimes.step {}
  match ← times.exact, times.extended, file.lastModified with
  | some time, _, _ => .ok (some time)
  | none, some seconds, _ => .ok (some ⟨seconds, 0⟩)
  | none, none, some dt => dosFileTimeIn dates zip dt zone
  | none, none, none => .ok none

/-! ## Writing -/

/-- NTFS ticks, or nothing before 1601 or past the 64-bit tick range. -/
def unixToNtfsTicks (time : FileTime) : Option UInt64 :=
  let seconds := time.seconds + ntfsToUnixEpochSeconds
  if seconds < 2 ^ 63 ∧ 0 ≤ seconds then
    let ticks := seconds.toNat * ntfsTicksPerSecond
    if ticks < 2 ^ 64 ∧ ticks + time.nanoseconds / 100 < 2 ^ 64 then
      some (UInt64.ofNat (ticks + time.nanoseconds / 100))
    else none
  else none

def tryU16 (value : Int) : Option Nat :=
  if 0 ≤ value ∧ value < 65536 then some value.toNat else none

def tryU8 (value : Nat) : Option Nat := if value < 256 then some value else none

def dosDateTimeIn (dates : DateLibrary) (zip : ZipLibrary DateTime) (modified : FileTime)
    (zone : TimeZone) : DateTime :=
  let earliest := zip.default
  let latest := (zip.fromDateAndTime 2107 12 31 23 59 58).getD zip.default
  match dates.fromTimestamp modified.seconds with
  | none => if modified.seconds < 0 then earliest else latest
  | some utc =>
    if 1979 ≤ utc.year ∧ utc.year ≤ 2108 then
      let naive := dates.withOffset utc (zone.offsetFromUtc utc)
      if naive.year < 1980 then earliest
      else if 2107 < naive.year then latest
      else
        (zip.fromDateAndTime ((tryU16 naive.year).getD 1980) ((tryU8 naive.month).getD 1)
          ((tryU8 naive.day).getD 1) ((tryU8 naive.hour).getD 0) ((tryU8 naive.minute).getD 0)
          ((tryU8 naive.second).getD 0)).getD earliest
    else if utc.year < 1979 then earliest
    else latest

/-- The options that an entry is written with. -/
structure ZipFileOptions (DateTime : Type) where
  lastModifiedTime : DateTime
  extraFields : List (Nat × List UInt8) := []

variable {options : ZipFileOptions DateTime}

def ZipFileOptions.addExtraField (options : ZipFileOptions DateTime) (headerId : Nat)
    (data : List UInt8) : ZipFileOptions DateTime :=
  { options with extraFields := options.extraFields ++ [(headerId, data)] }

def ntfsField (ticks : UInt64) : List UInt8 :=
  List.replicate 4 0 ++ Bytes.leU16 1 ++ Bytes.leU16 24 ++ Bytes.leU64 ticks.toNat ++
    Bytes.leU64 0 ++ Bytes.leU64 0

def extendedTimestampField (seconds : Int) : List UInt8 :=
  1 :: Bytes.leU32 (seconds % 2 ^ 32).toNat

/-- The options with a time put in. -/
def withZipMtime (dates : DateLibrary) (zip : ZipLibrary DateTime) (zone : TimeZone)
    (options : ZipFileOptions DateTime) (modified : FileTime) : ZipFileOptions DateTime :=
  let options := { options with lastModifiedTime := dosDateTimeIn dates zip modified zone }
  let options := match (unixToNtfsTicks modified).filter (· ≠ 0) with
    | some ticks => options.addExtraField 0x000a (ntfsField ticks)
    | none => options
  if -2 ^ 31 ≤ modified.seconds ∧ modified.seconds < 2 ^ 31 then
    options.addExtraField 0x5455 (extendedTimestampField modified.seconds)
  else options

/-- The entry as the ZIP library shows it when the archive is read. -/
def ZipFileOptions.readBack (zip : ZipLibrary DateTime) (options : ZipFileOptions DateTime) :
    ZipEntryTimes DateTime where
  extraDataFields := options.extraFields.filterMap fun field => zip.extraField field.1 field.2
  lastModified := some options.lastModifiedTime

/-! ## No step overflows -/

theorem ntfsFileTime_eq (ticks : UInt64) :
    ntfsFileTime ticks = .ok (some ⟨(ticks.toNat / ntfsTicksPerSecond : Nat) -
      ntfsToUnixEpochSeconds, ticks.toNat % ntfsTicksPerSecond * 100⟩) := by
  have bound : ticks.toNat < 2 ^ 64 := ticks.toNat_lt
  unfold ntfsFileTime subI64 mulU64 ntfsTicksPerSecond ntfsToUnixEpochSeconds
  rw [if_pos (by omega), if_pos (by omega), if_pos (by omega)]
  change Except.ok (if ticks.toNat % 10000000 * 100 < 2 ^ 32 then _ else _) = _
  rw [if_pos (by omega)]

variable {dates : DateLibrary} {zip : ZipLibrary DateTime}

theorem CivilTime.abs_toSeconds {civil : CivilTime} (valid : civil.Valid) (past : 0 ≤ civil.year)
    (bound : civil.year < 65536) : -2 ^ 62 ≤ civil.toSeconds ∧ civil.toSeconds < 2 ^ 62 := by
  obtain ⟨⟨-, month⟩, ⟨-, day⟩, hour, minute, second⟩ := valid
  have days : ∀ leap, ∀ month < 13, Calendar.daysBefore leap month ≤ 366 ∧
      Calendar.daysInMonth leap month ≤ 31 := by
    decide +kernel
  obtain ⟨before, within⟩ := days (Calendar.isLeap civil.year) civil.month (by omega)
  unfold CivilTime.toSeconds CivilTime.toDays Calendar.yearStart
  omega

/-- A DOS time is read in every zone without an overflow. -/
theorem dosFileTimeIn_total (calendar : dates.Documented) (dt : DateTime) (zone : TimeZone) :
    ∃ time, dosFileTimeIn dates zip dt zone = .ok time := by
  unfold dosFileTimeIn
  dsimp only
  generalize (if 1 ≤ (zip.month dt).toNat ∧ (zip.month dt).toNat ≤ 12
    then (zip.month dt).toNat else 1) = month
  split
  · exact ⟨none, rfl⟩
  next naive read =>
    rw [calendar.fromYmdHms (zip.year dt).toNat_lt] at read
    split at read
    next valid =>
      cases read
      split
      · exact ⟨_, rfl⟩
      · exact ⟨_, rfl⟩
      · split
        · exact ⟨none, rfl⟩
        next before _ =>
          obtain ⟨low, high⟩ := CivilTime.abs_toSeconds valid (Int.natCast_nonneg _)
            (Int.ofNat_lt.mpr (zip.year dt).toNat_lt)
          obtain ⟨west, east⟩ := (zone.offsetFromUtc before).2
          rw [calendar.timestamp valid]
          unfold subI64
          rw [if_pos (by omega)]
          exact ⟨_, rfl⟩
    · cases read

/-- Whatever the fields of an entry are, its time is read without an overflow. -/
theorem zipEntryMtime_total (calendar : dates.Documented) (zone : TimeZone)
    (file : ZipEntryTimes DateTime) : ∃ time, zipEntryMtime dates zip zone file = .ok time := by
  have exact_total : ∀ times : FieldTimes, ∃ time, times.exact = .ok time := by
    intro times
    unfold FieldTimes.exact
    split
    · exact ⟨_, ntfsFileTime_eq _⟩
    · exact ⟨none, rfl⟩
  unfold zipEntryMtime
  obtain ⟨exact, found⟩ := exact_total (file.extraDataFields.foldl FieldTimes.step {})
  dsimp only
  rw [found]
  dsimp only [bind, Except.bind]
  split
  · exact ⟨_, rfl⟩
  · exact ⟨_, rfl⟩
  · exact dosFileTimeIn_total calendar _ zone
  · exact ⟨none, rfl⟩

/-! ## The exact fields -/

theorem signed32_emod (low : -2 ^ 31 ≤ seconds) (high : seconds < 2 ^ 31) :
    signed32 (UInt32.ofNat (seconds % 2 ^ 32).toNat) = seconds := by
  have raw : (UInt32.ofNat (seconds % 2 ^ 32).toNat).toNat = (seconds % 2 ^ 32).toNat :=
    UInt32.toNat_ofNat_of_lt' (by change _ < 2 ^ 32; omega)
  unfold signed32
  rw [raw]
  split <;> omega

theorem unixToNtfsTicks_spec (defined : unixToNtfsTicks time = some ticks) :
    0 ≤ time.seconds + ntfsToUnixEpochSeconds ∧
      ticks.toNat = (time.seconds + ntfsToUnixEpochSeconds).toNat * ntfsTicksPerSecond +
        time.nanoseconds / 100 := by
  unfold unixToNtfsTicks at defined
  dsimp only at defined
  split at defined
  next within =>
    split at defined
    next fits =>
      cases defined
      exact ⟨within.2, UInt64.toNat_ofNat_of_lt' fits.2⟩
    · cases defined
  · cases defined

/-- The time in steps of 100 ns. -/
def FileTime.floorTick (time : FileTime) : FileTime :=
  ⟨time.seconds, time.nanoseconds / 100 * 100⟩

theorem ntfsFileTime_unixToNtfsTicks (fraction : time.nanoseconds < 1000000000)
    (defined : unixToNtfsTicks time = some ticks) :
    ntfsFileTime ticks = .ok (some time.floorTick) := by
  obtain ⟨past, count⟩ := unixToNtfsTicks_spec defined
  rw [ntfsFileTime_eq, count]
  unfold FileTime.floorTick
  unfold ntfsTicksPerSecond ntfsToUnixEpochSeconds at *
  congr 3 <;> omega

/-- No field of the options is read as a time. -/
def ZipFileOptions.Timeless (zip : ZipLibrary DateTime) (options : ZipFileOptions DateTime) :
    Prop :=
  ∀ field ∈ options.extraFields, ∀ read ∈ zip.extraField field.1 field.2, read = .other

theorem foldl_step_of_timeless (timeless : options.Timeless zip) (times : FieldTimes) :
    (options.readBack zip).extraDataFields.foldl FieldTimes.step times = times := by
  have others : ∀ fields : List ExtraField, (∀ field ∈ fields, field = .other) →
      fields.foldl FieldTimes.step times = times := by
    intro fields all
    induction fields with
    | nil => rfl
    | cons field rest ih =>
      rw [List.foldl_cons, all field (.head _)]
      exact ih fun field member => all field (.tail _ member)
  refine others _ fun read member => ?_
  obtain ⟨field, stored, shown⟩ := List.mem_filterMap.mp member
  exact timeless field stored read shown

theorem extraDataFields_addExtraField (options : ZipFileOptions DateTime) (headerId : Nat)
    (data : List UInt8) :
    ((options.addExtraField headerId data).readBack zip).extraDataFields =
      (options.readBack zip).extraDataFields ++ (zip.extraField headerId data).toList := by
  unfold ZipFileOptions.readBack ZipFileOptions.addExtraField
  dsimp only
  rw [List.filterMap_append]
  cases shown : zip.extraField headerId data with
  | none => simp [shown]
  | some field => simp [shown]

/-- Reading finds the ticks and the seconds that were written. -/
theorem foldl_step_withZipMtime (library : zip.Documented) (zone : TimeZone)
    (timeless : options.Timeless zip) (time : FileTime) :
    ((withZipMtime dates zip zone options time).readBack zip).extraDataFields.foldl
        FieldTimes.step {} =
      { ntfs := (unixToNtfsTicks time).filter (· ≠ 0)
        extended :=
          if -2 ^ 31 ≤ time.seconds ∧ time.seconds < 2 ^ 31 then some time.seconds else none } := by
  unfold withZipMtime
  dsimp only
  have stamped : ({ options with
      lastModifiedTime := dosDateTimeIn dates zip time zone } : ZipFileOptions DateTime).Timeless
      zip := timeless
  generalize { options with lastModifiedTime := dosDateTimeIn dates zip time zone } =
    options at stamped
  have ticked : ((match (unixToNtfsTicks time).filter (· ≠ 0) with
      | some ticks => options.addExtraField 0x000a (ntfsField ticks)
      | none => options).readBack zip).extraDataFields.foldl FieldTimes.step {} =
      { ntfs := (unixToNtfsTicks time).filter (· ≠ 0) } := by
    cases written : (unixToNtfsTicks time).filter (· ≠ 0) with
    | none => exact foldl_step_of_timeless stamped {}
    | some ticks =>
      have nonzero : ticks ≠ 0 := by
        simpa using (Option.filter_eq_some_iff.mp written).2
      dsimp only
      unfold ntfsField
      rw [extraDataFields_addExtraField, library.ntfs ticks 0 0 rfl, List.foldl_append,
        foldl_step_of_timeless stamped]
      change (if ticks ≠ 0 then _ else _) = _
      rw [if_pos nonzero]
  by_cases within : -2 ^ 31 ≤ time.seconds ∧ time.seconds < 2 ^ 31
  · rw [if_pos within, if_pos within, extraDataFields_addExtraField, List.foldl_append, ticked]
    have raw : (UInt32.ofNat (time.seconds % 2 ^ 32).toNat).toNat =
        (time.seconds % 2 ^ 32).toNat :=
      UInt32.toNat_ofNat_of_lt' (by change _ < 2 ^ 32; omega)
    unfold extendedTimestampField
    rw [← raw, library.extendedTimestamp]
    change FieldTimes.mk _ (some (signed32 _)) = _
    rw [signed32_emod within.1 within.2]
  · rw [if_neg within, if_neg within, ticked]

/-- The ticks win. -/
theorem zipEntryMtime_of_ticks (library : zip.Documented) (writeZone readZone : TimeZone)
    (timeless : options.Timeless zip) (fraction : time.nanoseconds < 1000000000)
    (defined : unixToNtfsTicks time = some ticks) (nonzero : ticks ≠ 0) :
    zipEntryMtime dates zip readZone
        ((withZipMtime dates zip writeZone options time).readBack zip) =
      .ok (some time.floorTick) := by
  have found : (unixToNtfsTicks time).filter (· ≠ 0) = some ticks :=
    Option.filter_eq_some_iff.mpr ⟨defined, by simpa using nonzero⟩
  unfold zipEntryMtime FieldTimes.exact
  rw [foldl_step_withZipMtime library writeZone timeless, found]
  dsimp only
  rw [ntfsFileTime_unixToNtfsTicks fraction defined]
  rfl

/-- Without ticks, the seconds are read. -/
theorem zipEntryMtime_of_seconds (library : zip.Documented) (writeZone readZone : TimeZone)
    (timeless : options.Timeless zip)
    (unticked : ∀ ticks, unixToNtfsTicks time = some ticks → ticks = 0)
    (within : -2 ^ 31 ≤ time.seconds ∧ time.seconds < 2 ^ 31) :
    zipEntryMtime dates zip readZone
        ((withZipMtime dates zip writeZone options time).readBack zip) =
      .ok (some ⟨time.seconds, 0⟩) := by
  have found : (unixToNtfsTicks time).filter (· ≠ 0) = none := by
    rw [Option.filter_eq_none_iff]
    intro ticks defined
    simpa using unticked ticks defined
  unfold zipEntryMtime FieldTimes.exact
  rw [foldl_step_withZipMtime library writeZone timeless, found, if_pos within]
  rfl

/-! ## The DOS field -/

def dosEarliest : Int := CivilTime.toSeconds ⟨1980, 1, 1, 0, 0, 0⟩

def dosLatest : Int := CivilTime.toSeconds ⟨2107, 12, 31, 23, 59, 59⟩

/-- A local time as the DOS field can hold it. -/
def dosRounded (seconds : Int) : Int := max dosEarliest (min seconds dosLatest) / 2 * 2

/-- The DOS field shows a local time. -/
structure ShowsSeconds (zip : ZipLibrary DateTime) (dt : DateTime) (seconds : Int) : Prop where
  valid : (zip.civil dt).Valid
  shown : (zip.civil dt).toSeconds = seconds

theorem showsSeconds_earliest (library : zip.Documented) (early : seconds ≤ dosEarliest) :
    ShowsSeconds zip zip.default (dosRounded seconds) := by
  have bottom : dosRounded seconds = CivilTime.toSeconds ⟨1980, 1, 1, 0, 0, 0⟩ := by
    have order : dosEarliest ≤ dosLatest := by decide
    have even : dosEarliest / 2 * 2 = CivilTime.toSeconds ⟨1980, 1, 1, 0, 0, 0⟩ := by decide
    unfold dosRounded
    omega
  rw [bottom]
  constructor
  · rw [library.default]
    decide
  · rw [library.default]

theorem showsSeconds_latest (library : zip.Documented) (late : dosLatest ≤ seconds) :
    ShowsSeconds zip ((zip.fromDateAndTime 2107 12 31 23 59 58).getD zip.default)
      (dosRounded seconds) := by
  have top : dosRounded seconds = CivilTime.toSeconds ⟨2107, 12, 31, 23, 59, 58⟩ := by
    have order : dosEarliest ≤ dosLatest := by decide
    have even : dosLatest / 2 * 2 = CivilTime.toSeconds ⟨2107, 12, 31, 23, 59, 58⟩ := by decide
    unfold dosRounded
    omega
  obtain ⟨dt, made, shown⟩ := @library.fromDateAndTime 2107 12 31 23 59 58 (by decide) (by decide)
    (by decide)
  rw [made, Option.getD_some, top]
  constructor
  · rw [shown]
    decide
  · rw [shown]
    rfl

/-- A wall-clock time within the range keeps its even second. -/
theorem showsSeconds_of_within (library : zip.Documented)
    (from1980 : 1980 ≤ (CivilTime.ofSeconds seconds).year)
    (until2107 : (CivilTime.ofSeconds seconds).year ≤ 2107) :
    ShowsSeconds zip
      ((zip.fromDateAndTime ((tryU16 (CivilTime.ofSeconds seconds).year).getD 1980)
        ((tryU8 (CivilTime.ofSeconds seconds).month).getD 1)
        ((tryU8 (CivilTime.ofSeconds seconds).day).getD 1)
        ((tryU8 (CivilTime.ofSeconds seconds).hour).getD 0)
        ((tryU8 (CivilTime.ofSeconds seconds).minute).getD 0)
        ((tryU8 (CivilTime.ofSeconds seconds).second).getD 0)).getD zip.default)
      (dosRounded seconds) := by
  have begun : dosEarliest ≤ seconds := by
    have year := mt CivilTime.year_ofSeconds_lt_iff.mpr (Int.not_lt.mpr from1980)
    have start : dosEarliest = Calendar.yearStart 1980 * 86400 := by decide
    omega
  have ended : seconds ≤ dosLatest := by
    have year := CivilTime.year_ofSeconds_lt_iff.mp (Int.lt_add_one_of_le until2107)
    have stop : dosLatest + 1 = Calendar.yearStart 2108 * 86400 := by decide
    have next : (2107 : Int) + 1 = 2108 := rfl
    rw [next] at year
    omega
  have rounded : dosRounded seconds = seconds / 2 * 2 := by
    unfold dosRounded
    omega
  have valid := CivilTime.valid_ofSeconds seconds
  have clock := CivilTime.toSeconds_ofSeconds seconds
  have parity : (CivilTime.ofSeconds seconds).second % 2 = (seconds % 2).toNat := by
    change (seconds % 86400).toNat % 60 % 2 = _
    omega
  rw [rounded]
  generalize CivilTime.ofSeconds seconds = civil at *
  obtain ⟨year, month, day, hour, minute, second⟩ := civil
  dsimp only at from1980 until2107 parity
  obtain ⟨year, rfl⟩ := Int.eq_ofNat_of_zero_le (by omega : 0 ≤ year)
  have days : ∀ leap, ∀ month < 13, Calendar.daysInMonth leap month ≤ 31 := by decide +kernel
  obtain ⟨⟨firstMonth, lastMonth⟩, ⟨firstDay, lastDay⟩, hours, minutes, seconds⟩ := valid
  dsimp only at firstMonth lastMonth firstDay lastDay hours minutes seconds ⊢
  have short := days (Calendar.isLeap year) month (by omega)
  have fits : ∀ value < 60, tryU8 value = some value := fun value small => if_pos (by omega)
  have fitsYear : tryU16 year = some year := if_pos (by omega)
  rw [fitsYear, fits month (by omega), fits day (by omega), fits hour (by omega),
    fits minute (by omega), fits second (by omega)]
  obtain ⟨dt, made, shown⟩ := @library.fromDateAndTime year month day hour minute second (by omega)
    (by omega) ⟨⟨firstMonth, lastMonth⟩, ⟨firstDay, lastDay⟩, hours, minutes, seconds⟩
  simp only [Option.getD_some, made]
  constructor
  · rw [shown]
    refine ⟨⟨firstMonth, lastMonth⟩, ⟨firstDay, lastDay⟩, hours, minutes, ?_⟩
    dsimp only
    omega
  · rw [shown]
    unfold CivilTime.toSeconds CivilTime.toDays at clock ⊢
    dsimp only at clock ⊢
    omega

/-- A zone moves a time by less than a day, so the years around the range decide. -/
theorem showsSeconds_dosDateTimeIn (calendar : dates.Documented) (library : zip.Documented)
    (time : FileTime) (offset : UtcOffset) :
    ShowsSeconds zip (dosDateTimeIn dates zip time (.fixed offset))
      (dosRounded (time.seconds + offset)) := by
  obtain ⟨west, east⟩ := offset.2
  have ends : dosEarliest = 315532800 ∧ dosLatest = 4354819199 := by decide
  have early {year : Int} (before : (CivilTime.ofSeconds time.seconds).year < year)
      (bound : year ≤ 1979) : time.seconds + offset ≤ dosEarliest := by
    have start := CivilTime.year_ofSeconds_lt_iff.mp before
    have mono := Calendar.yearStart_mono bound
    have start1979 : Calendar.yearStart 1979 * 86400 = 283996800 := by decide
    omega
  have late {year : Int} (after : ¬(CivilTime.ofSeconds time.seconds).year < year)
      (bound : 2109 ≤ year) : dosLatest ≤ time.seconds + offset := by
    have start := mt CivilTime.year_ofSeconds_lt_iff.mpr after
    have mono := Calendar.yearStart_mono bound
    have start2109 : Calendar.yearStart 2109 * 86400 = 4386441600 := by decide
    omega
  unfold dosDateTimeIn
  dsimp only
  split
  next outside =>
    rcases calendar.range outside with far | far
    · have start := CivilTime.year_ofSeconds_lt_iff.mp far
      have mono := Calendar.yearStart_mono (by decide : (-262143 : Int) ≤ 1970)
      have epoch : Calendar.yearStart 1970 = 0 := by decide
      rw [if_pos (by omega)]
      exact showsSeconds_earliest library (early far (by decide))
    · have after := late (Int.not_lt.mpr far) (by decide)
      rw [if_neg (by omega)]
      exact showsSeconds_latest library after
  next utc converted =>
    have shifted := calendar.withOffset offset converted
    have same := calendar.fromTimestamp converted
    subst same
    split_ifs with near before after long
    · refine showsSeconds_earliest library ?_
      change (dates.withOffset _ offset).year < 1980 at before
      rw [shifted] at before
      have start := CivilTime.year_ofSeconds_lt_iff.mp before
      have start1980 : Calendar.yearStart 1980 * 86400 = 315532800 := by decide
      omega
    · refine showsSeconds_latest library ?_
      change 2107 < (dates.withOffset _ offset).year at after
      rw [shifted] at after
      have start := mt CivilTime.year_ofSeconds_lt_iff.mpr
        (Int.not_lt.mpr (after : 2107 + 1 ≤ (CivilTime.ofSeconds (time.seconds + offset)).year))
      have start2108 : Calendar.yearStart (2107 + 1) * 86400 = 4354819200 := by decide
      omega
    · change ¬(dates.withOffset _ offset).year < 1980 at before
      change ¬2107 < (dates.withOffset _ offset).year at after
      change ShowsSeconds zip (Option.getD (zip.fromDateAndTime
        ((tryU16 (dates.withOffset _ offset).year).getD 1980)
        ((tryU8 (dates.withOffset _ offset).month).getD 1)
        ((tryU8 (dates.withOffset _ offset).day).getD 1)
        ((tryU8 (dates.withOffset _ offset).hour).getD 0)
        ((tryU8 (dates.withOffset _ offset).minute).getD 0)
        ((tryU8 (dates.withOffset _ offset).second).getD 0)) _) _
      rw [shifted] at before after ⊢
      exact showsSeconds_of_within library (Int.not_lt.mp before) (Int.not_lt.mp after)
    · exact showsSeconds_earliest library (early long (by decide))
    · refine showsSeconds_latest library (@late 2109 ?_ (by decide))
      omega

/-- What the DOS field shows is read with the offset taken off. -/
theorem dosFileTimeIn_fixed (calendar : dates.Documented) {dt : DateTime}
    (shows : ShowsSeconds zip dt seconds) (offset : UtcOffset) :
    dosFileTimeIn dates zip dt (.fixed offset) = .ok (some ⟨seconds - offset, 0⟩) := by
  obtain ⟨valid, shown⟩ := shows
  have month : 1 ≤ (zip.month dt).toNat ∧ (zip.month dt).toNat ≤ 12 := valid.month
  have day : max (zip.day dt).toNat 1 = (zip.day dt).toNat := Nat.max_eq_left valid.day.1
  unfold dosFileTimeIn
  dsimp only
  rw [if_pos month, day, calendar.fromYmdHms (zip.year dt).toNat_lt]
  change (match (if (zip.civil dt).Valid then some (zip.civil dt) else none) with
    | none => _ | some naive => _) = _
  rw [if_pos valid]
  change Except.ok (some (FileTime.mk (dates.localTimestamp (zip.civil dt) offset) 0)) = _
  rw [calendar.localTimestamp offset valid, shown]

/-! ## The round trip -/

variable (dates zip) in
/-- **Modification times survive the archive.** The ticks keep a time to 100 ns,
the extended timestamp keeps its seconds, and the DOS field keeps the local time
within its years to two seconds. No arithmetic step overflows, for any archive. -/
theorem zip_times_round_trip (calendar : dates.Documented) (library : zip.Documented)
    {options : ZipFileOptions DateTime} (timeless : options.Timeless zip)
    (writeZone readZone : TimeZone) {time : FileTime} (representable : time.Representable) :
    (∀ ticks, unixToNtfsTicks time = some ticks → ticks ≠ 0 →
      zipEntryMtime dates zip readZone
          ((withZipMtime dates zip writeZone options time).readBack zip) =
        .ok (some ⟨time.seconds, time.nanoseconds / 100 * 100⟩)) ∧
    ((∀ ticks, unixToNtfsTicks time = some ticks → ticks = 0) →
      -2 ^ 31 ≤ time.seconds → time.seconds < 2 ^ 31 →
      zipEntryMtime dates zip readZone
          ((withZipMtime dates zip writeZone options time).readBack zip) =
        .ok (some ⟨time.seconds, 0⟩)) ∧
    (∀ file, ∃ read, zipEntryMtime dates zip readZone file = .ok read) ∧
    ∀ offset : UtcOffset,
      dosFileTimeIn dates zip (dosDateTimeIn dates zip time (.fixed offset)) (.fixed offset) =
        .ok (some ⟨max dosEarliest (min (time.seconds + offset) dosLatest) / 2 * 2 - offset,
          0⟩) := by
  obtain ⟨-, -, fraction⟩ := representable
  refine ⟨?_, ?_, zipEntryMtime_total calendar readZone, ?_⟩
  · intro ticks defined nonzero
    exact zipEntryMtime_of_ticks library writeZone readZone timeless fraction defined nonzero
  · intro unticked low high
    exact zipEntryMtime_of_seconds library writeZone readZone timeless unticked ⟨low, high⟩
  · intro offset
    exact dosFileTimeIn_fixed calendar
      (showsSeconds_dosDateTimeIn calendar library time offset) offset

/-- A calendar library with the years of the documentation. -/
def gregorian : DateLibrary where
  fromTimestamp seconds :=
    if -262143 ≤ (CivilTime.ofSeconds seconds).year ∧
        (CivilTime.ofSeconds seconds).year ≤ 262142 then
      some (.ofSeconds seconds)
    else none
  withOffset civil offset := .ofSeconds (civil.toSeconds + offset)
  fromYmdHms year month day hour minute second :=
    if CivilTime.Valid ⟨year, month, day, hour, minute, second⟩ then
      some ⟨year, month, day, hour, minute, second⟩
    else none
  timestamp civil := civil.toSeconds
  localTimestamp civil offset := civil.toSeconds - offset
  subOneDay civil := some (.ofSeconds (civil.toSeconds - 86400))

theorem gregorian_documented : gregorian.Documented where
  fromTimestamp := by
    intro seconds civil converted
    unfold gregorian at converted
    dsimp only at converted
    split at converted
    · exact (Option.some.inj converted).symm
    · cases converted
  range := by
    intro seconds outside
    unfold gregorian at outside
    dsimp only at outside
    split at outside
    · cases outside
    · omega
  withOffset := by
    intro seconds civil offset converted
    unfold gregorian at converted
    dsimp only at converted
    split at converted
    · cases converted
      change CivilTime.ofSeconds (CivilTime.toSeconds _ + _) = _
      rw [CivilTime.toSeconds_ofSeconds]
    · cases converted
  fromYmdHms _ := rfl
  timestamp _ := rfl
  localTimestamp _ _ := rfl

/-- A ZIP library that keeps the parts of a DOS time and reads fields at their offsets. -/
def plainZip : ZipLibrary CivilTime where
  fromDateAndTime year month day hour minute second :=
    if CivilTime.Valid ⟨year, month, day, hour, minute, second⟩ ∧ 1980 ≤ year ∧ year ≤ 2107 then
      some ⟨year, month, day, hour, minute, second / 2 * 2⟩
    else none
  default := ⟨1980, 1, 1, 0, 0, 0⟩
  year dt := UInt16.ofNat dt.year.toNat
  month dt := UInt8.ofNat dt.month
  day dt := UInt8.ofNat dt.day
  hour dt := UInt8.ofNat dt.hour
  minute dt := UInt8.ofNat dt.minute
  second dt := UInt8.ofNat dt.second
  extraField headerId data :=
    if headerId = 0x000a then some (.ntfs (UInt64.ofNat (Bytes.readU64 data 8)))
    else if headerId = 0x5455 then
      some (.extendedTimestamp (some (UInt32.ofNat (Bytes.readU32 data 1))))
    else none

theorem plainZip_documented : plainZip.Documented where
  fromDateAndTime := by
    intro year month day hour minute second from1980 until2107 valid
    refine ⟨_, if_pos ⟨valid, from1980, until2107⟩, ?_⟩
    obtain ⟨⟨-, lastMonth⟩, ⟨-, lastDay⟩, hours, minutes, seconds⟩ := valid
    have days : ∀ leap, ∀ month < 13, Calendar.daysInMonth leap month ≤ 31 := by decide +kernel
    dsimp only at lastMonth lastDay hours minutes seconds
    have short := days (Calendar.isLeap year) month (by omega)
    have byte : ∀ value < 60, (UInt8.ofNat value).toNat = value := fun value small =>
      UInt8.toNat_ofNat_of_lt' (by change value < 256; omega)
    have word : (UInt16.ofNat year).toNat = year :=
      UInt16.toNat_ofNat_of_lt' (by change year < 65536; omega)
    unfold ZipLibrary.civil plainZip
    dsimp only
    rw [Int.toNat_natCast, word, byte month (by omega), byte day (by omega), byte hour (by omega),
      byte minute (by omega), byte (second / 2 * 2) (by omega)]
  default := by decide
  ntfs := by
    intro reserved mtime atime ctime width
    have front : (reserved ++ Bytes.leU16 1 ++ Bytes.leU16 24).length + 0 = 8 := by
      simp [width]
    change some (ExtraField.ntfs (UInt64.ofNat (Bytes.readU64 (reserved ++ Bytes.leU16 1 ++
      Bytes.leU16 24 ++ Bytes.leU64 mtime.toNat ++ Bytes.leU64 atime ++ Bytes.leU64 ctime) 8))) = _
    rw [List.append_assoc, List.append_assoc _ _ (_ ++ _), ← front,
      Bytes.readU64_append_right, Bytes.readU64_leU64 mtime.toNat_lt, UInt64.ofNat_toNat]
  extendedTimestamp := by
    intro modTime
    have read : Bytes.readU32 (1 :: Bytes.leU32 modTime.toNat) 1 = modTime.toNat := by
      have behind := Bytes.readU32_append_right [1] (Bytes.leU32 modTime.toNat ++ []) 0
      rw [Bytes.readU32_leU32 modTime.toNat_lt, List.append_nil] at behind
      exact behind
    change some (ExtraField.extendedTimestamp (some (UInt32.ofNat
      (Bytes.readU32 (1 :: Bytes.leU32 modTime.toNat) 1)))) = _
    rw [read, UInt32.ofNat_toNat]

/-- A time of 2023 and its even second in Tokyo. -/
theorem time_of_2023_round_trip :
    zipEntryMtime gregorian plainZip (.fixed ⟨0, by decide⟩)
        ((withZipMtime gregorian plainZip (.fixed ⟨32400, by decide⟩)
          ⟨plainZip.default, []⟩ ⟨1700000001, 123456789⟩).readBack plainZip) =
      .ok (some ⟨1700000001, 123456700⟩) ∧
    dosFileTimeIn gregorian plainZip
        (dosDateTimeIn gregorian plainZip ⟨1700000001, 123456789⟩ (.fixed ⟨32400, by decide⟩))
        (.fixed ⟨32400, by decide⟩) =
      .ok (some ⟨1700000000, 0⟩) := by
  have timeless : ZipFileOptions.Timeless plainZip ⟨plainZip.default, []⟩ := nofun
  have representable : FileTime.Representable ⟨1700000001, 123456789⟩ := by
    unfold FileTime.Representable
    decide
  obtain ⟨ticks, -, -, dos⟩ := zip_times_round_trip gregorian plainZip gregorian_documented
    plainZip_documented timeless (.fixed ⟨32400, by decide⟩) (.fixed ⟨0, by decide⟩)
    representable
  exact ⟨ticks 133444736011234567 (by decide) (by decide), dos ⟨32400, by decide⟩⟩

end ZManager
