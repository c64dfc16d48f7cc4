import Mathlib.Algebra.Group.Int.Defs
import Mathlib.Algebra.GroupWithZero.Nat
import Mathlib.Data.List.Basic
import Mathlib.Tactic.SplitIfs

/-! # File times and the Gregorian calendar

Days and seconds of the epoch as dates and wall-clock times of the proleptic
Gregorian calendar, and back.
-/

namespace ZManager

/-- A time since the Unix epoch. -/
structure FileTime where
  seconds : Int
  nanoseconds : Nat

namespace Calendar

def isLeap (year : Int) : Bool :=
  decide (year % 4 = 0 ∧ (year % 100 ≠ 0 ∨ year % 400 = 0))

/-- The day of the epoch on which a year starts. -/
def yearStart (year : Int) : Int :=
  365 * (year - 1970) + ((year - 1) / 4 - 492) - ((year - 1) / 100 - 19) + ((year - 1) / 400 - 4)

def monthLengths (leap : Bool) : List Nat :=
  [31, if leap then 29 else 28, 31, 30, 31, 30, 31, 31, 30, 31, 30, 31]

/-- The days of a year before a month. -/
def daysBefore (leap : Bool) (month : Nat) : Nat :=
  ((monthLengths leap).take (month - 1)).sum

def daysInMonth (leap : Bool) (month : Nat) : Nat := (monthLengths leap).getD (month - 1) 0

/-- The year of a day: the mean length of a year leaves three to choose from. -/
def yearOf (days : Int) : Int :=
  let near := days * 400 / 146097 + 1970
  if days < yearStart near then near - 1
  else if days < yearStart (near + 1) then near
  else near + 1

/-- The month of a day of the year. -/
def monthOf (leap : Bool) (day : Nat) : Nat :=
  ((List.range 12).filter fun month => daysBefore leap (month + 1) ≤ day).length

theorem yearStart_succ (year : Int) :
    yearStart (year + 1) = yearStart year + if isLeap year then 366 else 365 := by
  unfold yearStart isLeap
  simp only [decide_eq_true_eq]
  split_ifs with leap <;> omega

theorem yearStart_mono {one two : Int} (le : one ≤ two) : yearStart one ≤ yearStart two := by
  unfold yearStart
  omega

theorem yearOf_spec (days : Int) :
    yearStart (yearOf days) ≤ days ∧ days < yearStart (yearOf days + 1) := by
  unfold yearOf
  dsimp only
  generalize rounded : days * 400 / 146097 + 1970 = near
  split_ifs with before within
  · rw [Int.sub_add_cancel]
    refine ⟨?_, before⟩
    unfold yearStart
    omega
  · exact ⟨Int.not_lt.mp before, within⟩
  · refine ⟨Int.not_lt.mp within, ?_⟩
    unfold yearStart
    omega

theorem yearOf_lt_iff {days year : Int} : yearOf days < year ↔ days < yearStart year := by
  obtain ⟨begun, before⟩ := yearOf_spec days
  constructor
  · intro less
    have later : yearStart (yearOf days + 1) ≤ yearStart year := yearStart_mono less
    omega
  · intro less
    by_contra late
    have earlier : yearStart year ≤ yearStart (yearOf days) := yearStart_mono (Int.not_lt.mp late)
    omega

theorem monthOf_spec (leap : Bool) {day : Nat} (inside : day < if leap then 366 else 365) :
    1 ≤ monthOf leap day ∧ monthOf leap day ≤ 12 ∧ daysBefore leap (monthOf leap day) ≤ day ∧
      day < daysBefore leap (monthOf leap day) + daysInMonth leap (monthOf leap day) := by
  have plain : ∀ day < 365, 1 ≤ monthOf false day ∧ monthOf false day ≤ 12 ∧
      daysBefore false (monthOf false day) ≤ day ∧
      day < daysBefore false (monthOf false day) + daysInMonth false (monthOf false day) := by
    decide +kernel
  have long : ∀ day < 366, 1 ≤ monthOf true day ∧ monthOf true day ≤ 12 ∧
      daysBefore true (monthOf true day) ≤ day ∧
      day < daysBefore true (monthOf true day) + daysInMonth true (monthOf true day) := by
    decide +kernel
  cases leap with
  | false => exact plain day inside
  | true => exact long day inside

end Calendar

/-- A date and a time of day on the wall. -/
structure CivilTime where
  year : Int
  month : Nat
  day : Nat
  hour : Nat
  minute : Nat
  second : Nat
  deriving DecidableEq

namespace CivilTime

open Calendar

/-- The date and the time of day exist. -/
structure Valid (civil : CivilTime) : Prop where
  month : 1 ≤ civil.month ∧ civil.month ≤ 12
  day : 1 ≤ civil.day ∧ civil.day ≤ daysInMonth (isLeap civil.year) civil.month
  hour : civil.hour < 24
  minute : civil.minute < 60
  second : civil.second < 60

instance (civil : CivilTime) : Decidable civil.Valid :=
  decidable_of_iff
    ((1 ≤ civil.month ∧ civil.month ≤ 12) ∧
      (1 ≤ civil.day ∧ civil.day ≤ daysInMonth (isLeap civil.year) civil.month) ∧
      civil.hour < 24 ∧ civil.minute < 60 ∧ civil.second < 60)
    ⟨fun ⟨month, day, hour, minute, second⟩ => ⟨month, day, hour, minute, second⟩,
      fun ⟨month, day, hour, minute, second⟩ => ⟨month, day, hour, minute, second⟩⟩

def toDays (civil : CivilTime) : Int :=
  yearStart civil.year + daysBefore (isLeap civil.year) civil.month + (civil.day - 1 : Nat)

/-- The seconds of the epoch that a clock without an offset shows so. -/
def toSeconds (civil : CivilTime) : Int :=
  civil.toDays * 86400 + (civil.hour * 3600 + civil.minute * 60 + civil.second : Nat)

def ofSeconds (seconds : Int) : CivilTime :=
  let days := seconds / 86400
  let rest := (seconds % 86400).toNat
  let year := yearOf days
  let dayOfYear := (days - yearStart year).toNat
  let month := monthOf (isLeap year) dayOfYear
  { year := year
    month := month
    day := dayOfYear - daysBefore (isLeap year) month + 1
    hour := rest / 3600
    minute := rest / 60 % 60
    second := rest % 60 }

theorem dayOfYear_lt (days : Int) :
    0 ≤ days - yearStart (yearOf days) ∧
      (days - yearStart (yearOf days)).toNat < if isLeap (yearOf days) then 366 else 365 := by
  obtain ⟨begun, before⟩ := yearOf_spec days
  rw [yearStart_succ] at before
  refine ⟨by omega, ?_⟩
  split_ifs at before ⊢ <;> omega

theorem valid_ofSeconds (seconds : Int) : (ofSeconds seconds).Valid := by
  obtain ⟨-, inside⟩ := dayOfYear_lt (seconds / 86400)
  obtain ⟨first, last, begun, before⟩ := monthOf_spec _ inside
  unfold ofSeconds
  refine ⟨⟨first, last⟩, ⟨?_, ?_⟩, ?_, ?_, ?_⟩
  · exact Nat.succ_le_succ (Nat.zero_le _)
  · dsimp only
    omega
  · dsimp only
    omega
  · exact Nat.mod_lt _ (by omega)
  · exact Nat.mod_lt _ (by omega)

/-- The wall clock determines the second. -/
theorem toSeconds_ofSeconds (seconds : Int) : (ofSeconds seconds).toSeconds = seconds := by
  obtain ⟨some, inside⟩ := dayOfYear_lt (seconds / 86400)
  obtain ⟨-, -, begun, -⟩ := monthOf_spec _ inside
  have days : (ofSeconds seconds).toDays = seconds / 86400 := by
    unfold toDays ofSeconds
    dsimp only
    omega
  unfold toSeconds
  rw [days]
  unfold ofSeconds
  dsimp only
  omega

theorem year_ofSeconds_lt_iff {seconds year : Int} :
    (ofSeconds seconds).year < year ↔ seconds < yearStart year * 86400 := by
  have days : (ofSeconds seconds).year < year ↔ seconds / 86400 < yearStart year := yearOf_lt_iff
  rw [days]
  omega

end CivilTime

end ZManager
