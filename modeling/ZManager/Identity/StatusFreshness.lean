import ZManager.Identity.OnlineStatus

/-! # When a status is fresh

The window of a status is measured with 64-bit integers. Over the integers, a window that is too
long for them is not a short one; the difference of its ends wraps around and says so.
-/

namespace ZManager.Identity

/-- Freshness over the integers. -/
def FreshWithin (thisUpdate nextUpdate verifierTime : Int) : Prop :=
  thisUpdate ≤ verifierTime + 300 ∧ verifierTime - 300 < nextUpdate ∧ thisUpdate < nextUpdate ∧
    nextUpdate - thisUpdate ≤ 86400

/-- A 64-bit integer. -/
def Fits (value : Int) : Prop := -2 ^ 63 ≤ value ∧ value < 2 ^ 63

/-- No sum or difference leaves the 64-bit integers; the length of the window is taken only
behind the other comparisons. -/
def NothingOverflows (thisUpdate nextUpdate verifierTime : Int) : Prop :=
  Fits (verifierTime + 300) ∧ Fits (verifierTime - 300) ∧
    (thisUpdate ≤ verifierTime + 300 → verifierTime - 300 < nextUpdate →
      thisUpdate < nextUpdate → Fits (nextUpdate - thisUpdate))

/-- A window from one end of the integers to the other that is not over. -/
def WrapsAround (thisUpdate nextUpdate verifierTime : Int) : Prop :=
  2 ^ 63 ≤ nextUpdate - thisUpdate ∧ verifierTime - 300 < nextUpdate

theorem toInt_add_of_fits {one two : Int64} (fits : Fits (one.toInt + two.toInt)) :
    (one + two).toInt = one.toInt + two.toInt := by
  rw [Int64.toInt_add]
  obtain ⟨low, high⟩ := fits
  exact Int.bmod_eq_of_le (by omega) (by omega)

theorem toInt_sub_of_fits {one two : Int64} (fits : Fits (one.toInt - two.toInt)) :
    (one - two).toInt = one.toInt - two.toInt := by
  rw [Int64.toInt_sub]
  obtain ⟨low, high⟩ := fits
  exact Int.bmod_eq_of_le (by omega) (by omega)

namespace StatusResponse

theorem exists_of_requireSome {α : Type} {value : Option α} {field : String} {done : Unit}
    (required : requireSome value field = .ok done) : ∃ present, value = some present := by
  unfold requireSome at required
  split_ifs at required with present
  exact Option.isSome_iff_exists.mp present

/-- A status accepted as valid has both ends of its window. -/
theorem window_of_validateShape {response : StatusResponse}
    (shaped : response.validateShape = .ok ()) (valid : response.status = .valid) :
    ∃ thisUpdate nextUpdate, response.thisUpdate = some thisUpdate ∧
      response.nextUpdate = some nextUpdate := by
  unfold validateShape at shaped
  rw [valid] at shaped
  unfold validateLeafFields at shaped
  simp only [Except.bind_eq_ok_iff] at shaped
  obtain ⟨_, -, _, -, _, -, _, -, _, -, _, -, _, this, next⟩ := shaped
  obtain ⟨thisUpdate, this⟩ := exists_of_requireSome this
  obtain ⟨nextUpdate, next⟩ := exists_of_requireSome next
  exact ⟨thisUpdate, nextUpdate, this, next⟩

variable {response : StatusResponse} {thisUpdate nextUpdate time : UnixSeconds}

theorem isFresh_iff (valid : response.status = .valid)
    (this : response.thisUpdate = some thisUpdate)
    (next : response.nextUpdate = some nextUpdate) (usable : 0 ≤ time.toInt)
    (near : time.toInt < 2 ^ 62) : response.isFreshValidForValidNow time = true ↔
      thisUpdate.toInt ≤ time.toInt + 300 ∧ time.toInt - 300 < nextUpdate.toInt ∧
        thisUpdate.toInt < nextUpdate.toInt ∧ (nextUpdate - thisUpdate).toInt ≤ 86400 := by
  have skew : statusFreshnessSkewSeconds.toInt = 300 := by decide
  have window : maxPositiveStatusWindowSeconds.toInt = 86400 := by decide
  have later : (time + statusFreshnessSkewSeconds).toInt = time.toInt + 300 := by
    rw [toInt_add_of_fits (by rw [skew]; exact ⟨by omega, by omega⟩), skew]
  have earlier : (time - statusFreshnessSkewSeconds).toInt = time.toInt - 300 := by
    rw [toInt_sub_of_fits (by rw [skew]; exact ⟨by omega, by omega⟩), skew]
  unfold isFreshValidForValidNow
  rw [valid, this, next]
  simp only [Bool.and_eq_true, decide_eq_true_eq, Int64.le_iff_toInt_le, Int64.lt_iff_toInt_lt,
    later, earlier, window, and_assoc]

/-- **Freshness is exact** unless the window wraps around. -/
theorem freshness_is_exact_iff {parseRfc3339 : Text → Option UnixSeconds} {value : Json}
    (accepted : fromJsonValue parseRfc3339 value = .ok response)
    (valid : response.status = .valid) (usable : 0 ≤ time.toInt) (near : time.toInt < 2 ^ 62) :
    ∃ thisUpdate nextUpdate, response.thisUpdate = some thisUpdate ∧
      response.nextUpdate = some nextUpdate ∧
      (((response.isFreshValidForValidNow time = true ↔
          FreshWithin thisUpdate.toInt nextUpdate.toInt time.toInt) ∧
        NothingOverflows thisUpdate.toInt nextUpdate.toInt time.toInt) ↔
      ¬WrapsAround thisUpdate.toInt nextUpdate.toInt time.toInt) := by
  obtain ⟨thisUpdate, nextUpdate, this, next⟩ :=
    window_of_validateShape (validateShape_of_fromJsonValue accepted) valid
  refine ⟨thisUpdate, nextUpdate, this, next, ?_⟩
  rw [isFresh_iff valid this next usable near]
  have first := thisUpdate.le_toInt
  have last := nextUpdate.toInt_lt
  by_cases wraps : WrapsAround thisUpdate.toInt nextUpdate.toInt time.toInt
  · refine iff_of_false (fun exactly => ?_) (not_not.mpr wraps)
    obtain ⟨-, -, fits⟩ := exactly.2
    have inside := fits (by have := wraps.1; omega) wraps.2 (by have := wraps.1; omega)
    exact absurd wraps.1 (Int.not_le.mpr inside.2)
  · refine iff_of_true ⟨?_, ?_, ?_, fun _ current before => ?_⟩ wraps
    · unfold FreshWithin
      refine and_congr_right fun _ => and_congr_right fun current => ?_
      refine and_congr_right fun before => ?_
      have short : nextUpdate.toInt - thisUpdate.toInt < 2 ^ 63 :=
        Int.not_le.mp fun long => wraps ⟨long, current⟩
      rw [toInt_sub_of_fits ⟨by omega, short⟩]
    · exact ⟨by omega, by omega⟩
    · exact ⟨by omega, by omega⟩
    · exact ⟨by omega, Int.not_le.mp fun long => wraps ⟨long, current⟩⟩

/-- A valid status with a window of its own, as the server sends it. -/
def sentWindow (thisUpdate nextUpdate : String) : Json :=
  .object [("status".toList, .string "valid".toList),
    ("certificate_sha256".toList, .string ['c']),
    ("issuer_certificate_sha256".toList, .string ['i']),
    ("issuer_key_identifier".toList, .string ['k']), ("serial_number".toList, .string ['1']),
    ("not_before_unix_seconds".toList, .number "100".toList),
    ("not_after_unix_seconds".toList, .number "2000".toList),
    ("this_update_unix_seconds".toList, .number thisUpdate.toList),
    ("next_update_unix_seconds".toList, .number nextUpdate.toList)]

/-- What is read from it. -/
def receivedWindow (thisUpdate nextUpdate : UnixSeconds) : StatusResponse :=
  { StatusSubject.received .valid with
    thisUpdate := some thisUpdate, nextUpdate := some nextUpdate }

theorem short_window_is_exact : ∃ thisUpdate nextUpdate : UnixSeconds,
    (receivedWindow 900 1800).thisUpdate = some thisUpdate ∧
    (receivedWindow 900 1800).nextUpdate = some nextUpdate ∧
    (((receivedWindow 900 1800).isFreshValidForValidNow 1000 = true ↔
        FreshWithin thisUpdate.toInt nextUpdate.toInt (1000 : UnixSeconds).toInt) ∧
      NothingOverflows thisUpdate.toInt nextUpdate.toInt (1000 : UnixSeconds).toInt ↔
    ¬WrapsAround thisUpdate.toInt nextUpdate.toInt (1000 : UnixSeconds).toInt) :=
  freshness_is_exact_iff
    (show fromJsonValue (fun _ => none) (sentWindow "900" "1800") =
      .ok (receivedWindow 900 1800) by rfl)
    rfl (by decide) (by decide)

/-- A window from the least 64-bit integer to the end of time. -/
theorem endless_window_is_fresh : ¬∀ (parseRfc3339 : Text → Option UnixSeconds) (value : Json)
    (response : StatusResponse) (time thisUpdate nextUpdate : UnixSeconds),
    fromJsonValue parseRfc3339 value = .ok response → response.status = .valid →
    0 ≤ time.toInt → time.toInt < 2 ^ 62 → response.thisUpdate = some thisUpdate →
    response.nextUpdate = some nextUpdate →
    (response.isFreshValidForValidNow time = true ↔
      FreshWithin thisUpdate.toInt nextUpdate.toInt time.toInt) ∧
    NothingOverflows thisUpdate.toInt nextUpdate.toInt time.toInt := by
  intro all
  have exactly := all (fun _ => none) (sentWindow "-9223372036854775808" "4611686018427387904")
    (receivedWindow (-9223372036854775808) 4611686018427387904) 1000 _ _ (by rfl) rfl (by decide)
    (by decide) rfl rfl
  have fresh := exactly.1.mp (by decide +kernel)
  exact absurd fresh.2.2.2 (by decide)

end StatusResponse

end ZManager.Identity
