import ZManager.Identity.Catalog

/-! # Verdicts from an online status

Contacts, documents and archives are judged by the same status of their
certificate, each with its own cases. `online_verdicts_agree_iff` says when the
three verdicts go together and fail closed: the archive verdict treats a revoked
or suspended issuer like a status that could not be had.
-/

namespace ZManager.Identity

/-- Times are seconds since 1970; sums wrap around as those of `i64` do. -/
abbrev UnixSeconds := Int64

def statusFreshnessSkewSeconds : UnixSeconds := 5 * 60

def maxPositiveStatusWindowSeconds : UnixSeconds := 24 * 60 * 60

/-- Why a response is refused. -/
inductive StatusClientError where
  | invalidField (field : String)

/-- The query that a response repeats. -/
structure StatusQueryEcho where
  certificateSha256 : Option Text
  issuerCertificateSha256 : Option Text
  serialNumber : Option Text
  deriving DecidableEq

/-- The response on the status of a certificate. -/
structure StatusResponse where
  status : CertificateStatus
  certificateSha256 : Option Text
  issuerCertificateSha256 : Option Text
  issuerKeyIdentifier : Option Text
  serialNumber : Option Text
  notBefore : Option UnixSeconds
  notAfter : Option UnixSeconds
  thisUpdate : Option UnixSeconds
  nextUpdate : Option UnixSeconds
  revokedAt : Option UnixSeconds
  revocationReason : Option Text
  revocationCategory : Option Text
  query : StatusQueryEcho

/-! ## Reading a status -/

/-- `Value::as_i64`: an integer literal in range. The literal `-0` is a float. -/
def Json.asI64 : Json → Option UnixSeconds
  | .number ('-' :: digits) =>
    if digits ≠ [] ∧ digits.all Char.isDigit ∧ 0 < Nat.ofDigitChars 10 digits 0 ∧
        Nat.ofDigitChars 10 digits 0 ≤ 2 ^ 63 then
      some (Int64.ofInt (-(Nat.ofDigitChars 10 digits 0 : Int)))
    else none
  | .number digits =>
    if digits ≠ [] ∧ digits.all Char.isDigit ∧ Nat.ofDigitChars 10 digits 0 < 2 ^ 63 then
      some (Int64.ofInt (Nat.ofDigitChars 10 digits 0))
    else none
  | _ => none

/-- A text that is there and not empty. -/
def nonEmptyStr (field : String) (value : Json) : Except StatusClientError Text :=
  match value.asStr.filter (!·.isEmpty) with
  | some text => .ok text
  | none => .error (.invalidField field)

def requiredString (object : Json) (field : String) : Except StatusClientError Text :=
  match object.get field.toList with
  | some value => nonEmptyStr field value
  | none => .error (.invalidField field)

def optionalString (object : Json) (field : String) :
    Except StatusClientError (Option Text) :=
  match object.get field.toList with
  | none => .ok none
  | some value => (nonEmptyStr field value).map some

/-- A time as a number under one name, or as an RFC 3339 text under another. -/
def optionalUnixOrRfc3339 (parseRfc3339 : Text → Option UnixSeconds) (object : Json)
    (unixField rfc3339Field errorField : String) :
    Except StatusClientError (Option UnixSeconds) :=
  match object.get unixField.toList, object.get rfc3339Field.toList with
  | some value, _ =>
    match value.asI64 with
    | some time => .ok (some time)
    | none => .error (.invalidField unixField)
  | none, none => .ok none
  | none, some value => do
      let text ← nonEmptyStr errorField value
      match parseRfc3339 text with
      | some time => .ok (some time)
      | none => .error (.invalidField errorField)

def parseQueryEcho (object : Json) : Except StatusClientError StatusQueryEcho :=
  match object.get "query".toList with
  | none => .ok ⟨none, none, none⟩
  | some query =>
    if query.isObject then do
      return {
        certificateSha256 := ← optionalString query "certificate_sha256"
        issuerCertificateSha256 := ← optionalString query "issuer_certificate_sha256"
        serialNumber := ← optionalString query "serial_number" }
    else .error (.invalidField "object")

def requireSome {α : Type} (value : Option α) (field : String) : Except StatusClientError Unit :=
  if value.isSome then .ok () else .error (.invalidField field)

namespace StatusResponse

/-- A status of a known certificate names it and its times. -/
def validateLeafFields (response : StatusResponse) : Except StatusClientError Unit := do
  requireSome response.certificateSha256 "certificate_sha256"
  requireSome response.issuerCertificateSha256 "issuer_certificate_sha256"
  requireSome response.issuerKeyIdentifier "issuer_key_identifier"
  requireSome response.serialNumber "serial_number"
  requireSome response.notBefore "not_before_unix_seconds"
  requireSome response.notAfter "not_after_unix_seconds"
  requireSome response.thisUpdate "this_update_unix_seconds"
  requireSome response.nextUpdate "next_update_unix_seconds"

/-- A status of no certificate names none, and repeats what was asked. -/
def validateUnknownLeaf (response : StatusResponse) : Except StatusClientError Unit := do
  requireSome response.thisUpdate "this_update_unix_seconds"
  requireSome response.nextUpdate "next_update_unix_seconds"
  if response.certificateSha256.isSome ∨ response.issuerCertificateSha256.isSome ∨
      response.issuerKeyIdentifier.isSome ∨ response.serialNumber.isSome then
    .error (.invalidField "unknown_leaf_fields")
  else if response.query.certificateSha256.isNone ∧
      response.query.issuerCertificateSha256.isNone then
    .error (.invalidField "query")
  else .ok ()

def validateShape (response : StatusResponse) : Except StatusClientError Unit :=
  match response.status with
  | .valid | .expired | .notYetValid | .suspended | .issuerSuspended | .issuerRevoked =>
    response.validateLeafFields
  | .revoked => do
      response.validateLeafFields
      requireSome response.revokedAt "revoked_at_unix_seconds"
      requireSome response.revocationReason "revocation_reason"
  | .unknownCertificate | .unknownIssuer | .malformedLookup | .unsupportedLookupForm =>
    response.validateUnknownLeaf

def fromJsonValue (parseRfc3339 : Text → Option UnixSeconds) (value : Json) :
    Except StatusClientError StatusResponse := do
  if !value.isObject then
    throw (.invalidField "object")
  let name ← requiredString value "status"
  let some status := CertificateStatus.parse name | throw (.invalidField "status")
  let query ← parseQueryEcho value
  let time := fun unixField rfc3339Field =>
    optionalUnixOrRfc3339 parseRfc3339 value unixField rfc3339Field unixField
  let response : StatusResponse := {
    status
    certificateSha256 := ← optionalString value "certificate_sha256"
    issuerCertificateSha256 := ← optionalString value "issuer_certificate_sha256"
    issuerKeyIdentifier := ← optionalString value "issuer_key_identifier"
    serialNumber := ← optionalString value "serial_number"
    notBefore := ← time "not_before_unix_seconds" "not_before"
    notAfter := ← time "not_after_unix_seconds" "not_after"
    thisUpdate := ← time "this_update_unix_seconds" "this_update"
    nextUpdate := ← time "next_update_unix_seconds" "next_update"
    revokedAt := ← time "revoked_at_unix_seconds" "revoked_at"
    revocationReason := ← optionalString value "revocation_reason"
    revocationCategory := ← optionalString value "revocation_category"
    query }
  response.validateShape
  return response

/-- A `valid` status whose window is short and holds the verifier's time. -/
def isFreshValidForValidNow (response : StatusResponse) (verifierTime : UnixSeconds) : Bool :=
  match response.status, response.thisUpdate, response.nextUpdate with
  | .valid, some thisUpdate, some nextUpdate =>
    thisUpdate ≤ verifierTime + statusFreshnessSkewSeconds &&
      verifierTime - statusFreshnessSkewSeconds < nextUpdate && thisUpdate < nextUpdate &&
      nextUpdate - thisUpdate ≤ maxPositiveStatusWindowSeconds
  | _, _, _ => false

end StatusResponse

/-! ## The verdict on a contact -/

/-- What becomes of a contact. -/
inductive ContactStatusDisposition where
  | verifiedNow
  | verifiedOffline
  | blocked
  deriving DecidableEq

/-- The decision on a contact. -/
structure ContactStatusDecision where
  disposition : ContactStatusDisposition
  verificationState : Text
  missingStatusCaveat : Bool

def blockedContact (verificationState : String) : ContactStatusDecision :=
  ⟨.blocked, verificationState.toList, false⟩

def offlineContact : ContactStatusDecision :=
  ⟨.verifiedOffline, "cryptographically_intact_offline".toList, true⟩

/-- The states that an offline check of a contact card passes with. -/
def passesOffline (verificationState : Text) : Bool :=
  verificationState = VerificationState.asStr .validNow ||
    verificationState = VerificationState.asStr .validAtTrustedTime ||
    verificationState = VerificationState.asStr .cryptographicallyIntactOffline

/-- What a response makes of a contact. -/
def classifyContactStatus (offlineVerificationState : Text) (certificateNotAfter : Option Nat)
    (expectedCertificateSha256 : Text) (response : Option StatusResponse)
    (verifierTime : UnixSeconds) : ContactStatusDecision :=
  if certificateNotAfter.any (· ≤ (max verifierTime.toInt 0).toNat) then
    blockedContact "status_expired"
  else if !passesOffline offlineVerificationState then blockedContact "invalid"
  else
    match response with
    | none => offlineContact
    | some response =>
      if response.certificateSha256 ≠ some expectedCertificateSha256 then
        blockedContact "status_mismatch"
      else
        match response.status with
        | .valid =>
          if response.isFreshValidForValidNow verifierTime then
            ⟨.verifiedNow, VerificationState.asStr .validNow, false⟩
          else offlineContact
        | .revoked | .issuerRevoked => blockedContact "status_revoked"
        | .suspended | .issuerSuspended => blockedContact "status_suspended"
        | .expired | .notYetValid => blockedContact "status_expired"
        | .unknownCertificate | .unknownIssuer | .malformedLookup | .unsupportedLookupForm =>
          blockedContact "status_unavailable"

/-! ## The verdict on a document -/

/-- The certificate that signed a document. -/
structure DocumentStatusTarget where
  certificateSha256 : Text
  issuerCertificateSha256 : Text
  issuerKeyIdentifier : Text
  serialNumber : Text

/-- The result on a document. -/
structure DocumentVerificationResult where
  state : VerificationState
  trustAnchorType : TrustAnchorType
  reason : Option Text
  rootCertificateSha256 : Option Text
  publicMetadata : Option CertificatePublicMetadata

def statusMatchesDocument (expected : DocumentStatusTarget) (response : StatusResponse) : Bool :=
  let leafFieldsMatch := response.certificateSha256 = some expected.certificateSha256 ∧
    response.issuerCertificateSha256 = some expected.issuerCertificateSha256 ∧
    response.issuerKeyIdentifier = some expected.issuerKeyIdentifier ∧
    response.serialNumber = some expected.serialNumber
  let queryMatches := response.query = ⟨none, none, none⟩ ∨
    response.query.certificateSha256 = some expected.certificateSha256 ∨
    (response.query.issuerCertificateSha256 = some expected.issuerCertificateSha256 ∧
      response.query.serialNumber = some expected.serialNumber)
  decide (leafFieldsMatch ∧ queryMatches)

def onlineVerificationResultFromStatus (offline : DocumentVerificationResult)
    (expected : DocumentStatusTarget) (response : StatusResponse) (verifierTime : UnixSeconds) :
    DocumentVerificationResult :=
  if offline.state ≠ .cryptographicallyIntactOffline ∨ offline.trustAnchorType = .untrusted then
    { offline with
      state := .invalid
      reason := some (offline.reason.getD
        "offline verification did not establish a valid state".toList) }
  else if !statusMatchesDocument expected response then
    { offline with
      state := .invalid
      reason := some "online status does not match the document".toList }
  else if !response.isFreshValidForValidNow verifierTime then
    { offline with
      state := .invalid
      reason := some ("online status is ".toList ++ response.status.asStr) }
  else { offline with state := .validNow, reason := none }

/-! ## The verdict on an archive -/

/-- The check of an archive's signature. -/
inductive ArchiveSignatureCheck where
  | ok
  | absent
  | invalid
  | unsupportedProfile
  | volumesIncomplete
  deriving DecidableEq

/-- The check of an archive's root. -/
inductive ArchiveTrustCheck where
  | productionRoot
  | stagingRoot
  | untrusted
  deriving DecidableEq

/-- The check of an archive's signing time. -/
inductive ArchiveTimeCheck where
  | validAtSigning
  | expiredSinceSigning
  | expiredAtSigning
  deriving DecidableEq

/-- The check of the signer's status. -/
inductive ArchiveStatusCheck where
  | freshValid
  | beforeRevocation (revokedAt : UnixSeconds) (reason : Option Text)
  | revoked (revokedAt : UnixSeconds) (reason : Option Text)
  | suspended
  | unavailable (reason : Option Text)
  deriving DecidableEq

/-- The outcome for an archive. -/
inductive ArchiveVerificationOutcome where
  | verified
  | verifiedWithCaveat
  | notSigned
  | unverifiable
  | failed

/-- The checks of an archive. Of its signer only the claimed signing time is used here. -/
structure ArchiveVerification where
  outcome : ArchiveVerificationOutcome
  signature : ArchiveSignatureCheck
  trust : ArchiveTrustCheck
  certificateTime : ArchiveTimeCheck
  status : ArchiveStatusCheck
  signerSignedAt : Option UnixSeconds

/-- The certificate that signed an archive. -/
structure ArchiveStatusTarget where
  certificateSha256 : Text
  issuerKeyIdentifier : Text
  serialNumber : Text
  issuerCertificateSha256 : Option Text

def ArchiveStatusCheck.isTerminal : ArchiveStatusCheck → Bool
  | .revoked _ _ | .suspended => true
  | _ => false

/-- The outcome of the four checks; the first that decides wins. -/
def ArchiveVerificationOutcome.derive (signature : ArchiveSignatureCheck)
    (trust : ArchiveTrustCheck) (time : ArchiveTimeCheck) (status : ArchiveStatusCheck) :
    ArchiveVerificationOutcome :=
  if signature = .absent then .notSigned
  else if signature = .unsupportedProfile ∨ signature = .volumesIncomplete then .unverifiable
  else if signature = .invalid then .failed
  else if trust = .untrusted then .failed
  else if time = .expiredAtSigning then .failed
  else if status.isTerminal then .failed
  else if trust = .productionRoot ∧ time = .validAtSigning ∧ status = .freshValid then .verified
  else .verifiedWithCaveat

def archiveStatusMatches (expected : ArchiveStatusTarget) (response : StatusResponse) : Bool :=
  let leafFieldsMatch := response.certificateSha256 = some expected.certificateSha256 ∧
    response.issuerKeyIdentifier = some expected.issuerKeyIdentifier ∧
    response.serialNumber = some expected.serialNumber ∧
    (expected.issuerCertificateSha256.isSome →
      response.issuerCertificateSha256 = expected.issuerCertificateSha256)
  let queryMatches := match response.query.certificateSha256 with
    | some echoed => echoed = expected.certificateSha256
    | none => response.query.issuerCertificateSha256 = none ∧ response.query.serialNumber = none
  decide leafFieldsMatch && queryMatches

def renewalRevocationReason : Text := "renewed".toList

def renewalRevocationCategory : Text := "supersession".toList

/-- Where a revocation lies to the signing. -/
inductive ArchiveRevocationOutcome where
  | beforeRevocation
  | revoked

/-- Only a renewal leaves earlier signatures valid. -/
def classifyArchiveRevocation (revocationReason revocationCategory : Option Text)
    (revokedAt signedAt : UnixSeconds) : ArchiveRevocationOutcome :=
  let isSupersession : Bool := match revocationCategory with
    | some category => category = renewalRevocationCategory
    | none => revocationReason = some renewalRevocationReason
  if isSupersession ∧ signedAt < revokedAt then .beforeRevocation else .revoked

/-- The status check that a matching status stands for. -/
def archiveStatusCheck (offline : ArchiveVerification) (response : StatusResponse)
    (verifierTime : UnixSeconds) : ArchiveStatusCheck :=
  let unavailable := .unavailable (some ("online status is ".toList ++ response.status.asStr))
  match response.status with
  | .valid => if response.isFreshValidForValidNow verifierTime then .freshValid else unavailable
  | .revoked =>
    let revokedAt := response.revokedAt.getD 0
    match classifyArchiveRevocation response.revocationReason response.revocationCategory
        revokedAt (offline.signerSignedAt.getD 0) with
    | .beforeRevocation => .beforeRevocation revokedAt response.revocationReason
    | .revoked => .revoked revokedAt response.revocationReason
  | .suspended => .suspended
  | _ => unavailable

def composeArchiveVerificationWithStatus (offline : ArchiveVerification)
    (expected : ArchiveStatusTarget) (response : StatusResponse) (verifierTime : UnixSeconds) :
    ArchiveVerification :=
  if offline.signature ≠ .ok then offline
  else
    let status :=
      if archiveStatusMatches expected response then
        archiveStatusCheck offline response verifierTime
      else .unavailable (some "online status does not match archive leaf certificate".toList)
    { offline with
      status
      outcome := .derive offline.signature offline.trust offline.certificateTime status }

/-! ## The three verdicts together -/

/-- What one certificate is judged for: a contact with its card, a document and
an archive, each with the outcome of its offline check. -/
structure StatusSubject where
  contactState : Text
  contactNotAfter : Option Nat
  contactCertificateSha256 : Text
  document : DocumentVerificationResult
  documentTarget : DocumentStatusTarget
  archive : ArchiveVerification
  archiveTarget : ArchiveStatusTarget

namespace StatusSubject

variable (subject : StatusSubject) (response : StatusResponse) (time : UnixSeconds)

/-- Every offline check passed, and the certificate has not expired. -/
structure Positive : Prop where
  contact : passesOffline subject.contactState = true
  notExpired : ∀ notAfter, subject.contactNotAfter = some notAfter → time.toInt < notAfter
  document : subject.document.state = .cryptographicallyIntactOffline
  anchored : subject.document.trustAnchorType ≠ .untrusted
  signature : subject.archive.signature = .ok
  trusted : subject.archive.trust ≠ .untrusted
  inTime : subject.archive.certificateTime ≠ .expiredAtSigning

/-- The status is one of the certificate. -/
structure Matches : Prop where
  contact : response.certificateSha256 = some subject.contactCertificateSha256
  document : statusMatchesDocument subject.documentTarget response = true
  archive : archiveStatusMatches subject.archiveTarget response = true

/-- The verdict on a contact. -/
def contactVerdict : ContactStatusDecision :=
  classifyContactStatus subject.contactState subject.contactNotAfter
    subject.contactCertificateSha256 (some response) time

/-- The verdict on a document. -/
def documentVerdict : DocumentVerificationResult :=
  onlineVerificationResultFromStatus subject.document subject.documentTarget response time

/-- The verdict on an archive. -/
def archiveVerdict : ArchiveVerification :=
  composeArchiveVerificationWithStatus subject.archive subject.archiveTarget response time

/-- The archive was signed before its certificate was replaced by a renewal. -/
def SignedBeforeRenewal : Prop :=
  response.status = .revoked ∧
    (∃ revokedAt, response.revokedAt = some revokedAt ∧
      subject.archive.signerSignedAt.getD 0 < revokedAt) ∧
    match response.revocationCategory with
    | some category => category = "supersession".toList
    | none => response.revocationReason = some "renewed".toList

/-- A status that takes the certificate or its issuer out of use. -/
def TakesOutOfUse (status : CertificateStatus) : Prop :=
  status = .revoked ∨ status = .suspended ∨ status = .issuerRevoked ∨ status = .issuerSuspended

/-- The verdicts are positive together, and a certificate taken out of use is
refused by each, but for an archive signed before a renewal. -/
def VerdictsAgree : Prop :=
  ((subject.contactVerdict response time).disposition = .verifiedNow ↔
      (subject.documentVerdict response time).state = .validNow) ∧
    ((subject.documentVerdict response time).state = .validNow ↔
      (subject.archiveVerdict response time).status = .freshValid) ∧
    (TakesOutOfUse response.status →
      (subject.contactVerdict response time).disposition = .blocked ∧
        (subject.documentVerdict response time).state = .invalid ∧
        ((subject.archiveVerdict response time).outcome = .failed ↔
          ¬subject.SignedBeforeRenewal response))

end StatusSubject

/-! ## Each verdict by itself -/

/-- An accepted status has the shape that its kind asks for. -/
theorem StatusResponse.validateShape_of_fromJsonValue {parseRfc3339 : Text → Option UnixSeconds}
    {value : Json} {response : StatusResponse}
    (accepted : fromJsonValue parseRfc3339 value = .ok response) :
    response.validateShape = .ok () := by
  unfold fromJsonValue at accepted
  split_ifs at accepted
  · cases accepted
  obtain ⟨name, -, accepted⟩ := Except.bind_eq_ok_iff.mp accepted
  cases parsed : CertificateStatus.parse name with
  | none =>
    rw [parsed] at accepted
    cases accepted
  | some status =>
    rw [parsed] at accepted
    simp only [Except.bind_eq_ok_iff] at accepted
    obtain ⟨_, -, _, -, _, -, _, -, _, -, _, -, _, -, _, -, _, -, _, -, _, -, _, -, ⟨⟩, shaped,
      same⟩ := accepted
    cases same
    exact shaped

/-- Only a `valid` status is fresh. -/
theorem StatusResponse.status_of_isFresh {response : StatusResponse} {time : UnixSeconds}
    (fresh : response.isFreshValidForValidNow time = true) : response.status = .valid := by
  unfold isFreshValidForValidNow at fresh
  split at fresh
  · assumption
  · cases fresh

/-- A status accepted as revoked says when. -/
theorem StatusResponse.revokedAt_of_validateShape {response : StatusResponse}
    (shaped : response.validateShape = .ok ()) (revoked : response.status = .revoked) :
    ∃ revokedAt, response.revokedAt = some revokedAt := by
  unfold validateShape at shaped
  rw [revoked] at shaped
  obtain ⟨_, -, shaped⟩ := Except.bind_eq_ok_iff.mp shaped
  obtain ⟨_, dated, -⟩ := Except.bind_eq_ok_iff.mp shaped
  unfold requireSome at dated
  split_ifs at dated with present
  exact Option.isSome_iff_exists.mp present

namespace StatusSubject

variable {subject : StatusSubject} {response : StatusResponse} {time : UnixSeconds}

section

variable (positive : subject.Positive time)
include positive

/-- The clock of the contact check stops at zero, so that before 1970 a
certificate that expires at zero has expired. -/
theorem contact_expired_iff :
    subject.contactNotAfter.any (· ≤ (max time.toInt 0).toNat) = true ↔
      time < 0 ∧ subject.contactNotAfter = some 0 := by
  have later := positive.notExpired
  have early : time < 0 ↔ time.toInt < 0 := Int64.lt_iff_toInt_lt
  rw [early]
  cases expires : subject.contactNotAfter with
  | none => simp
  | some notAfter =>
    have current := later notAfter expires
    simp only [Option.any_some, decide_eq_true_eq, Option.some.injEq]
    omega

/-- The contact verdict, where the contact's check has not expired. -/
theorem contactVerdict_eq (found : subject.Matches response)
    (current : ¬(time < 0 ∧ subject.contactNotAfter = some 0)) :
    (subject.contactVerdict response time).disposition =
      match response.status with
      | .valid =>
        if response.isFreshValidForValidNow time then .verifiedNow else .verifiedOffline
      | _ => .blocked := by
  rw [← contact_expired_iff positive] at current
  unfold contactVerdict classifyContactStatus
  rw [if_neg current, positive.contact, if_neg (by decide)]
  dsimp only
  rw [if_neg (not_not_intro found.contact)]
  cases response.status with
  | valid =>
    dsimp only
    split_ifs <;> rfl
  | _ => rfl

theorem contactVerdict_of_expired (expired : time < 0 ∧ subject.contactNotAfter = some 0) :
    (subject.contactVerdict response time).disposition = .blocked := by
  rw [← contact_expired_iff positive] at expired
  unfold contactVerdict classifyContactStatus
  rw [if_pos expired]
  rfl

/-- The document verdict is positive exactly for a fresh status. -/
theorem documentVerdict_state (found : subject.Matches response) :
    (subject.documentVerdict response time).state =
      if response.isFreshValidForValidNow time then .validNow else .invalid := by
  have passed : ¬(subject.document.state ≠ .cryptographicallyIntactOffline ∨
      subject.document.trustAnchorType = .untrusted) := by
    rw [not_or, not_not]
    exact ⟨positive.document, positive.anchored⟩
  unfold documentVerdict onlineVerificationResultFromStatus
  rw [if_neg passed, found.document, if_neg (by decide)]
  cases response.isFreshValidForValidNow time <;> rfl

/-- A matching status is put in, and the outcome derived from it. -/
theorem archiveVerdict_eq (found : subject.Matches response) :
    subject.archiveVerdict response time = { subject.archive with
      status := archiveStatusCheck subject.archive response time
      outcome := .derive subject.archive.signature subject.archive.trust
        subject.archive.certificateTime (archiveStatusCheck subject.archive response time) } := by
  unfold archiveVerdict composeArchiveVerificationWithStatus
  rw [if_neg (not_not_intro positive.signature), found.archive]
  rfl

end

theorem archiveStatusCheck_eq_freshValid : archiveStatusCheck subject.archive response time =
    .freshValid ↔ response.isFreshValidForValidNow time = true := by
  constructor
  · intro fresh
    unfold archiveStatusCheck at fresh
    dsimp only at fresh
    split at fresh
    · split_ifs at fresh with inWindow
      exact inWindow
    · split at fresh
      · cases fresh
      · cases fresh
    · cases fresh
    · cases fresh
  · intro fresh
    unfold archiveStatusCheck
    rw [StatusResponse.status_of_isFresh fresh]
    dsimp only
    rw [if_pos fresh]

/-- After positive offline checks only a terminal status fails the archive. -/
theorem archive_failed_iff (positive : subject.Positive time) (found : subject.Matches response) :
    (subject.archiveVerdict response time).outcome = .failed ↔
      (archiveStatusCheck subject.archive response time).isTerminal = true := by
  rw [archiveVerdict_eq positive found]
  dsimp only
  unfold ArchiveVerificationOutcome.derive
  rw [positive.signature, if_neg (by decide), if_neg (by decide), if_neg (by decide),
    if_neg positive.trusted, if_neg positive.inTime]
  split_ifs with terminal caveat
  · exact iff_of_true rfl terminal
  · exact iff_of_false (by decide) terminal
  · exact iff_of_false (by decide) terminal

/-- A revoked certificate fails its archives but for those signed before a renewal. -/
theorem archive_terminal_of_revoked (shaped : response.validateShape = .ok ())
    (revoked : response.status = .revoked) :
    (archiveStatusCheck subject.archive response time).isTerminal = true ↔
      ¬subject.SignedBeforeRenewal response := by
  obtain ⟨revokedAt, dated⟩ := StatusResponse.revokedAt_of_validateShape shaped revoked
  unfold archiveStatusCheck classifyArchiveRevocation SignedBeforeRenewal
  rw [revoked, dated]
  simp only [Option.getD_some, Option.some.injEq, exists_eq_left', true_and]
  cases response.revocationCategory with
  | none =>
    simp only [decide_eq_true_eq]
    split_ifs with superseded
    · exact iff_of_false Bool.false_ne_true (not_not_intro ⟨superseded.2, superseded.1⟩)
    · exact iff_of_true rfl fun before => superseded ⟨before.2, before.1⟩
  | some category =>
    simp only [decide_eq_true_eq]
    split_ifs with superseded
    · exact iff_of_false Bool.false_ne_true (not_not_intro ⟨superseded.2, superseded.1⟩)
    · exact iff_of_true rfl fun before => superseded ⟨before.2, before.1⟩

/-- **Online verdicts.** For an accepted status of a certificate whose offline
checks all passed, the three verdicts agree and fail closed exactly where the
issuer is neither revoked nor suspended, and no fresh status is used before 1970
for a certificate that expires at zero. -/
theorem online_verdicts_agree_iff {parseRfc3339 : Text → Option UnixSeconds} {value : Json}
    (accepted : StatusResponse.fromJsonValue parseRfc3339 value = .ok response)
    (positive : subject.Positive time) (found : subject.Matches response) :
    subject.VerdictsAgree response time ↔
      (response.status ≠ .issuerRevoked ∧ response.status ≠ .issuerSuspended) ∧
        ¬(time < 0 ∧ subject.contactNotAfter = some 0 ∧
          response.isFreshValidForValidNow time = true) := by
  have shaped := StatusResponse.validateShape_of_fromJsonValue accepted
  have archive := archive_failed_iff positive found
  have document := documentVerdict_state positive found
  have fresh : (subject.archiveVerdict response time).status = .freshValid ↔
      response.isFreshValidForValidNow time = true := by
    rw [archiveVerdict_eq positive found]
    exact archiveStatusCheck_eq_freshValid
  have documentFresh : (subject.documentVerdict response time).state = .validNow ↔
      response.isFreshValidForValidNow time = true := by
    rw [document]
    cases response.isFreshValidForValidNow time <;> simp
  unfold VerdictsAgree
  constructor
  · rintro ⟨together, -, closed⟩
    have issuer : ∀ status, status = .issuerRevoked ∨ status = .issuerSuspended →
        response.status ≠ status := by
      intro status either same
      have out : TakesOutOfUse response.status := by
        rw [same]
        exact .inr (.inr either)
      have unrevoked : ¬subject.SignedBeforeRenewal response := by
        rintro ⟨revoked, -⟩
        rw [same] at revoked
        rcases either with rfl | rfl <;> cases revoked
      have terminal := archive.mp ((closed out).2.2.mpr unrevoked)
      unfold archiveStatusCheck at terminal
      rw [same] at terminal
      rcases either with rfl | rfl <;> cases terminal
    refine ⟨⟨issuer _ (.inl rfl), issuer _ (.inr rfl)⟩, ?_⟩
    rintro ⟨early, zero, inWindow⟩
    have verified := together.mpr (documentFresh.mpr inWindow)
    rw [contactVerdict_of_expired positive ⟨early, zero⟩] at verified
    cases verified
  · rintro ⟨⟨notRevoked, notSuspended⟩, inTime⟩
    refine ⟨?_, documentFresh.trans fresh.symm, ?_⟩
    · rw [documentFresh]
      by_cases expired : time < 0 ∧ subject.contactNotAfter = some 0
      · rw [contactVerdict_of_expired positive expired]
        exact iff_of_false (by decide) fun inWindow => inTime ⟨expired.1, expired.2, inWindow⟩
      · rw [contactVerdict_eq positive found expired]
        cases same : response.isFreshValidForValidNow time with
        | true =>
          rw [StatusResponse.status_of_isFresh same]
          simp
        | false => cases response.status <;> simp
    · intro out
      have stale : response.isFreshValidForValidNow time = false := by
        by_contra inWindow
        rw [Bool.not_eq_false] at inWindow
        rw [StatusResponse.status_of_isFresh inWindow] at out
        rcases out with out | out | out | out <;> cases out
      refine ⟨?_, ?_, ?_⟩
      · by_cases expired : time < 0 ∧ subject.contactNotAfter = some 0
        · exact contactVerdict_of_expired positive expired
        · rw [contactVerdict_eq positive found expired]
          rcases out with out | out | out | out <;> rw [out]
      · rw [document, stale]
        rfl
      · rw [archive]
        rcases out with out | out | out | out
        · exact archive_terminal_of_revoked shaped out
        · have unrevoked : ¬subject.SignedBeforeRenewal response := by
            rintro ⟨revoked, -⟩
            rw [out] at revoked
            cases revoked
          refine iff_of_true ?_ unrevoked
          unfold archiveStatusCheck
          rw [out]
          rfl
        · exact absurd out notRevoked
        · exact absurd out notSuspended

/-- A subject whose offline checks passed, for the certificate `c` of the issuer `i`. -/
def passed : StatusSubject where
  contactState := VerificationState.asStr .validNow
  contactNotAfter := some 2000
  contactCertificateSha256 := ['c']
  document := ⟨.cryptographicallyIntactOffline, .officialTzap, none, none, none⟩
  documentTarget := ⟨['c'], ['i'], ['k'], ['1']⟩
  archive := ⟨.verifiedWithCaveat, .ok, .productionRoot, .validAtSigning, .unavailable none,
    some 500⟩
  archiveTarget := ⟨['c'], ['k'], ['1'], none⟩

/-- A status of that certificate as the server sends it. -/
def sent (status : String) : Json :=
  .object [("status".toList, .string status.toList),
    ("certificate_sha256".toList, .string ['c']),
    ("issuer_certificate_sha256".toList, .string ['i']),
    ("issuer_key_identifier".toList, .string ['k']), ("serial_number".toList, .string ['1']),
    ("not_before_unix_seconds".toList, .number "100".toList),
    ("not_after_unix_seconds".toList, .number "2000".toList),
    ("this_update_unix_seconds".toList, .number "900".toList),
    ("next_update_unix_seconds".toList, .number "1800".toList)]

/-- What is read from it. -/
def received (status : CertificateStatus) : StatusResponse where
  status
  certificateSha256 := some ['c']
  issuerCertificateSha256 := some ['i']
  issuerKeyIdentifier := some ['k']
  serialNumber := some ['1']
  notBefore := some 100
  notAfter := some 2000
  thisUpdate := some 900
  nextUpdate := some 1800
  revokedAt := none
  revocationReason := none
  revocationCategory := none
  query := ⟨none, none, none⟩

theorem passed_positive : passed.Positive 1000 where
  contact := by decide +kernel
  notExpired := by
    intro notAfter expires
    cases expires
    decide
  document := rfl
  anchored := by decide
  signature := rfl
  trusted := by decide
  inTime := by decide

theorem passed_matches (status : CertificateStatus) : passed.Matches (received status) where
  contact := rfl
  document := rfl
  archive := rfl

/-- A suspended certificate is refused by all three. -/
theorem suspended_certificate_refused : passed.VerdictsAgree (received .suspended) 1000 :=
  (online_verdicts_agree_iff
    (show StatusResponse.fromJsonValue (fun _ => none) (sent "suspended") =
      .ok (received .suspended) by rfl)
    passed_positive (passed_matches _)).mpr ⟨by decide, by decide⟩

/-- An archive whose issuer was revoked is not refused. -/
theorem revoked_issuer_passes :
    StatusResponse.fromJsonValue (fun _ => none) (sent "issuer_revoked") =
        .ok (received .issuerRevoked) ∧
      passed.Positive 1000 ∧ passed.Matches (received .issuerRevoked) ∧
      (passed.contactVerdict (received .issuerRevoked) 1000).disposition = .blocked ∧
      (passed.archiveVerdict (received .issuerRevoked) 1000).outcome = .verifiedWithCaveat ∧
      ¬passed.VerdictsAgree (received .issuerRevoked) 1000 := by
  refine ⟨rfl, passed_positive, passed_matches _, rfl, rfl, ?_⟩
  rintro ⟨-, -, closed⟩
  have failed := (closed (.inr (.inr (.inl rfl)))).2.2.mpr fun before => nomatch before.1
  cases failed

end StatusSubject

end ZManager.Identity
