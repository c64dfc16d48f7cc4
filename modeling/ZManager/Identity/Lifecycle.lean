import ZManager.Identity.Enrollment

/-! # The saves of a renewal

A renewal loads the inventory twice, edits the rows that it is about, and hands
the result to the store: first its predecessor waits and the request is in the
journal, then the predecessor is replaced by the record of the answer.
-/

namespace ZManager.Identity

/-- Whether a renewal may change the key. -/
inductive RenewalPolicy where
  | sameKeyRequired
  | keyRotationAllowed
  deriving DecidableEq

def RenewalPolicy.asStr : RenewalPolicy → Text
  | .sameKeyRequired => "same_key_required".toList
  | .keyRotationAllowed => "key_rotation_allowed".toList

/-- What is to be renewed. -/
structure RenewalRequest where
  previousCertificateId : Text
  previousCertificateSha256 : Text
  orgId : Option Text
  requestedValiditySeconds : Nat
  renewalPolicy : RenewalPolicy
  nowUnixSeconds : Nat
  serverGraceSeconds : Nat

/-- Failures of an enrollment or renewal. -/
inductive LifecycleError where
  | certificateNotFound
  | renewalTargetMismatch
  | certificateNotRenewable
  | certificateOperationPending
  | enrollment (reason : EnrollmentError)
  | store (reason : StoreError)

/-- An enrollment error inside a lifecycle step. -/
def fromEnrollment {α : Type} : Except EnrollmentError α → Except LifecycleError α
  | .ok value => .ok value
  | .error reason => .error (.enrollment reason)

/-- A certificate answer as it leaves the parser. -/
def ReceivedPayload : Type := { payload : CertificatePayload // payload.Parsed }

/-- A renewal as it is called: the request, both keys and the certificate request. The
operation id is the one generated for its journal entry. -/
structure RenewalCall where
  request : RenewalRequest
  newSigningKey : DeviceSigningKey
  previousSigningKey : DeviceSigningKey
  csrDer : List UInt8
  operationId : Text
  createdAtUnixSeconds : Nat

/-! ## The edits -/

namespace EnrolledCertificate

def hasId (certificateId : Text) (certificate : EnrolledCertificate) : Bool :=
  certificate.certificateId == certificateId

/-- The row that a renewal request names by id and by hash. -/
def isNamed (request : RenewalRequest) (certificate : EnrolledCertificate) : Bool :=
  certificate.certificateId == request.previousCertificateId &&
    certificate.certificateSha256 == request.previousCertificateSha256

/-- The first selected row gets the state; none is selected when there is none. -/
def setFirst (selects : EnrolledCertificate → Bool) (state : LocalCertificateState) :
    List EnrolledCertificate → Option (List EnrolledCertificate)
  | [] => none
  | certificate :: rest =>
    if selects certificate then some ({ certificate with state := state } :: rest)
    else (setFirst selects state rest).map (certificate :: ·)

end EnrolledCertificate

open EnrolledCertificate

/-- A row edit that is refused when no row is selected. -/
def editFirst (inventory : Inventory) (selects : EnrolledCertificate → Bool)
    (state : LocalCertificateState) : Except LifecycleError (List EnrolledCertificate) :=
  match setFirst selects state inventory.enrolledCertificates with
  | none => .error .certificateNotFound
  | some certificates => .ok certificates

def matchesReplacementScope (metadata : CertificatePublicMetadata)
    (predecessor : EnrolledCertificate) : Bool :=
  metadata.publicDeviceId == predecessor.publicMetadata.publicDeviceId &&
    metadata.publicSignerId == predecessor.publicMetadata.publicSignerId &&
    metadata.publicOrgId == predecessor.publicMetadata.publicOrgId

/-- A request for an organization is about a certificate of that organization. -/
def scopeMatches (orgId : Option Text) (routing : SignDeviceRouting) : Bool :=
  match orgId, routing with
  | none, .personal => true
  | some org, .organization orgId _ => org == orgId
  | _, _ => false

def renewalGraceMaxSeconds : Nat := 30 * 24 * 60 * 60

/-- The named certificate may be renewed now. -/
def renewable (primitives : Primitives) (inventory : Inventory) (request : RenewalRequest)
    (certificate : EnrolledCertificate) : Except LifecycleError Unit :=
  if !scopeMatches request.orgId certificate.signDeviceRouting then .error .renewalTargetMismatch
  else if certificate.issuerCertificateSha256 ∈ inventory.emergencyBlocklist.blockedIssuerSha256 ||
      (certificate.intermediateChainDer.getLast?.any fun root =>
        sha256Identifier primitives root ∈ inventory.emergencyBlocklist.blockedRootSha256) then
    .error .certificateNotRenewable
  else if certificate.state ≠ .active || request.nowUnixSeconds < certificate.notBeforeUnixSeconds then
    .error .certificateNotRenewable
  else if request.nowUnixSeconds > min (certificate.notAfterUnixSeconds +
      min request.serverGraceSeconds renewalGraceMaxSeconds) (2 ^ 64 - 1) then
    .error .certificateNotRenewable
  else .ok ()

/-- The checks before a renewal is requested. -/
def precheckRenewal (primitives : Primitives) (inventory : Inventory) (request : RenewalRequest) :
    Except LifecycleError Unit :=
  match inventory.enrolledCertificates.find? (isNamed request) with
  | none => .error .certificateNotFound
  | some certificate => renewable primitives inventory request certificate

/-- The first row with the id of the predecessor; the hash is not compared here. -/
def predecessorById (inventory : Inventory) (request : RenewalRequest) :
    Except LifecycleError EnrolledCertificate :=
  match inventory.enrolledCertificates.find? (hasId request.previousCertificateId) with
  | none => .error .certificateNotFound
  | some certificate => .ok certificate

section

variable (primitives : CertificatePrimitives)

def RenewalCall.operation (call : RenewalCall) : PendingCertificateOperation where
  operationId := call.operationId
  kind := .renewal
  signingKeyId := call.newSigningKey.keyId
  publicKeyFingerprint := call.newSigningKey.publicKeyFingerprint
  csrSha256 := sha256Identifier primitives.toPrimitives call.csrDer
  csrDer := some call.csrDer
  orgId := call.request.orgId
  requestedValiditySeconds := call.request.requestedValiditySeconds
  createdAtUnixSeconds := call.createdAtUnixSeconds
  previousSigningKeyId := some call.previousSigningKey.keyId
  renewalPolicy := some call.request.renewalPolicy.asStr
  predecessorCertificateId := some call.request.previousCertificateId
  predecessorCertificateSha256 := some call.request.previousCertificateSha256

/-- What is checked of the predecessor before a renewal is requested. -/
def RenewalCall.checkPredecessor (call : RenewalCall) (predecessor : EnrolledCertificate) :
    Except LifecycleError Unit :=
  if predecessor.signingKeyId ≠ call.previousSigningKey.keyId ||
      (call.request.renewalPolicy = .sameKeyRequired &&
        call.previousSigningKey.publicKeyFingerprint ≠ call.newSigningKey.publicKeyFingerprint) then
    .error .renewalTargetMismatch
  else .ok ()

/-- The first save of `renew_certificate`: the predecessor waits, and the request is
in the journal. -/
def RenewalCall.journal (call : RenewalCall) (inventory : Inventory) :
    Except LifecycleError Inventory := do
  fromEnrollment (validateSigningKeyAndCsr primitives call.newSigningKey call.csrDer)
  precheckRenewal primitives.toPrimitives inventory call.request
  fromEnrollment (validateStoredSigningKey primitives inventory call.previousSigningKey)
  fromEnrollment (validateStoredSigningKey primitives inventory call.newSigningKey)
  let predecessor ← predecessorById inventory call.request
  call.checkPredecessor predecessor
  let certificates ← editFirst inventory (isNamed call.request) .renewalPending
  return { inventory with
    enrolledCertificates := certificates
    pendingCertificateOperations :=
      inventory.pendingCertificateOperations ++ [call.operation primitives] }

/-- The store keeps an inventory only when it validates. -/
def savedInventory (inventory : Inventory) : Except LifecycleError Unit :=
  match inventory.validate primitives.toPrimitives with
  | .error reason => .error (.store reason)
  | .ok _ => .ok ()

variable (validator : List (List UInt8) →
  Except EnrollmentError (List (List UInt8) × CertificatePublicMetadata))

/-- An answer that replaces the predecessor, as a record. -/
def acceptReplacement (request : RenewalRequest) (signingKey : DeviceSigningKey)
    (predecessor : EnrolledCertificate) (payload : CertificatePayload) (nowUnixSeconds : Nat) :
    Except LifecycleError EnrolledCertificate := do
  let checked ← fromEnrollment
    (validateForKey primitives validator payload signingKey nowUnixSeconds)
  if !matchesReplacementScope checked.2 predecessor ||
      (request.renewalPolicy = .sameKeyRequired &&
        checked.1.signDeviceId ≠ predecessor.signDeviceId) then
    .error .renewalTargetMismatch
  else fromEnrollment (intoStoreRecord checked.1 request.orgId signingKey.keyId checked.2)

/-- The second save of `renew_certificate`, on the inventory that the first one stored. -/
def RenewalCall.commit (call : RenewalCall) (answer : ReceivedPayload) (nowUnixSeconds : Nat)
    (inventory : Inventory) : Except LifecycleError Inventory := do
  let journaled ← call.journal primitives inventory
  savedInventory primitives journaled
  let predecessor ← predecessorById inventory call.request
  let record ← acceptReplacement primitives validator call.request call.newSigningKey predecessor
    answer.val nowUnixSeconds
  let certificates ← editFirst journaled (hasId call.request.previousCertificateId) .revoked
  return { journaled with
    enrolledCertificates := certificates ++ [record]
    pendingCertificateOperations := journaled.pendingCertificateOperations.filter fun operation =>
      operation.operationId != call.operationId }

end

theorem fromEnrollment_eq_ok {α : Type} {result : Except EnrollmentError α} {value : α} :
    fromEnrollment result = .ok value ↔ result = .ok value := by
  cases result <;> simp [fromEnrollment]

theorem isNamed_iff {request : RenewalRequest} {certificate : EnrolledCertificate} :
    certificate.isNamed request = true ↔
      certificate.certificateId = request.previousCertificateId ∧
      certificate.certificateSha256 = request.previousCertificateSha256 := by
  simp [isNamed]

end ZManager.Identity
