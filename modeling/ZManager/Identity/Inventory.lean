import ZManager.Foundation.Step
import ZManager.Foundation.Utf8
import ZManager.Identity.Identifiers

/-! # The local identity inventory

The records of an account: signing and recipient keys, enrolled certificates,
the status cache, the emergency blocklist, contacts with their tombstones, and
the journal of certificate requests whose outcome is not known yet. `validate`
is the check that every store makes before it keeps an inventory.
-/

namespace ZManager.Identity

variable {field : String}

/-- A JSON value; an object has each of its keys once. -/
inductive Json where
  | null
  | bool (value : Bool)
  | number (literal : Text)
  | string (value : Text)
  | array (items : List Json)
  | object (fields : List (Text × Json))

namespace Json

/-- `Value::get` with a key: only an object has fields. -/
def get (key : Text) : Json → Option Json
  | .object fields => fields.lookup key
  | _ => none

/-- `Value::as_str`. -/
def asStr : Json → Option Text
  | .string value => some value
  | _ => none

/-- `Value::is_object`. -/
def isObject : Json → Bool
  | .object _ => true
  | _ => false

end Json

/-- What a store refuses an inventory for. -/
inductive StoreError where
  | invalidField (field : String)
  | duplicateRecord (field : String) (value : Text)
  deriving DecidableEq

/-- The kind of root that a chain ends in. -/
inductive TrustAnchorType where
  | officialTzap
  | custom
  | untrusted
  deriving DecidableEq

/-- The result of checking a contact. -/
inductive VerificationState where
  | validNow
  | validAtTrustedTime
  | cryptographicallyIntactOffline
  | notRecorded
  | invalid
  deriving DecidableEq

/-- The status that the service reports. -/
inductive CertificateStatus where
  | valid
  | revoked
  | expired
  | notYetValid
  | suspended
  | issuerSuspended
  | issuerRevoked
  | unknownCertificate
  | unknownIssuer
  | malformedLookup
  | unsupportedLookupForm
  deriving DecidableEq

/-- How the identity was verified. -/
inductive IdentityAssurance where
  | oauthVerifiedEmail
  | oauthVerifiedProviderAccount
  | orgAdminApprovedDevice
  | enterpriseSsoVerified
  | contractVerified
  deriving DecidableEq

/-- The state of a certificate on this device. -/
inductive LocalCertificateState where
  | active
  | renewalPending
  | revoked
  | suspended
  | expired
  deriving DecidableEq

/-- Whether a certificate is new or renewed. -/
inductive CertificateOperationKind where
  | enrollment
  | renewal

/-- Whom a signing device belongs to. -/
inductive SignDeviceRouting where
  | personal
  | organization (orgId loginOrganizationDeviceId : Text)
  deriving DecidableEq

/-- The hosted account that a key is bound to. -/
structure HostedDeviceBinding where
  ownerUserId : Text
  environment : Text
  authOrigin : Text
  signingOrigin : Text
  orgId : Option Text
  signDeviceId : Option Text
  publicDeviceId : Option Text
  bindingSignature : Option Text
  deriving DecidableEq

/-- A signing key of this device. -/
structure DeviceSigningKey where
  keyId : Text
  publicKeyFingerprint : Text
  privateKeyDer : List UInt8
  createdAtUnixSeconds : Nat
  label : Option Text
  hostedBinding : Option HostedDeviceBinding

/-- A key that archives are encrypted for. -/
structure RecipientEncryptionKey where
  keyId : Text
  algorithm : Text
  publicKeyFingerprint : Text
  publicKeyDer : List UInt8
  privateKeyDer : List UInt8
  createdAtUnixSeconds : Nat
  label : Option Text

/-- What a certificate tells about its holder. -/
structure CertificatePublicMetadata where
  version : Nat
  publicSignerId : Text
  publicOrgId : Option Text
  publicDeviceId : Text
  assuranceLevel : IdentityAssurance
  policyOid : Text
  deriving DecidableEq

/-- A certificate that was issued to this device. -/
structure EnrolledCertificate where
  certificateId : Text
  certificateSha256 : Text
  issuerCertificateSha256 : Text
  issuerKeyIdentifier : Text
  serialNumber : Text
  leafCertificateDer : List UInt8
  intermediateChainDer : List (List UInt8)
  notBeforeUnixSeconds : Nat
  notAfterUnixSeconds : Nat
  renewalGracePeriodDays : Option Nat
  renewalRecommendedWithinDays : Option Nat
  publicMetadata : CertificatePublicMetadata
  signDeviceId : Text
  signDeviceRouting : SignDeviceRouting
  signingKeyId : Text
  state : LocalCertificateState
  deriving DecidableEq

/-- A status that was fetched before. -/
structure CertificateStatusCacheRecord where
  certificateSha256 : Text
  status : CertificateStatus
  thisUpdateUnixSeconds : Nat
  nextUpdateUnixSeconds : Nat

/-- The roots and issuers that are blocked. -/
structure EmergencyBlocklistState where
  blockedRootSha256 : List Text
  blockedIssuerSha256 : List Text
  updatedAtUnixSeconds : Option Nat

/-- An accepted contact. -/
structure ContactRecord where
  contactId : Text
  displayName : Text
  signingCertificateSha256 : Text
  recipientPublicKeyFingerprint : Text
  trustAnchorType : TrustAnchorType
  source : Text
  verificationState : VerificationState
  missingStatusCaveat : Bool
  contactCardPayload : Json
  acceptedAtUnixSeconds : Nat
  localAlias : Option Text
  card : Option Json

/-- The mark that a contact was removed, and when. -/
structure ContactTombstone where
  contactId : Text
  removedAt : Nat

/-- The journal entry of a certificate request whose outcome is not known. -/
structure PendingCertificateOperation where
  operationId : Text
  kind : CertificateOperationKind
  signingKeyId : Text
  publicKeyFingerprint : Text
  csrSha256 : Text
  csrDer : Option (List UInt8)
  orgId : Option Text
  requestedValiditySeconds : Nat
  createdAtUnixSeconds : Nat
  previousSigningKeyId : Option Text
  renewalPolicy : Option Text
  predecessorCertificateId : Option Text
  predecessorCertificateSha256 : Option Text

/-- All that the local store holds. -/
structure Inventory where
  deviceSigningKeys : List DeviceSigningKey
  recipientEncryptionKeys : List RecipientEncryptionKey
  enrolledCertificates : List EnrolledCertificate
  certificateStatusCache : List CertificateStatusCacheRecord
  emergencyBlocklist : EmergencyBlocklistState
  contacts : List ContactRecord
  pendingCertificateOperations : List PendingCertificateOperation
  removedContacts : List ContactTombstone

def Inventory.empty : Inventory :=
  ⟨[], [], [], [], ⟨[], [], none⟩, [], [], []⟩

/-! ## The checks -/

/-- Refuses with the field unless the condition holds. -/
def requireField (field : String) (holds : Bool) : Except StoreError Unit :=
  if holds then .ok () else .error (.invalidField field)

def validateNonEmptyId (field : String) (value : Text) : Except StoreError Unit :=
  requireField field !value.isEmpty

def validateNonEmptyBytes (field : String) (value : List UInt8) : Except StoreError Unit :=
  requireField field !value.isEmpty

def validateSha256 (field : String) (value : Text) : Except StoreError Unit :=
  requireField field (isValidSha256Identifier value)

/-- The first value that was seen before is the one reported. -/
def validateUniqueFrom (field : String) (seen : List Text) : List Text → Except StoreError Unit
  | [] => .ok ()
  | value :: rest =>
    if value ∈ seen then .error (.duplicateRecord field value)
    else validateUniqueFrom field (value :: seen) rest

def validateUnique (field : String) (values : List Text) : Except StoreError Unit :=
  validateUniqueFrom field [] values

def HostedDeviceBinding.validId (value : Text) : Bool :=
  !value.isEmpty && (utf8Bytes value).length ≤ 256 &&
    value.all fun char => isAlphanumeric char || char ∈ ['-', '_', '.', '~']

/-- The login and the signing origin of an environment. -/
def HostedDeviceBinding.origins (environment : Text) : Option (Text × Text) :=
  if environment = "staging".toList then
    some ("https://staging.tzap.org".toList, "https://staging.tzap.org".toList)
  else if environment = "prod".toList then
    some ("https://login.tzap.org".toList, "https://sign.tzap.org".toList)
  else none

/-- A signature text is the canonical encoding of some bytes. -/
def HostedDeviceBinding.canonicalSignature (primitives : Primitives) (value : Text) : Bool :=
  match primitives.base64Decode value with
  | none => false
  | some signature => !signature.isEmpty && primitives.base64Encode signature == value

def HostedDeviceBinding.validate (primitives : Primitives) (binding : HostedDeviceBinding) :
    Except StoreError Unit := do
  requireField "hosted_binding.owner_user_id" (validId binding.ownerUserId)
  match origins binding.environment with
  | none => .error (.invalidField "hosted_binding.environment")
  | some (auth, signing) => do
      requireField "hosted_binding.origins"
        (binding.authOrigin == auth && binding.signingOrigin == signing)
      requireField "hosted_binding.org_id" (binding.orgId.all validId)
      requireField "hosted_binding.device_id"
        (binding.signDeviceId.all validId && binding.publicDeviceId.all isValidPublicDeviceId &&
          binding.signDeviceId.isSome == binding.publicDeviceId.isSome)
      requireField "hosted_binding.binding_signature"
        (binding.bindingSignature.all (canonicalSignature primitives))

def DeviceSigningKey.validate (primitives : Primitives) (record : DeviceSigningKey) :
    Except StoreError Unit := do
  validateNonEmptyId "device_signing_keys.key_id" record.keyId
  validateSha256 "device_signing_keys.public_key_fingerprint" record.publicKeyFingerprint
  validateNonEmptyBytes "device_signing_keys.private_key_der" record.privateKeyDer
  match record.hostedBinding with
  | some binding => binding.validate primitives
  | none => .ok ()

/-- A recipient key also has to differ from every signing key. -/
def RecipientEncryptionKey.validate (signingKeys : List DeviceSigningKey)
    (record : RecipientEncryptionKey) : Except StoreError Unit := do
  validateNonEmptyId "recipient_encryption_keys.key_id" record.keyId
  validateNonEmptyId "recipient_encryption_keys.algorithm" record.algorithm
  validateSha256 "recipient_encryption_keys.public_key_fingerprint" record.publicKeyFingerprint
  validateNonEmptyBytes "recipient_encryption_keys.private_key_der" record.privateKeyDer
  validateNonEmptyBytes "recipient_encryption_keys.public_key_der" record.publicKeyDer
  requireField "recipient_encryption_keys.public_key_fingerprint"
    (!signingKeys.any fun key => key.publicKeyFingerprint == record.publicKeyFingerprint)

def CertificatePublicMetadata.validate (metadata : CertificatePublicMetadata) :
    Except StoreError Unit := do
  requireField "public_metadata.public_signer_id" (isValidPublicSignerId metadata.publicSignerId)
  requireField "public_metadata.public_org_id" (metadata.publicOrgId.all isValidPublicOrgId)
  requireField "public_metadata.public_device_id" (isValidPublicDeviceId metadata.publicDeviceId)
  requireField "public_metadata.policy_oid" !metadata.policyOid.isEmpty

def SignDeviceRouting.validate : SignDeviceRouting → Except StoreError Unit
  | .personal => .ok ()
  | .organization orgId loginOrganizationDeviceId => do
      validateNonEmptyId "sign_device_routing.org_id" orgId
      validateNonEmptyId "sign_device_routing.login_organization_device_id"
        loginOrganizationDeviceId

def EnrolledCertificate.validate (record : EnrolledCertificate) : Except StoreError Unit := do
  validateNonEmptyId "certificate_id" record.certificateId
  validateSha256 "certificate_sha256" record.certificateSha256
  validateSha256 "issuer_certificate_sha256" record.issuerCertificateSha256
  requireField "issuer_key_identifier" (isValidIssuerKeyIdentifier record.issuerKeyIdentifier)
  requireField "serial_number" (isValidSerialHex record.serialNumber)
  validateNonEmptyBytes "leaf_certificate_der" record.leafCertificateDer
  requireField "intermediate_chain_der" !record.intermediateChainDer.isEmpty
  record.intermediateChainDer.forM (validateNonEmptyBytes "intermediate_chain_der")
  requireField "certificate_validity" (record.notBeforeUnixSeconds < record.notAfterUnixSeconds)
  record.publicMetadata.validate
  validateNonEmptyId "sign_device_id" record.signDeviceId
  record.signDeviceRouting.validate
  validateNonEmptyId "signing_key_id" record.signingKeyId

def CertificateStatusCacheRecord.validate (record : CertificateStatusCacheRecord) :
    Except StoreError Unit := do
  validateSha256 "certificate_status_cache.certificate_sha256" record.certificateSha256
  requireField "certificate_status_cache.freshness_window"
    (record.thisUpdateUnixSeconds < record.nextUpdateUnixSeconds)

def EmergencyBlocklistState.validate (blocklist : EmergencyBlocklistState) :
    Except StoreError Unit := do
  validateUnique "emergency_blocklist.blocked_root_sha256" blocklist.blockedRootSha256
  validateUnique "emergency_blocklist.blocked_issuer_sha256" blocklist.blockedIssuerSha256
  blocklist.blockedRootSha256.forM (validateSha256 "emergency_blocklist.blocked_root_sha256")
  blocklist.blockedIssuerSha256.forM (validateSha256 "emergency_blocklist.blocked_issuer_sha256")

def ContactRecord.validate (record : ContactRecord) : Except StoreError Unit := do
  validateNonEmptyId "contacts.contact_id" record.contactId
  validateNonEmptyId "contacts.display_name" record.displayName
  validateSha256 "contacts.signing_certificate_sha256" record.signingCertificateSha256
  validateSha256 "contacts.recipient_public_key_fingerprint" record.recipientPublicKeyFingerprint
  requireField "contacts.verification_state" (record.verificationState != .invalid)
  requireField "contacts.contact_card_payload" record.contactCardPayload.isObject

namespace PendingCertificateOperation

/-- The kept request is not empty, at most 16 KiB, and the one the digest names. -/
def validCsr (primitives : Primitives) (operation : PendingCertificateOperation)
    (csrDer : List UInt8) : Bool :=
  !csrDer.isEmpty && csrDer.length ≤ 16 * 1024 &&
    sha256Identifier primitives csrDer == operation.csrSha256

/-- The key that the request is for is in the inventory under its fingerprint. -/
def namesKey (operation : PendingCertificateOperation) (keys : List DeviceSigningKey) : Bool :=
  match keys.find? fun key => key.keyId == operation.signingKeyId with
  | none => false
  | some key => key.publicKeyFingerprint == operation.publicKeyFingerprint

/-- An enrollment has no predecessor, and its key has no active certificate. -/
def validateEnrollment (operation : PendingCertificateOperation) (inventory : Inventory) :
    Except StoreError Unit := do
  requireField "pending_certificate_operations.predecessor"
    (!(operation.previousSigningKeyId.isSome || operation.renewalPolicy.isSome ||
      operation.predecessorCertificateId.isSome || operation.predecessorCertificateSha256.isSome))
  requireField "pending_certificate_operations.enrollment_key"
    (!inventory.enrolledCertificates.any fun certificate =>
      certificate.signingKeyId == operation.signingKeyId && certificate.state == .active)

/-- The stored certificate that a renewal replaces. -/
def isPredecessor (certificateId certificateSha256 signingKeyId : Text)
    (certificate : EnrolledCertificate) : Bool :=
  certificate.certificateId == certificateId && certificate.certificateSha256 == certificateSha256 &&
    certificate.signingKeyId == signingKeyId && certificate.state == .renewalPending

def knownRenewalPolicies : List Text :=
  ["same_key_required".toList, "key_rotation_allowed".toList]

/-- A renewal names a stored key and a stored certificate that waits for it. -/
def validateRenewal (operation : PendingCertificateOperation) (inventory : Inventory) :
    Except StoreError Unit :=
  match operation.previousSigningKeyId with
  | none => .error (.invalidField "pending_certificate_operations.previous_signing_key")
  | some previousSigningKeyId => do
      requireField "pending_certificate_operations.renewal_policy"
        ((inventory.deviceSigningKeys.any fun key => key.keyId == previousSigningKeyId) &&
          operation.renewalPolicy.any fun policy => policy ∈ knownRenewalPolicies)
      match operation.predecessorCertificateId, operation.predecessorCertificateSha256 with
      | some certificateId, some certificateSha256 =>
        requireField "pending_certificate_operations.predecessor"
          (inventory.enrolledCertificates.any
            (isPredecessor certificateId certificateSha256 previousSigningKeyId))
      | _, _ => .error (.invalidField "pending_certificate_operations.predecessor")

def validateKind (operation : PendingCertificateOperation) (inventory : Inventory) :
    Except StoreError Unit :=
  match operation.kind with
  | .enrollment => operation.validateEnrollment inventory
  | .renewal => operation.validateRenewal inventory

def validate (primitives : Primitives) (inventory : Inventory)
    (operation : PendingCertificateOperation) : Except StoreError Unit := do
  validateNonEmptyId "pending_certificate_operations.operation_id" operation.operationId
  validateNonEmptyId "pending_certificate_operations.signing_key_id" operation.signingKeyId
  validateSha256 "pending_certificate_operations.public_key_fingerprint"
    operation.publicKeyFingerprint
  validateSha256 "pending_certificate_operations.csr_sha256" operation.csrSha256
  requireField "pending_certificate_operations.csr_der"
    (operation.csrDer.all (operation.validCsr primitives))
  requireField "pending_certificate_operations.requested_validity_seconds"
    (operation.requestedValiditySeconds != 0)
  requireField "pending_certificate_operations.signing_key"
    (operation.namesKey inventory.deviceSigningKeys)
  operation.validateKind inventory
  requireField "pending_certificate_operations.org_id" (operation.orgId.all fun org => !org.isEmpty)

end PendingCertificateOperation

namespace Inventory

/-- The ids and hashes that may stand once in an inventory. -/
def validateUniqueIds (inventory : Inventory) : Except StoreError Unit := do
  validateUnique "device_signing_keys.key_id" (inventory.deviceSigningKeys.map (·.keyId))
  validateUnique "recipient_encryption_keys.key_id"
    (inventory.recipientEncryptionKeys.map (·.keyId))
  validateUnique "enrolled_certificates.certificate_sha256"
    (inventory.enrolledCertificates.map (·.certificateSha256))
  validateUnique "contacts.contact_id" (inventory.contacts.map (·.contactId))
  validateUnique "pending_certificate_operations.operation_id"
    (inventory.pendingCertificateOperations.map (·.operationId))
  validateUnique "pending_certificate_operations.signing_key_id"
    (inventory.pendingCertificateOperations.map (·.signingKeyId))

def validate (primitives : Primitives) (inventory : Inventory) : Except StoreError Unit := do
  inventory.validateUniqueIds
  inventory.deviceSigningKeys.forM (·.validate primitives)
  inventory.recipientEncryptionKeys.forM (·.validate inventory.deviceSigningKeys)
  inventory.enrolledCertificates.forM (·.validate)
  inventory.certificateStatusCache.forM (·.validate)
  inventory.emergencyBlocklist.validate
  inventory.contacts.forM (·.validate)
  inventory.pendingCertificateOperations.forM (·.validate primitives inventory)

end Inventory

/-! ## What the checks accept -/

@[simp] theorem requireField_eq_ok {holds : Bool} :
    requireField field holds = .ok () ↔ holds = true := by
  cases holds <;> simp [requireField]

@[simp] theorem validateNonEmptyId_eq_ok {value : Text} :
    validateNonEmptyId field value = .ok () ↔ value ≠ [] := by
  simp [validateNonEmptyId]

@[simp] theorem validateSha256_eq_ok {value : Text} :
    validateSha256 field value = .ok () ↔ isValidSha256Identifier value = true := by
  simp [validateSha256]

theorem validateUniqueFrom_eq_ok {seen values : List Text} :
    validateUniqueFrom field seen values = .ok () ↔
      values.Nodup ∧ ∀ value ∈ values, value ∉ seen := by
  induction values generalizing seen with
  | nil => simp [validateUniqueFrom]
  | cons value rest ih =>
    unfold validateUniqueFrom
    by_cases known : value ∈ seen
    · simp [known]
    · simp only [known, ↓reduceIte, ih, List.nodup_cons, List.mem_cons, forall_eq_or_imp,
        not_false_eq_true, true_and, not_or]
      constructor
      · intro ⟨distinct, fresh⟩
        exact ⟨⟨fun inside => (fresh value inside).1 rfl, distinct⟩,
          fun other inside => (fresh other inside).2⟩
      · intro ⟨⟨absent, distinct⟩, fresh⟩
        refine ⟨distinct, fun other inside => ⟨?_, fresh other inside⟩⟩
        intro same
        exact absent (same ▸ inside)

@[simp] theorem validateUnique_eq_ok {values : List Text} :
    validateUnique field values = .ok () ↔ values.Nodup := by
  simp [validateUnique, validateUniqueFrom_eq_ok]

/-- A chain of checks passes exactly when each of them does. -/
theorem check_then_eq_ok {first : Except StoreError Unit} {rest : Except StoreError Unit} :
    (first >>= fun _ => rest) = .ok () ↔ first = .ok () ∧ rest = .ok () := by
  cases first with
  | error failure => simp [bind, Except.bind]
  | ok value => simp [bind, Except.bind]

namespace Inventory

variable {primitives : Primitives} {inventory : Inventory}

/-- The parts of an accepted inventory. -/
theorem validate_eq_ok_iff :
    inventory.validate primitives = .ok () ↔
      inventory.validateUniqueIds = .ok () ∧
      (∀ key ∈ inventory.deviceSigningKeys, key.validate primitives = .ok ()) ∧
      (∀ key ∈ inventory.recipientEncryptionKeys,
        key.validate inventory.deviceSigningKeys = .ok ()) ∧
      (∀ certificate ∈ inventory.enrolledCertificates, certificate.validate = .ok ()) ∧
      (∀ record ∈ inventory.certificateStatusCache, record.validate = .ok ()) ∧
      inventory.emergencyBlocklist.validate = .ok () ∧
      (∀ contact ∈ inventory.contacts, contact.validate = .ok ()) ∧
      ∀ operation ∈ inventory.pendingCertificateOperations,
        operation.validate primitives inventory = .ok () := by
  simp only [validate, check_then_eq_ok, Except.forM_eq_ok_iff]

theorem validateUniqueIds_eq_ok_iff :
    inventory.validateUniqueIds = .ok () ↔
      (inventory.deviceSigningKeys.map (·.keyId)).Nodup ∧
      (inventory.recipientEncryptionKeys.map (·.keyId)).Nodup ∧
      (inventory.enrolledCertificates.map (·.certificateSha256)).Nodup ∧
      (inventory.contacts.map (·.contactId)).Nodup ∧
      (inventory.pendingCertificateOperations.map (·.operationId)).Nodup ∧
      (inventory.pendingCertificateOperations.map (·.signingKeyId)).Nodup := by
  simp only [validateUniqueIds, check_then_eq_ok, validateUnique_eq_ok]

end Inventory

end ZManager.Identity
