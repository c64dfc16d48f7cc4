import ZManager.Identity.Enrollment

/-! # The public catalog

The catalog is the part of an inventory that holds no private material: one row
for each certificate and for each signing key without one, the recipient keys,
contacts, the status cache, the blocklist and the pending operations. Private
keys are named by references into a secret store.
-/

namespace ZManager.Identity

/-- What a stored secret is for. -/
inductive SecretPurpose where
  | signingKey
  | recipientKey
  | session
  deriving DecidableEq

/-- A secret is stored under its purpose and its reference. -/
structure SecretId where
  purpose : SecretPurpose
  reference : Text
  deriving DecidableEq

/-- Failures of the secret store. -/
inductive SecretError where
  | unavailable
  | denied
  | corrupt
  | missing (reference : Text)

/-- Failures of the catalog and its stores. -/
inductive CatalogError where
  | invalidCatalog (field : String)
  | revisionConflict (expected actual : Option Nat)
  | io
  | localStore (reason : StoreError)
  | secret (reason : SecretError)

/-- The catalog's row of a signing key. -/
structure PublicSigningIdentity where
  id : Text
  localAlias : Option Text
  certificateId : Option Text
  certificateSha256 : Option Text
  issuerCertificateSha256 : Option Text
  issuerKeyIdentifier : Option Text
  serialNumber : Option Text
  certificateChainDer : List (List UInt8)
  notBeforeUnixSeconds : Option Nat
  notAfterUnixSeconds : Option Nat
  renewalGracePeriodDays : Option Nat
  renewalRecommendedWithinDays : Option Nat
  publicSignerId : Option Text
  publicOrgId : Option Text
  publicDeviceId : Option Text
  assuranceLevel : Option Text
  signDeviceId : Option Text
  signDeviceRouting : Option SignDeviceRouting
  signingKeyCreatedAtUnixSeconds : Option Nat
  inventoryKeyId : Option Text
  metadataVersion : Option Nat
  policyOid : Option Text
  hostedBinding : Option HostedDeviceBinding
  signingKeyRef : Text
  lifecycle : Text

/-- The catalog's row of a recipient key. -/
structure PublicRecipientKey where
  id : Text
  localLabel : Option Text
  algorithm : Text
  publicKeyDer : List UInt8
  fingerprint : Text
  privateKeyRef : Text
  lifecycle : Text
  createdAtUnixSeconds : Nat
  retiredAtUnixSeconds : Option Nat

/-- The catalog's row of a contact. -/
structure PublicContact where
  contactId : Text
  displayName : Text
  signingCertificateSha256 : Text
  recipientPublicKeyFingerprint : Text
  recipientPublicKeyDer : List UInt8
  trustSource : Text
  source : Text
  verificationState : Text
  missingStatusCaveat : Bool
  contactCardPayload : Json
  acceptedAtUnixSeconds : Nat
  localAlias : Option Text
  card : Option Json

/-- The catalog's row of a cached status. -/
structure PublicStatusCacheRecord where
  lookupId : Text
  status : Text
  thisUpdate : Text
  nextUpdate : Text

/-- The public part of the identities. -/
structure Catalog where
  schemaVersion : Nat
  catalogId : Text
  revision : Nat
  defaultSigningIdentityId : Option Text
  signingIdentities : List PublicSigningIdentity
  recipientKeys : List PublicRecipientKey
  contacts : List PublicContact
  removedContacts : List ContactTombstone
  statusCache : List PublicStatusCacheRecord
  emergencyBlocklist : EmergencyBlocklistState
  pendingCertificateOperations : List PendingCertificateOperation

/-- What signs the binding of a hosted key, and how a binding is encoded. -/
structure CatalogPrimitives extends CertificatePrimitives where
  encodeBinding : HostedDeviceBinding → List UInt8
  /-- The signature of a message with a private key. -/
  sign : List UInt8 → List UInt8 → Option (List UInt8)

def publicCatalogSchemaVersion : Nat := 1

/-! ## Names on the wire -/

def CertificateStatus.asStr : CertificateStatus → Text
  | .valid => "valid".toList
  | .revoked => "revoked".toList
  | .expired => "expired".toList
  | .notYetValid => "not_yet_valid".toList
  | .suspended => "suspended".toList
  | .issuerSuspended => "issuer_suspended".toList
  | .issuerRevoked => "issuer_revoked".toList
  | .unknownCertificate => "unknown_certificate".toList
  | .unknownIssuer => "unknown_issuer".toList
  | .malformedLookup => "malformed_lookup".toList
  | .unsupportedLookupForm => "unsupported_lookup_form".toList

def VerificationState.asStr : VerificationState → Text
  | .validNow => "valid_now".toList
  | .validAtTrustedTime => "valid_at_trusted_time".toList
  | .cryptographicallyIntactOffline => "cryptographically_intact_offline".toList
  | .notRecorded => "not_recorded".toList
  | .invalid => "invalid".toList

def TrustAnchorType.asStr : TrustAnchorType → Text
  | .officialTzap => "official_tzap".toList
  | .custom => "custom".toList
  | .untrusted => "untrusted".toList

def IdentityAssurance.asStr : IdentityAssurance → Text
  | .oauthVerifiedEmail => "oauth_verified_email".toList
  | .oauthVerifiedProviderAccount => "oauth_verified_provider_account".toList
  | .orgAdminApprovedDevice => "org_admin_approved_device".toList
  | .enterpriseSsoVerified => "enterprise_sso_verified".toList
  | .contractVerified => "contract_verified".toList

def LocalCertificateState.asStr : LocalCertificateState → Text
  | .active => "active".toList
  | .renewalPending => "renewal_pending".toList
  | .revoked => "revoked".toList
  | .suspended => "suspended".toList
  | .expired => "expired".toList

/-- The value whose name the text is. -/
def parseName {α : Type} (asStr : α → Text) (values : List α) (value : Text) : Option α :=
  values.find? fun candidate => asStr candidate == value

def CertificateStatus.parse : Text → Option CertificateStatus :=
  parseName asStr [.valid, .revoked, .expired, .notYetValid, .suspended, .issuerSuspended,
    .issuerRevoked, .unknownCertificate, .unknownIssuer, .malformedLookup, .unsupportedLookupForm]

/-! ## The rows of an inventory -/

section

variable (primitives : CatalogPrimitives)

/-- The binding without its signature: what a key is bound to. -/
def bindingScope (binding : Option HostedDeviceBinding) : Option HostedDeviceBinding :=
  binding.map fun binding => { binding with bindingSignature := none }

def hostedBindingDomain : List UInt8 :=
  "zmanager-hosted-device-binding-v1".toList.map (fun char => UInt8.ofNat char.toNat) ++ [0]

def hostedBindingSigningPayload (binding : HostedDeviceBinding) : List UInt8 :=
  hostedBindingDomain ++ primitives.encodeBinding { binding with bindingSignature := none }

def signHostedBinding (binding : HostedDeviceBinding) (privateKeyDer : List UInt8) :
    Except CatalogError HostedDeviceBinding :=
  match primitives.sign privateKeyDer (hostedBindingSigningPayload primitives binding) with
  | none => .error (.invalidCatalog "hosted_binding_signature")
  | some signature =>
    .ok { binding with bindingSignature := some (primitives.base64Encode signature) }

/-- The binding of a key, signed with the key. -/
def signedBinding (key : DeviceSigningKey) : Except CatalogError (Option HostedDeviceBinding) :=
  match key.hostedBinding with
  | none => .ok none
  | some binding => some <$> signHostedBinding primitives binding key.privateKeyDer

/-- The signed binding of the key that a certificate is on. -/
def backingBinding : Option DeviceSigningKey → Except CatalogError (Option HostedDeviceBinding)
  | none => .ok none
  | some key => signedBinding primitives key

def verifyPrivateMatchesFingerprint (privateKeyDer : List UInt8) (expectedFingerprint : Text) :
    Except CatalogError Unit :=
  match publicKeyFingerprint primitives.toCertificatePrimitives privateKeyDer with
  | none => .error (.invalidCatalog "private_key_der")
  | some fingerprint =>
    if fingerprint ≠ expectedFingerprint then
      .error (.invalidCatalog "private_key_public_key_match")
    else .ok ()

def verifyPrivateMatchesPublicKey (privateKeyDer publicKeyDer : List UInt8) :
    Except CatalogError Unit :=
  match primitives.publicKeyOf privateKeyDer with
  | none => .error (.invalidCatalog "private_key_der")
  | some derived =>
    if derived ≠ publicKeyDer then .error (.invalidCatalog "private_key_public_key_match")
    else .ok ()

/-- The references of an inventory's keys, by key id. -/
abbrev SecretRefMap : Type := Text → Option Text

def SecretRefMap.empty : SecretRefMap := fun _ => none

def SecretRefMap.insert (map : SecretRefMap) (keyId reference : Text) : SecretRefMap :=
  Function.update map keyId (some reference)

/-- The row of a certificate, on the key that it names. -/
def certificateRow (inventory : Inventory) (signingRefs : SecretRefMap)
    (certificate : EnrolledCertificate) : Except CatalogError PublicSigningIdentity :=
  match signingRefs certificate.signingKeyId with
  | none => .error (.invalidCatalog "enrolled_certificates.signing_key_id")
  | some signingKeyRef => do
      let backingKey := inventory.deviceSigningKeys.find? fun key =>
        key.keyId == certificate.signingKeyId
      let hostedBinding ← backingBinding primitives backingKey
      return {
        id := certificate.certificateId
        localAlias := backingKey.bind (·.label)
        certificateId := some certificate.certificateId
        certificateSha256 := some certificate.certificateSha256
        issuerCertificateSha256 := some certificate.issuerCertificateSha256
        issuerKeyIdentifier := some certificate.issuerKeyIdentifier
        serialNumber := some certificate.serialNumber
        certificateChainDer := certificate.leafCertificateDer :: certificate.intermediateChainDer
        notBeforeUnixSeconds := some certificate.notBeforeUnixSeconds
        notAfterUnixSeconds := some certificate.notAfterUnixSeconds
        renewalGracePeriodDays := certificate.renewalGracePeriodDays
        renewalRecommendedWithinDays := certificate.renewalRecommendedWithinDays
        publicSignerId := some certificate.publicMetadata.publicSignerId
        publicOrgId := certificate.publicMetadata.publicOrgId
        publicDeviceId := some certificate.publicMetadata.publicDeviceId
        assuranceLevel := some certificate.publicMetadata.assuranceLevel.asStr
        signDeviceId := some certificate.signDeviceId
        signDeviceRouting := some certificate.signDeviceRouting
        signingKeyCreatedAtUnixSeconds := backingKey.map (·.createdAtUnixSeconds)
        inventoryKeyId := some certificate.signingKeyId
        metadataVersion := some certificate.publicMetadata.version
        policyOid := some certificate.publicMetadata.policyOid
        hostedBinding := hostedBinding
        signingKeyRef := signingKeyRef
        lifecycle := certificate.state.asStr }

/-- The row of a signing key without a certificate. -/
def keyRow (signingRefs : SecretRefMap) (key : DeviceSigningKey) :
    Except CatalogError PublicSigningIdentity := do
  let hostedBinding ← signedBinding primitives key
  match signingRefs key.keyId with
  | none => .error (.invalidCatalog "inventory.signing_refs")
  | some signingKeyRef => return {
      id := key.keyId
      localAlias := key.label
      certificateId := none
      certificateSha256 := none
      issuerCertificateSha256 := none
      issuerKeyIdentifier := none
      serialNumber := none
      certificateChainDer := []
      notBeforeUnixSeconds := none
      notAfterUnixSeconds := none
      renewalGracePeriodDays := none
      renewalRecommendedWithinDays := none
      publicSignerId := none
      publicOrgId := none
      publicDeviceId := none
      assuranceLevel := none
      signDeviceId := none
      signDeviceRouting := none
      signingKeyCreatedAtUnixSeconds := some key.createdAtUnixSeconds
      inventoryKeyId := some key.keyId
      metadataVersion := none
      policyOid := none
      hostedBinding := hostedBinding
      signingKeyRef := signingKeyRef
      lifecycle := "pending".toList }

def recipientRow (recipientRefs : SecretRefMap) (key : RecipientEncryptionKey) :
    Except CatalogError PublicRecipientKey :=
  match recipientRefs key.keyId with
  | none => .error (.invalidCatalog "inventory.recipient_refs")
  | some privateKeyRef => .ok {
      id := key.keyId
      localLabel := key.label
      algorithm := key.algorithm
      publicKeyDer := key.publicKeyDer
      fingerprint := key.publicKeyFingerprint
      privateKeyRef := privateKeyRef
      lifecycle := "active".toList
      createdAtUnixSeconds := key.createdAtUnixSeconds
      retiredAtUnixSeconds := none }

def contactRow (contact : ContactRecord) : Except CatalogError PublicContact :=
  let encoded := (contact.contactCardPayload.get "recipient_public_key".toList).bind Json.asStr
  match encoded.bind primitives.base64Decode with
  | none => .error (.invalidCatalog "contacts.recipient_public_key")
  | some recipientPublicKeyDer => .ok {
      contactId := contact.contactId
      displayName := contact.displayName
      signingCertificateSha256 := contact.signingCertificateSha256
      recipientPublicKeyFingerprint := contact.recipientPublicKeyFingerprint
      recipientPublicKeyDer := recipientPublicKeyDer
      trustSource := contact.trustAnchorType.asStr
      source := contact.source
      verificationState := contact.verificationState.asStr
      missingStatusCaveat := contact.missingStatusCaveat
      contactCardPayload := contact.contactCardPayload
      acceptedAtUnixSeconds := contact.acceptedAtUnixSeconds
      localAlias := contact.localAlias
      card := contact.card }

def statusRow (record : CertificateStatusCacheRecord) : PublicStatusCacheRecord where
  lookupId := record.certificateSha256
  status := record.status.asStr
  thisUpdate := Nat.toDigits 10 record.thisUpdateUnixSeconds
  nextUpdate := Nat.toDigits 10 record.nextUpdateUnixSeconds

/-! ## The check of a catalog -/

/-- Refuses with the field unless the condition holds. -/
def requireCatalog (field : String) (holds : Bool) : Except CatalogError Unit :=
  if holds then .ok () else .error (.invalidCatalog field)

def PublicSigningIdentity.validate (record : PublicSigningIdentity) : Except CatalogError Unit := do
  requireCatalog "signing_identities.id" !record.id.isEmpty
  requireCatalog "signing_identities.signing_key_ref" !record.signingKeyRef.isEmpty
  requireCatalog "signing_identities.lifecycle" !record.lifecycle.isEmpty
  requireCatalog "signing_identities.hosted_binding" (record.hostedBinding.all fun binding =>
    (binding.validate primitives.toPrimitives).isOk)

def PublicRecipientKey.validate (record : PublicRecipientKey) : Except CatalogError Unit := do
  requireCatalog "recipient_keys.id" !record.id.isEmpty
  requireCatalog "recipient_keys.algorithm" !record.algorithm.isEmpty
  requireCatalog "recipient_keys.fingerprint" !record.fingerprint.isEmpty
  requireCatalog "recipient_keys.private_key_ref" !record.privateKeyRef.isEmpty
  requireCatalog "recipient_keys.public_key_der" !record.publicKeyDer.isEmpty

/-- The checks before a catalog is saved. -/
def Catalog.validate (catalog : Catalog) : Except CatalogError Unit := do
  requireCatalog "schema_version" (catalog.schemaVersion == publicCatalogSchemaVersion)
  requireCatalog "catalog_id" !catalog.catalogId.isEmpty
  requireCatalog "signing_identities.id" (decide (catalog.signingIdentities.map (·.id)).Nodup)
  requireCatalog "recipient_keys.id" (decide (catalog.recipientKeys.map (·.id)).Nodup)
  requireCatalog "contacts.contact_id" (decide (catalog.contacts.map (·.contactId)).Nodup)
  requireCatalog "default_signing_identity_id" (catalog.defaultSigningIdentityId.all fun id =>
    catalog.signingIdentities.any fun record => record.id == id)
  catalog.signingIdentities.forM (·.validate primitives)
  catalog.recipientKeys.forM (·.validate)

/-- The catalog of an inventory, with the references that were made for its keys. -/
def buildCatalog (inventory : Inventory) (catalogId : Text)
    (signingRefs recipientRefs : SecretRefMap) : Except CatalogError Catalog := do
  let certified ← inventory.enrolledCertificates.mapM
    (certificateRow primitives inventory signingRefs)
  let uncertified ← (inventory.deviceSigningKeys.filter fun key =>
    !inventory.enrolledCertificates.any fun certificate =>
      certificate.signingKeyId == key.keyId).mapM (keyRow primitives signingRefs)
  let recipientKeys ← inventory.recipientEncryptionKeys.mapM (recipientRow recipientRefs)
  let contacts ← inventory.contacts.mapM (contactRow primitives)
  let catalog : Catalog := {
    schemaVersion := publicCatalogSchemaVersion
    catalogId := catalogId
    revision := 1
    -- the first active certificate is usable by default
    defaultSigningIdentityId := ((certified ++ uncertified).find? fun identity =>
      identity.lifecycle == LocalCertificateState.active.asStr).map (·.id)
    signingIdentities := certified ++ uncertified
    recipientKeys := recipientKeys
    contacts := contacts
    removedContacts := inventory.removedContacts
    statusCache := inventory.certificateStatusCache.map statusRow
    emergencyBlocklist := inventory.emergencyBlocklist
    pendingCertificateOperations := inventory.pendingCertificateOperations }
  catalog.validate primitives
  return catalog

end

/-! ## References and recorded keys -/

/-- The secrets that a catalog names. -/
def Catalog.secretReferences (catalog : Catalog) : List SecretId :=
  catalog.signingIdentities.map (fun identity => ⟨.signingKey, identity.signingKeyRef⟩) ++
    catalog.recipientKeys.map fun key => ⟨.recipientKey, key.privateKeyRef⟩

/-- A key in a public identity scope. -/
structure SigningKeyIdentity where
  publicKeyFingerprint : Text
  signerId : Option Text
  orgId : Option Text
  deviceId : Option Text
  hostedBinding : Option HostedDeviceBinding
  deriving DecidableEq

namespace PublicSigningIdentity

variable (primitives : CatalogPrimitives)

/-- The leaf and its chain, when every certificate of the row parses. -/
def certificateParts (row : PublicSigningIdentity) :
    Except CatalogError (List UInt8 × List (List UInt8)) :=
  match row.certificateChainDer with
  | [] => .error (.invalidCatalog "certificate_chain_der")
  | leaf :: chain =>
    if (leaf :: chain).all primitives.certificateParses then .ok (leaf, chain)
    else .error (.invalidCatalog "certificate_chain_der")

/-- The key and the names in the row's certificate. -/
def certificateKeyIdentity (row : PublicSigningIdentity) :
    Except CatalogError SigningKeyIdentity := do
  let parts ← row.certificateParts primitives
  match primitives.certificateKey parts.1 with
  | none => .error (.invalidCatalog "certificate_chain_der")
  | some publicKeyDer => return {
      publicKeyFingerprint := sha256Identifier primitives.toPrimitives publicKeyDer
      signerId := row.publicSignerId
      orgId := row.publicOrgId
      deviceId := row.publicDeviceId
      hostedBinding := bindingScope row.hostedBinding }

end PublicSigningIdentity

end ZManager.Identity
