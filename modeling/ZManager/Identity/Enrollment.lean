import ZManager.Identity.Inventory

/-! # Certificates that the signing server answers with

A certificate payload is taken into the inventory only after its chain is
completed by the validator, its public fields agree with the leaf, and the leaf
is bound to the device key. X.509 and private keys are read by third-party
code, which stays a parameter.
-/

namespace ZManager.Identity

/-- What the certificate and key libraries read of DER bytes. -/
structure CertificatePrimitives extends Primitives where
  /-- The whole input is one certificate. -/
  certificateParses : List UInt8 → Bool
  rawSerial : List UInt8 → List UInt8
  authorityKeyIdentifier : List UInt8 → Option (List UInt8)
  subjectKeyIdentifier : List UInt8 → Option (List UInt8)
  /-- The validity in unix seconds, for a certificate without negative times. -/
  certificateValidity : List UInt8 → Option (Nat × Nat)
  /-- The public key of a certificate. -/
  certificateKey : List UInt8 → Option (List UInt8)
  /-- The public key of a private key. -/
  publicKeyOf : List UInt8 → Option (List UInt8)
  /-- The public key of a certificate request that its own signature verifies with. -/
  requestKey : List UInt8 → Option (List UInt8)

/-- Failures of an enrollment. -/
inductive EnrollmentError where
  | invalidField (field : String)
  | certificateChain (reason : String)
  | certificateValidity (now notBefore notAfter : Nat)
  | crypto (reason : String)

/-- A certificate as the server describes it. -/
structure CertificatePayload where
  certificateId : Text
  leafCertificateDer : List UInt8
  intermediateChainDer : List (List UInt8)
  issuerCertificateSha256 : Text
  issuerKeyIdentifier : Text
  serialNumber : Text
  certificateSha256 : Text
  notBeforeUnixSeconds : Nat
  notAfterUnixSeconds : Nat
  renewalGracePeriodDays : Option Nat
  renewalRecommendedWithinDays : Option Nat
  signDeviceId : Text
  loginOrganizationDeviceId : Option Text

/-- The texts that parsing a response accepts are not empty. -/
structure CertificatePayload.Parsed (payload : CertificatePayload) : Prop where
  certificateId : payload.certificateId ≠ []
  issuerKeyIdentifier : payload.issuerKeyIdentifier ≠ []
  signDeviceId : payload.signDeviceId ≠ []
  loginOrganizationDeviceId : payload.loginOrganizationDeviceId ≠ some []

/-- The upper-case hexadecimal digit of a number below sixteen. -/
def upperHexDigit (number : Nat) : Char :=
  ['0', '1', '2', '3', '4', '5', '6', '7', '8', '9', 'A', 'B', 'C', 'D', 'E', 'F'].getD number '0'

def hexUpper (bytes : List UInt8) : Text := hexWith upperHexDigit bytes

/-- The serial number of a certificate without its leading zero bytes; zero has none. -/
def canonicalSerialHex (serialBytes : List UInt8) : Option Text :=
  match serialBytes.dropWhile (· == 0) with
  | [] => none
  | trimmed => some (hexUpper trimmed)

section

variable (primitives : CertificatePrimitives)

/-- The fingerprint of a private key's public key. -/
def publicKeyFingerprint (privateKeyDer : List UInt8) : Option Text :=
  (primitives.publicKeyOf privateKeyDer).map (sha256Identifier primitives.toPrimitives)

/-- The recorded fingerprint of a signing key, checked against its private material. -/
def signingKeyPublicFingerprint (signingKey : DeviceSigningKey) : Except EnrollmentError Text :=
  match publicKeyFingerprint primitives signingKey.privateKeyDer with
  | none => .error (.crypto "device signing key is invalid")
  | some fingerprint =>
    if fingerprint ≠ signingKey.publicKeyFingerprint then
      .error (.crypto "device signing key fingerprint does not match its private material")
    else .ok fingerprint

def validateSigningKeyAndCsr (signingKey : DeviceSigningKey) (csrDer : List UInt8) :
    Except EnrollmentError Unit := do
  let expected ← signingKeyPublicFingerprint primitives signingKey
  match primitives.requestKey csrDer with
  | some publicDer =>
    if sha256Identifier primitives.toPrimitives publicDer ≠ expected then
      .error (.invalidField "csr_der")
    else .ok ()
  | none => .error (.invalidField "csr_der")

def validateStoredSigningKey (inventory : Inventory) (signingKey : DeviceSigningKey) :
    Except EnrollmentError Unit :=
  match inventory.deviceSigningKeys.find? fun key => key.keyId == signingKey.keyId with
  | none => .error (.invalidField "signing_key_id")
  | some stored => do
      let held ← signingKeyPublicFingerprint primitives stored
      let given ← signingKeyPublicFingerprint primitives signingKey
      if held ≠ given then .error (.invalidField "signing_key_id") else .ok ()

/-- The completed chain starts with the leaf of the answer. -/
def replaceCertificateChainDer (payload : CertificatePayload) :
    List (List UInt8) → Except EnrollmentError CertificatePayload
  | [] => .error (.invalidField "certificate_chain_der")
  | leaf :: intermediates =>
    if leaf.isEmpty || intermediates.any List.isEmpty || leaf != payload.leafCertificateDer then
      .error (.certificateChain
        "validated certificate chain leaf does not match enrollment response")
    else .ok { payload with intermediateChainDer := intermediates }

/-- Refuses with the field unless the condition holds. -/
def requirePayload (field : String) (holds : Bool) : Except EnrollmentError Unit :=
  if holds then .ok () else .error (.invalidField field)

/-- The public fields of a payload are those of its leaf and its issuer. -/
def validateCertificateMetadata (payload : CertificatePayload) (nowUnixSeconds : Nat) :
    Except EnrollmentError Unit :=
  match payload.intermediateChainDer with
  | [] => .error (.invalidField "certificate_chain_der")
  | issuer :: _ => do
      requirePayload "certificate_chain_der"
        ((payload.leafCertificateDer :: payload.intermediateChainDer).all
          primitives.certificateParses)
      requirePayload "certificate_sha256" (payload.certificateSha256 ==
        sha256Identifier primitives.toPrimitives payload.leafCertificateDer)
      requirePayload "issuer_certificate_sha256" (payload.issuerCertificateSha256 ==
        sha256Identifier primitives.toPrimitives issuer)
      requirePayload "serial_number"
        (canonicalSerialHex (primitives.rawSerial payload.leafCertificateDer) ==
          some payload.serialNumber)
      match primitives.authorityKeyIdentifier payload.leafCertificateDer with
      | none => .error (.invalidField "issuer_key_identifier")
      | some authority => do
          requirePayload "issuer_key_identifier"
            (primitives.subjectKeyIdentifier issuer == some authority &&
              primitives.base64Encode authority == payload.issuerKeyIdentifier)
          match primitives.certificateValidity payload.leafCertificateDer with
          | none => .error (.invalidField "certificate_pem")
          | some (notBefore, notAfter) => do
              requirePayload "not_before_unix_seconds" (payload.notBeforeUnixSeconds == notBefore)
              requirePayload "not_after_unix_seconds" (payload.notAfterUnixSeconds == notAfter)
              if nowUnixSeconds < notBefore || nowUnixSeconds ≥ notAfter then
                .error (.certificateValidity nowUnixSeconds notBefore notAfter)
              else .ok ()

variable (validator : List (List UInt8) →
  Except EnrollmentError (List (List UInt8) × CertificatePublicMetadata))

/-- Completes the chain of an answer, checks its public fields and binds its leaf to
the device key. -/
def validateForKey (payload : CertificatePayload) (signingKey : DeviceSigningKey)
    (nowUnixSeconds : Nat) :
    Except EnrollmentError (CertificatePayload × CertificatePublicMetadata) := do
  requirePayload "certificate_chain_der"
    (!(payload.leafCertificateDer.isEmpty || payload.intermediateChainDer.any List.isEmpty))
  let (chain, metadata) ← validator (payload.leafCertificateDer :: payload.intermediateChainDer)
  let completed ← replaceCertificateChainDer payload chain
  validateCertificateMetadata primitives completed nowUnixSeconds
  match primitives.certificateKey completed.leafCertificateDer with
  | none => .error (.invalidField "leaf_certificate_der")
  | some leafKey => do
      let expected ← signingKeyPublicFingerprint primitives signingKey
      if sha256Identifier primitives.toPrimitives leafKey ≠ expected then
        .error (.certificateChain "issued certificate public key does not match the device key")
      else .ok (completed, metadata)

end

/-- The routing of a certificate: the organization that it was requested for. -/
def routingFor (orgId : Option Text) (payload : CertificatePayload) :
    Except EnrollmentError SignDeviceRouting :=
  match orgId with
  | none => .ok .personal
  | some orgId =>
    match payload.loginOrganizationDeviceId with
    | none => .error (.invalidField "login_organization_device_id")
    | some device => .ok (.organization orgId device)

/-- The inventory record of an accepted answer. -/
def intoStoreRecord (payload : CertificatePayload) (orgId : Option Text) (signingKeyId : Text)
    (publicMetadata : CertificatePublicMetadata) : Except EnrollmentError EnrolledCertificate := do
  let routing ← routingFor orgId payload
  return {
    certificateId := payload.certificateId
    certificateSha256 := payload.certificateSha256
    issuerCertificateSha256 := payload.issuerCertificateSha256
    issuerKeyIdentifier := payload.issuerKeyIdentifier
    serialNumber := payload.serialNumber
    leafCertificateDer := payload.leafCertificateDer
    intermediateChainDer := payload.intermediateChainDer
    notBeforeUnixSeconds := payload.notBeforeUnixSeconds
    notAfterUnixSeconds := payload.notAfterUnixSeconds
    renewalGracePeriodDays := payload.renewalGracePeriodDays
    renewalRecommendedWithinDays := payload.renewalRecommendedWithinDays
    publicMetadata := publicMetadata
    signDeviceId := payload.signDeviceId
    signDeviceRouting := routing
    signingKeyId := signingKeyId
    state := .active }

end ZManager.Identity
