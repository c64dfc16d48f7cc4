import ZManager.Identity.ChainTrust
import ZManager.Identity.ContactSnapshot

/-! # Contact cards

A card is exported from the records of an identity with its intermediates, or
compact without them; then the verifier looks the issuer of the leaf up by its
key identifier. An exported card verifies where its records fit each other and
the chain that the verifier has is trusted (`CardsSound.verifyContactCard_eq_ok`).
-/

namespace ZManager.Identity

/-- Signatures, their messages and how a certificate verifies them. -/
structure ContactCardPrimitives extends TrustPrimitives where
  /-- The canonical bytes of a JSON value. -/
  canonicalize : Json → Except Text (List UInt8)
  /-- The signature with a private key. -/
  sign : List UInt8 → List UInt8 → Except Text (List.Vector UInt8 64)
  /-- A message and its signature verify with the key of a certificate. -/
  verifySignature : List UInt8 → List UInt8 → List UInt8 → Except Text Bool

/-- What a contact card is to be made of. -/
structure ContactCardExportRequest where
  accountKey : Text
  recipientKeyId : Text
  certificateId : Text
  displayName : Text
  deviceLabel : Text
  createdAt : UInt64
  expiresAt : Option UInt64
  compact : Bool

/-- The certificate with a subject key identifier, where there is one. -/
abbrev IntermediateResolver := List UInt8 → Except Text (Option (List UInt8))

/-- How a contact card is checked. -/
structure ContactCardImportOptions extends OfflineVerificationOptions where
  intermediateResolver : Option IntermediateResolver

def contactCardContainerVersion : Nat := 1

def contactCardPayloadVersion : Nat := 1

def contactCardSignatureAlgorithm : Text := "ECDSA-P256-SHA256".toList

def recipientEncryptionKeyAlgorithm : Text := "P-256-SPKI".toList

/-! ## Export -/

def Json.ofNat (number : Nat) : Json := .number (Nat.toDigits 10 number)

def requireCard (field : String) (holds : Bool) : Except ContactCardError Unit :=
  if holds then .ok () else .error (.invalidField field)

def validateExportRequest (request : ContactCardExportRequest) : Except ContactCardError Unit := do
  requireCard "account_key" !request.accountKey.isEmpty
  requireCard "display_name" !request.displayName.isEmpty
  requireCard "device_label" !request.deviceLabel.isEmpty
  requireCard "expires_at_unix_seconds" (request.expiresAt.all (request.createdAt < ·))

/-- A certificate that names itself as its issuer. -/
def isSelfIssued (primitives : TrustPrimitives) (der : List UInt8) : Bool :=
  match primitives.parse der with
  | .ok (false, certificate) => certificate.issuer == certificate.subject
  | _ => false

/-- The issuers without the root, which a verifier has itself. -/
def publicIntermediateChainDer (primitives : TrustPrimitives) (chainDer : List (List UInt8)) :
    List (List UInt8) :=
  match chainDer.getLast? with
  | none => []
  | some last => if isSelfIssued primitives last then chainDer.dropLast else chainDer

def publicMetadataPayload (metadata : CertificatePublicMetadata) : Json :=
  .object [("version".toList, .ofNat metadata.version),
    ("public_signer_id".toList, .string metadata.publicSignerId),
    ("public_org_id".toList, metadata.publicOrgId.elim .null .string),
    ("public_device_id".toList, .string metadata.publicDeviceId),
    ("assurance_level".toList, .string metadata.assuranceLevel.asStr),
    ("policy_oid".toList, .string metadata.policyOid)]

/-- The fields that both forms of a card have. -/
def contactCardFields (primitives : Primitives) (request : ContactCardExportRequest)
    (recipientKey : RecipientEncryptionKey) (certificate : EnrolledCertificate) :
    List (Text × Json) :=
  [("contact_card_version".toList, .ofNat contactCardPayloadVersion),
    ("recipient_key_algorithm".toList, .string recipientKey.algorithm),
    ("recipient_public_key".toList, .string (primitives.base64Encode recipientKey.publicKeyDer)),
    ("recipient_key_fingerprint".toList, .string recipientKey.publicKeyFingerprint),
    ("display_name".toList, .string request.displayName),
    ("device_label".toList, .string request.deviceLabel),
    ("created_at_unix_seconds".toList, .ofNat request.createdAt.toNat),
    ("expires_at_unix_seconds".toList, request.expiresAt.elim .null (.ofNat ·.toNat)),
    ("signing_certificate_sha256".toList, .string certificate.certificateSha256),
    ("signing_certificate_der".toList,
      .string (primitives.base64Encode certificate.leafCertificateDer)),
    ("signing_public_metadata".toList, publicMetadataPayload certificate.publicMetadata)]

/-- What a contact card is signed over. -/
def contactCardPayload (primitives : TrustPrimitives) (request : ContactCardExportRequest)
    (recipientKey : RecipientEncryptionKey) (certificate : EnrolledCertificate) : Json :=
  let fields := contactCardFields primitives.toPrimitives request recipientKey certificate
  if request.compact then .object fields
  else .object (fields ++ [("intermediate_chain_der".toList,
    .array ((publicIntermediateChainDer primitives certificate.intermediateChainDer).map
      fun der => .string (primitives.base64Encode der)))])

def signContactCardPayload (primitives : ContactCardPrimitives) (signingKey : DeviceSigningKey)
    (payload : Json) : Except ContactCardError (List.Vector UInt8 64) := do
  let canonicalPayload ← (primitives.canonicalize payload).mapError .canonicalization
  (primitives.sign signingKey.privateKeyDer canonicalPayload).mapError .crypto

def findRecord {α : Type} (field : String) (found : α → Bool) (records : List α) :
    Except ContactCardError α :=
  match records.find? found with
  | some record => .ok record
  | none => .error (.missingRecord field)

/-- The card around a signed payload. -/
def contactCard (primitives : Primitives) (payload : Json) (signature : List.Vector UInt8 64) :
    Json :=
  .object [("version".toList, .ofNat contactCardContainerVersion), ("payload".toList, payload),
    ("signature_algorithm".toList, .string contactCardSignatureAlgorithm),
    ("signature".toList, .string (primitives.base64Encode signature.toList))]

/-- Makes and signs a contact card. -/
def exportContactCard (primitives : ContactCardPrimitives) (inventory : Inventory)
    (request : ContactCardExportRequest) : Except ContactCardError Json := do
  validateExportRequest request
  let recipientKey ← findRecord "recipient_key_id" (fun record =>
    record.keyId == request.recipientKeyId) inventory.recipientEncryptionKeys
  let certificate ← findRecord "certificate_id" (fun record =>
    record.certificateId == request.certificateId) inventory.enrolledCertificates
  if certificate.state ≠ .active then .error .certificateNotActive
  else do
    let signingKey ← findRecord "signing_key_id" (fun record =>
      record.keyId == certificate.signingKeyId) inventory.deviceSigningKeys
    let payload := contactCardPayload primitives.toTrustPrimitives request recipientKey certificate
    let signature ← signContactCardPayload primitives signingKey payload
    return contactCard primitives.toPrimitives payload signature

/-! ## Verification -/

/-- `Value::as_u64`. -/
def Json.asU64 : Json → Option Nat
  | .number digits =>
    if digits ≠ [] ∧ digits.all Char.isDigit ∧ Nat.ofDigitChars 10 digits 0 < 2 ^ 64 then
      some (Nat.ofDigitChars 10 digits 0)
    else none
  | _ => none

/-- `Value::as_array`. -/
def Json.asArray : Json → Option (List Json)
  | .array items => some items
  | _ => none

def jsonField (object : Json) (field : String) : Except ContactCardError Json :=
  match object.get field.toList with
  | some value => .ok value
  | none => .error (.invalidField field)

def jsonString (object : Json) (field : String) : Except ContactCardError Text :=
  match (object.get field.toList).bind Json.asStr with
  | some (char :: text) => .ok (char :: text)
  | _ => .error (.invalidField field)

def requireU64 (object : Json) (field : String) (expected : Nat) : Except ContactCardError Unit :=
  requireCard field ((object.get field.toList).bind Json.asU64 == some expected)

def requireStringEquals (object : Json) (field : String) (expected : Text) :
    Except ContactCardError Unit :=
  requireCard field ((object.get field.toList).bind Json.asStr == some expected)

def decodeBase64Url (primitives : Primitives) (field : String) (value : Text) :
    Except ContactCardError (List UInt8) :=
  match if isValidIssuerKeyIdentifier value then primitives.base64Decode value else none with
  | some bytes => .ok bytes
  | none => .error (.invalidField field)

/-- An expiry is an integer, null or absent; the clock must not have reached it. -/
def requireUnexpired (payload : Json) (verifierTime : UnixSeconds) :
    Except ContactCardError Unit :=
  match payload.get "expires_at_unix_seconds".toList with
  | none | some .null => .ok ()
  | some value =>
    match value.asU64 with
    | none => .error (.invalidField "expires_at_unix_seconds")
    | some expiresAt =>
      requireCard "expires_at_unix_seconds" (verifierTime.toInt < castSigned expiresAt)

def decodeDerArray (primitives : Primitives) (value : Json) :
    Except ContactCardError (List (List UInt8)) :=
  match value.asArray with
  | none => .error (.invalidField "intermediate_chain_der")
  | some items => items.mapM fun item =>
    match item.asStr with
    | none => .error (.invalidField "intermediate_chain_der")
    | some encoded => decodeBase64Url primitives "intermediate_chain_der" encoded

/-- The authority key identifier of the first certificate in the bytes. -/
def extractAuthorityKeyIdentifier (primitives : TrustPrimitives) (der : List UInt8) :
    Option (List UInt8) :=
  match primitives.parse der with
  | .ok (_, certificate) => certificate.authorityKeyIdentifier
  | .error _ => none

/-- The intermediates of a card; where it has none, the issuer of the leaf is
looked up. -/
def resolveIntermediates (primitives : TrustPrimitives) (resolver : Option IntermediateResolver)
    (leafDer : List UInt8) (embedded : List (List UInt8)) :
    Except ContactCardError (List (List UInt8)) :=
  if embedded ≠ [] then .ok embedded
  else
    match extractAuthorityKeyIdentifier primitives leafDer with
    | none => .ok []
    | some leafAki =>
      let miss := ContactCardError.intermediateCacheMiss (primitives.base64Encode leafAki)
      match resolver with
      | none => .error (miss "no intermediate resolver configured".toList)
      | some resolve =>
        match resolve leafAki with
        | .ok (some intermediate) => .ok [intermediate]
        | .ok none =>
          .error (miss "intermediate certificate not found in cache or online".toList)
        | .error failure => .error (miss failure)

/-- A text that an object has under a name. -/
def Json.hasString (object : Json) (field : String) (expected : Text) : Bool :=
  (object.get field.toList).bind Json.asStr == some expected

/-- An absent organization reads as null. -/
def claimsOrganization : Option Json → Option Text → Bool
  | none, none | some .null, none => true
  | some value, some organization => value.asStr == some organization
  | _, _ => false

/-- The claimed metadata, with an absent organization read as null, are those of
the certificate: the same fields with the same values, in any order. -/
def claimsMetadata (claimed : Json) (metadata : CertificatePublicMetadata) : Bool :=
  match claimed with
  | .object fields =>
    (fields.all fun field => ["version".toList, "public_signer_id".toList,
      "public_org_id".toList, "public_device_id".toList, "assurance_level".toList,
      "policy_oid".toList].contains field.1) &&
    (claimed.get "version".toList).bind Json.asU64 == some metadata.version &&
    claimed.hasString "public_signer_id" metadata.publicSignerId &&
    claimsOrganization (claimed.get "public_org_id".toList) metadata.publicOrgId &&
    claimed.hasString "public_device_id" metadata.publicDeviceId &&
    claimed.hasString "assurance_level" metadata.assuranceLevel.asStr &&
    claimed.hasString "policy_oid" metadata.policyOid
  | _ => false

/-- The payload, the signature and the leaf of a card of the right form. -/
def readCard (primitives : Primitives) (card : Json) (verifierTime : UnixSeconds) :
    Except ContactCardError (Json × List UInt8 × List UInt8) := do
  requireCard "$" card.isObject
  requireU64 card "version" contactCardContainerVersion
  requireStringEquals card "signature_algorithm" contactCardSignatureAlgorithm
  let payload ← jsonField card "payload"
  requireCard "payload" payload.isObject
  requireU64 payload "contact_card_version" contactCardPayloadVersion
  requireStringEquals payload "recipient_key_algorithm" recipientEncryptionKeyAlgorithm
  requireUnexpired payload verifierTime
  let signature ← decodeBase64Url primitives "signature" (← jsonString card "signature")
  let leafDer ← decodeBase64Url primitives "signing_certificate_der"
    (← jsonString payload "signing_certificate_der")
  return (payload, signature, leafDer)

/-- The intermediates that the payload of a card has. -/
def embeddedIntermediates (primitives : Primitives) (payload : Json) :
    Except ContactCardError (List (List UInt8)) :=
  match payload.get "intermediate_chain_der".toList with
  | some value => decodeDerArray primitives value
  | none => .ok []

/-- What a card says about its certificate and its key, and its signature. -/
def verifyCardContent (primitives : ContactCardPrimitives) (payload : Json)
    (signature leafDer : List UInt8) (validation : CertificateProfileValidation)
    (missingStatusCaveat : Bool) : Except ContactCardError VerifiedContactCard := do
  let claimedMetadata ← jsonField payload "signing_public_metadata"
  requireCard "signing_public_metadata" (claimsMetadata claimedMetadata validation.publicMetadata)
  let signingCertificateSha256 := sha256Identifier primitives.toPrimitives leafDer
  requireCard "signing_certificate_sha256"
    (signingCertificateSha256 == (← jsonString payload "signing_certificate_sha256"))
  let recipientPublicKey ← decodeBase64Url primitives.toPrimitives "recipient_public_key"
    (← jsonString payload "recipient_public_key")
  let recipientPublicKeyFingerprint :=
    sha256Identifier primitives.toPrimitives recipientPublicKey
  requireCard "recipient_key_fingerprint"
    (recipientPublicKeyFingerprint == (← jsonString payload "recipient_key_fingerprint"))
  let canonicalPayload ← (primitives.canonicalize payload).mapError .canonicalization
  let verified ← (primitives.verifySignature leafDer canonicalPayload signature).mapError .crypto
  if !verified then .error (.crypto "contact-card signature did not verify".toList)
  else do
    let displayName ← jsonString payload "display_name"
    return {
      payload
      trustAnchorType := validation.trustAnchorType
      verificationState := .cryptographicallyIntactOffline
      missingStatusCaveat
      signingCertificateSha256
      recipientPublicKeyFingerprint
      displayName }

/-- Checks a card and yields the contact. -/
def verifyContactCard (primitives : ContactCardPrimitives) (card : Json)
    (options : ContactCardImportOptions) (missingStatusCaveat : Bool) :
    Except ContactCardError VerifiedContactCard := do
  let (payload, signature, leafDer) ← readCard primitives.toPrimitives card options.verifierTime
  let embedded ← embeddedIntermediates primitives.toPrimitives payload
  let intermediates ← resolveIntermediates primitives.toTrustPrimitives
    options.intermediateResolver leafDer embedded
  let validation ← validateContactCardChain primitives.toTrustPrimitives
    (leafDer :: intermediates) options.toOfflineVerificationOptions
  verifyCardContent primitives payload signature leafDer validation missingStatusCaveat

/-! ## Reading the fields of a card -/

@[simp] theorem requireCard_eq_ok {field : String} {holds : Bool} {done : Unit} :
    requireCard field holds = .ok done ↔ holds = true := by
  cases holds <;> simp [requireCard]

theorem Json.asU64_ofNat_eq_some {number value : Nat} :
    (Json.ofNat number).asU64 = some value ↔ number = value ∧ value < 2 ^ 64 := by
  have digits : (Nat.toDigits 10 number).all Char.isDigit = true :=
    List.all_eq_true.mpr fun _ member => Text.isDigit_of_mem_decimal member
  have nonempty : Nat.toDigits 10 number ≠ [] :=
    List.ne_nil_of_length_pos Nat.length_toDigits_pos
  unfold ofNat asU64
  simp only [digits, nonempty, Nat.ofDigitChars_ten_toDigits, ne_eq, not_false_eq_true, true_and]
  split_ifs with small
  · rw [Option.some_inj]
    exact ⟨fun same => ⟨same, same ▸ small⟩, And.left⟩
  · exact iff_of_false nofun fun both => small (both.1 ▸ both.2)

theorem jsonString_eq_ok {object : Json} {field : String} {value : Text} :
    jsonString object field = .ok value ↔
      object.get field.toList = some (.string value) ∧ value ≠ [] := by
  unfold jsonString
  cases found : object.get field.toList with
  | none => simp
  | some item =>
    cases item with
    | string text => cases text <;> simp [Json.asStr]; grind
    | _ => simp [Json.asStr]

section

variable {primitives : ContactCardPrimitives} {request : ContactCardExportRequest}
  {recipientKey : RecipientEncryptionKey} {certificate : EnrolledCertificate}

variable {bytes : List UInt8}

/-- The two forms of a card differ in one field. -/
theorem contactCardPayload_get {key : Text} (other : key ≠ "intermediate_chain_der".toList) :
    (contactCardPayload primitives.toTrustPrimitives request recipientKey certificate).get key =
      (contactCardFields primitives.toPrimitives request recipientKey certificate).lookup key := by
  unfold contactCardPayload
  split_ifs
  · rfl
  · have absent : (key == "intermediate_chain_der".toList) = false := beq_false_of_ne other
    simp only [Json.get, List.lookup_append, List.lookup_cons, absent]
    simp

/-- A name of a field that both forms have, and what stands there. -/
theorem contactCardPayload_get_of_lookup {key : Text} {value : Json}
    (other : key ≠ "intermediate_chain_der".toList)
    (found : (contactCardFields primitives.toPrimitives request recipientKey certificate).lookup
      key = some value) :
    (contactCardPayload primitives.toTrustPrimitives request recipientKey certificate).get key =
      some value :=
  (contactCardPayload_get other).trans found

theorem contactCardPayload_isObject :
    (contactCardPayload primitives.toTrustPrimitives request recipientKey
      certificate).isObject = true := by
  unfold contactCardPayload
  split_ifs <;> rfl

/-- What is relied on of the libraries: encoded bytes are base64url text that
decodes to them, no certificate is made of no bytes, and a signature verifies
with a certificate exactly when the private key is that of the certificate. -/
structure CardsSound (primitives : ContactCardPrimitives)
    (owns : List UInt8 → List UInt8 → Prop) : Prop where
  emptyText : primitives.base64Encode [] = []
  encoded : ∀ bytes, bytes ≠ [] →
    isValidIssuerKeyIdentifier (primitives.base64Encode bytes) = true
  decoded : ∀ bytes, primitives.base64Decode (primitives.base64Encode bytes) = some bytes
  emptyCertificate : ∀ parsed, primitives.parse [] ≠ .ok parsed
  signed : ∀ {privateKey message signature}, primitives.sign privateKey message = .ok signature →
    ∀ leafDer, primitives.verifySignature leafDer message signature.toList = .ok true ↔
      owns privateKey leafDer

variable {owns : List UInt8 → List UInt8 → Prop} (sound : CardsSound primitives owns)

include sound

theorem CardsSound.decodeBase64Url_encode (field : String) (nonempty : bytes ≠ []) :
    decodeBase64Url primitives.toPrimitives field (primitives.base64Encode bytes) = .ok bytes := by
  unfold decodeBase64Url
  rw [if_pos (sound.encoded bytes nonempty), sound.decoded]

theorem CardsSound.base64Encode_ne_nil (nonempty : bytes ≠ []) :
    primitives.base64Encode bytes ≠ [] := by
  intro blank
  have valid := sound.encoded bytes nonempty
  rw [blank] at valid
  cases valid

/-- A text field that holds bytes is read back as them, but for no bytes. -/
theorem CardsSound.decode_field_eq_ok {object : Json} {field : String} {read : List UInt8}
    (found : object.get field.toList = some (.string (primitives.base64Encode bytes))) :
    (jsonString object field >>= decodeBase64Url primitives.toPrimitives field) = .ok read ↔
      bytes ≠ [] ∧ bytes = read := by
  simp only [Except.bind_eq_ok_iff, jsonString_eq_ok, found, Option.some_inj, Json.string.injEq]
  constructor
  · rintro ⟨text, ⟨rfl, filled⟩, decoded⟩
    have nonempty : bytes ≠ [] := by
      rintro rfl
      exact filled sound.emptyText
    rw [sound.decodeBase64Url_encode field nonempty] at decoded
    exact ⟨nonempty, Except.ok.inj decoded⟩
  · rintro ⟨nonempty, rfl⟩
    exact ⟨_, ⟨rfl, sound.base64Encode_ne_nil nonempty⟩,
      sound.decodeBase64Url_encode field nonempty⟩

end

section

variable {primitives : ContactCardPrimitives} {request : ContactCardExportRequest}
  {recipientKey : RecipientEncryptionKey} {certificate : EnrolledCertificate}
  {owns : List UInt8 → List UInt8 → Prop}

/-- The time has not reached the expiry that a card asks for. -/
def ContactCardExportRequest.UnexpiredAt (request : ContactCardExportRequest)
    (time : UnixSeconds) : Prop :=
  ∀ expiresAt, request.expiresAt = some expiresAt → time.toInt < castSigned expiresAt.toNat

theorem requireUnexpired_payload {time : UnixSeconds} {done : Unit} :
    requireUnexpired (contactCardPayload primitives.toTrustPrimitives request recipientKey
      certificate) time = .ok done ↔ request.UnexpiredAt time := by
  have stored : (contactCardPayload primitives.toTrustPrimitives request recipientKey
      certificate).get "expires_at_unix_seconds".toList =
        some (request.expiresAt.elim .null (.ofNat ·.toNat)) :=
    contactCardPayload_get_of_lookup (by decide) rfl
  unfold requireUnexpired ContactCardExportRequest.UnexpiredAt
  rw [stored]
  cases request.expiresAt with
  | none => simp
  | some expiresAt =>
    have read : (Json.ofNat expiresAt.toNat).asU64 = some expiresAt.toNat :=
      Json.asU64_ofNat_eq_some.mpr ⟨rfl, expiresAt.toNat_lt⟩
    unfold Json.ofNat at read
    simp [Json.ofNat, read]

theorem CardsSound.readCard_eq_ok (sound : CardsSound primitives owns) {time : UnixSeconds}
    {signature : List.Vector UInt8 64} (nonempty : certificate.leafCertificateDer ≠ [])
    {read : Json × List UInt8 × List UInt8} :
    readCard primitives.toPrimitives (contactCard primitives.toPrimitives
        (contactCardPayload primitives.toTrustPrimitives request recipientKey certificate)
        signature) time = .ok read ↔
      (recipientKey.algorithm = recipientEncryptionKeyAlgorithm ∧ request.UnexpiredAt time) ∧
        read = (contactCardPayload primitives.toTrustPrimitives request recipientKey certificate,
          signature.toList, certificate.leafCertificateDer) := by
  generalize payload_eq : contactCardPayload primitives.toTrustPrimitives request recipientKey
    certificate = payload
  have isObject : payload.isObject = true := payload_eq ▸ contactCardPayload_isObject
  have version : payload.get "contact_card_version".toList = some (.ofNat 1) :=
    payload_eq ▸ contactCardPayload_get_of_lookup (by decide) rfl
  have algorithm : payload.get "recipient_key_algorithm".toList =
      some (.string recipientKey.algorithm) :=
    payload_eq ▸ contactCardPayload_get_of_lookup (by decide) rfl
  have leaf : payload.get "signing_certificate_der".toList =
      some (.string (primitives.base64Encode certificate.leafCertificateDer)) :=
    payload_eq ▸ contactCardPayload_get_of_lookup (by decide) rfl
  have expiry : ∀ {done}, requireUnexpired payload time = .ok done ↔ request.UnexpiredAt time :=
    payload_eq ▸ requireUnexpired_payload
  have filled : signature.toList ≠ [] := List.ne_nil_of_length_pos (by simp)
  have signed : ∀ {bytes}, (jsonString (contactCard primitives.toPrimitives payload signature)
      "signature" >>= decodeBase64Url primitives.toPrimitives "signature") = .ok bytes ↔
        signature.toList ≠ [] ∧ signature.toList = bytes := sound.decode_field_eq_ok rfl
  have named : ∀ {bytes}, (jsonString payload "signing_certificate_der" >>=
      decodeBase64Url primitives.toPrimitives "signing_certificate_der") = .ok bytes ↔
        certificate.leafCertificateDer ≠ [] ∧ certificate.leafCertificateDer = bytes :=
    sound.decode_field_eq_ok leaf
  unfold readCard
  simp only [Except.bind_eq_ok_iff]
  constructor
  · rintro ⟨_, -, _, -, _, -, inner, found, _, -, _, -, _, known, _, current, signatureText,
      signatureRead, bytes, decoded, leafText, leafRead, leafDer, leafDecoded, same⟩
    cases found
    obtain ⟨-, rfl⟩ := signed.mp (Except.bind_eq_ok_iff.mpr ⟨_, signatureRead, decoded⟩)
    obtain ⟨-, rfl⟩ := named.mp (Except.bind_eq_ok_iff.mpr ⟨_, leafRead, leafDecoded⟩)
    unfold requireStringEquals at known
    rw [algorithm, requireCard_eq_ok] at known
    cases same
    exact ⟨⟨Option.some.inj (eq_of_beq known), expiry.mp current⟩, rfl⟩
  · rintro ⟨⟨known, current⟩, rfl⟩
    obtain ⟨signatureText, signatureRead, decoded⟩ :=
      Except.bind_eq_ok_iff.mp (signed.mpr ⟨filled, rfl⟩)
    obtain ⟨leafText, leafRead, leafDecoded⟩ :=
      Except.bind_eq_ok_iff.mp (named.mpr ⟨nonempty, rfl⟩)
    refine ⟨(), rfl, (), ?_, (), ?_, payload, rfl, (), requireCard_eq_ok.mpr isObject, (), ?_,
      (), ?_, (), expiry.mpr current, signatureText, signatureRead, _, decoded, leafText,
      leafRead, _, leafDecoded, rfl⟩
    · change requireCard "version" ((Json.ofNat 1).asU64 == some 1) = .ok ()
      decide
    · exact requireCard_eq_ok.mpr (beq_self_eq_true _)
    · unfold requireU64
      rw [version]
      decide
    · unfold requireStringEquals
      rw [algorithm, known]
      decide

theorem embeddedIntermediates_compact (compact : request.compact = true) :
    embeddedIntermediates primitives.toPrimitives (contactCardPayload primitives.toTrustPrimitives
      request recipientKey certificate) = .ok [] := by
  unfold embeddedIntermediates contactCardPayload
  rw [if_pos compact]
  rfl

theorem CardsSound.embeddedIntermediates_full (sound : CardsSound primitives owns)
    (full : request.compact = false)
    (filled : ∀ der ∈ publicIntermediateChainDer primitives.toTrustPrimitives
      certificate.intermediateChainDer, der ≠ []) :
    embeddedIntermediates primitives.toPrimitives (contactCardPayload primitives.toTrustPrimitives
      request recipientKey certificate) =
        .ok (publicIntermediateChainDer primitives.toTrustPrimitives
          certificate.intermediateChainDer) := by
  have stored : (contactCardPayload primitives.toTrustPrimitives request recipientKey
      certificate).get "intermediate_chain_der".toList =
        some (.array ((publicIntermediateChainDer primitives.toTrustPrimitives
          certificate.intermediateChainDer).map fun der =>
            .string (primitives.base64Encode der))) := by
    unfold contactCardPayload
    rw [if_neg (by simp [full])]
    rfl
  unfold embeddedIntermediates
  rw [stored]
  generalize publicIntermediateChainDer primitives.toTrustPrimitives
    certificate.intermediateChainDer = chain at filled
  change (chain.map fun der => Json.string (primitives.base64Encode der)).mapM _ = _
  induction chain with
  | nil => rfl
  | cons der rest ih =>
    have first := sound.decodeBase64Url_encode "intermediate_chain_der"
      (filled der List.mem_cons_self)
    have others := ih fun other member => filled other (List.mem_cons_of_mem _ member)
    rw [List.map_cons, List.mapM_cons, others]
    dsimp only [Json.asStr]
    rw [first]
    rfl

/-- A text in a JSON object. -/
theorem Json.hasString_iff {object : Json} {field : String} {value expected : Text}
    (found : object.get field.toList = some (.string value)) :
    object.hasString field expected = true ↔ value = expected := by
  unfold hasString
  rw [found, beq_iff_eq, Option.bind_some]
  exact Option.some_inj

theorem IdentityAssurance.asStr_inj {left right : IdentityAssurance} :
    left.asStr = right.asStr ↔ left = right := by
  cases left <;> cases right <;> decide

theorem claimsMetadata_iff {claimed metadata : CertificatePublicMetadata} :
    claimsMetadata (publicMetadataPayload claimed) metadata = true ↔
      claimed = metadata ∧ metadata.version < 2 ^ 64 := by
  have version : (((publicMetadataPayload claimed).get "version".toList).bind Json.asU64 ==
      some metadata.version) = true ↔
        claimed.version = metadata.version ∧ metadata.version < 2 ^ 64 := by
    rw [beq_iff_eq]
    exact Json.asU64_ofNat_eq_some
  have signer := @Json.hasString_iff (publicMetadataPayload claimed) "public_signer_id"
    claimed.publicSignerId metadata.publicSignerId rfl
  have device := @Json.hasString_iff (publicMetadataPayload claimed) "public_device_id"
    claimed.publicDeviceId metadata.publicDeviceId rfl
  have assurance := @Json.hasString_iff (publicMetadataPayload claimed) "assurance_level"
    claimed.assuranceLevel.asStr metadata.assuranceLevel.asStr rfl
  have policy := @Json.hasString_iff (publicMetadataPayload claimed) "policy_oid"
    claimed.policyOid metadata.policyOid rfl
  have organization : claimsOrganization ((publicMetadataPayload claimed).get
      "public_org_id".toList) metadata.publicOrgId = true ↔
        claimed.publicOrgId = metadata.publicOrgId := by
    change claimsOrganization (some (claimed.publicOrgId.elim .null .string)) _ = true ↔ _
    cases claimed.publicOrgId <;> cases metadata.publicOrgId <;>
      simp [claimsOrganization, Json.asStr]
  have whole : claimsMetadata (publicMetadataPayload claimed) metadata =
      (((publicMetadataPayload claimed).get "version".toList).bind Json.asU64 ==
          some metadata.version &&
        (publicMetadataPayload claimed).hasString "public_signer_id" metadata.publicSignerId &&
        claimsOrganization ((publicMetadataPayload claimed).get "public_org_id".toList)
          metadata.publicOrgId &&
        (publicMetadataPayload claimed).hasString "public_device_id" metadata.publicDeviceId &&
        (publicMetadataPayload claimed).hasString "assurance_level"
          metadata.assuranceLevel.asStr &&
        (publicMetadataPayload claimed).hasString "policy_oid" metadata.policyOid) := rfl
  rw [whole]
  simp only [Bool.and_eq_true, version, signer, organization, device, assurance, policy,
    IdentityAssurance.asStr_inj]
  constructor
  · rintro ⟨⟨⟨⟨⟨⟨sameVersion, small⟩, sameSigner⟩, sameOrganization⟩, sameDevice⟩,
      sameAssurance⟩, samePolicy⟩
    cases claimed
    cases metadata
    cases sameVersion
    cases sameSigner
    cases sameOrganization
    cases sameDevice
    cases sameAssurance
    cases samePolicy
    exact ⟨rfl, small⟩
  · rintro ⟨rfl, small⟩
    exact ⟨⟨⟨⟨⟨⟨rfl, small⟩, rfl⟩, rfl⟩, rfl⟩, rfl⟩, rfl⟩

end

/-! ## The trust in the chain of a card -/

section

variable (primitives : TrustPrimitives) (options : OfflineVerificationOptions)
  (embeddedChainDer : List (List UInt8))

/-- The profile at the time of the verifier. -/
def OfflineVerificationOptions.timedProfile (options : OfflineVerificationOptions) :
    CertificateProfileOptions :=
  options.certificateProfileOptions.at options.verifierTime.toInt.toNat

/-- Some chain ends in an official root. -/
def OfficiallyTrusted : Prop :=
  ∃ chainDer ∈ candidateChains embeddedChainDer options.officialRootCertificatesDer,
    ∃ validation, validateOfficialCertificateChain primitives options.officialRootPins
      options.timedProfile chainDer = .ok validation

/-- Some chain ends in a configured root. -/
def CustomTrusted : Prop :=
  ∃ chainDer ∈ candidateChains embeddedChainDer options.customTrustRootCertificatesDer,
    endsInConfiguredRoot primitives options chainDer = true ∧
    ∃ validation, validateCustomCertificateChain primitives options.timedProfile chainDer =
      .ok validation

/-- The profile trusts an embedded chain by an anchor of this kind, the official
roots before the configured ones. -/
def AnchoredIn : TrustAnchorType → Prop
  | .officialTzap => OfficiallyTrusted primitives options embeddedChainDer
  | .custom => ¬OfficiallyTrusted primitives options embeddedChainDer ∧
      CustomTrusted primitives options embeddedChainDer
  | .untrusted => False

end

theorem exists_of_firstValid_eq_ok {α ε : Type} {validate : List (List UInt8) → Except ε α}
    {failure : Option ε} {chains : List (List (List UInt8))} {validation : α}
    (done : firstValid validate failure chains = .ok validation) :
    ∃ chain ∈ chains, validate chain = .ok validation := by
  induction chains generalizing failure with
  | nil => cases done
  | cons chain rest ih =>
    rw [firstValid] at done
    cases first : validate chain with
    | ok found =>
      rw [first] at done
      cases done
      exact ⟨chain, List.mem_cons_self, first⟩
    | error found =>
      rw [first] at done
      obtain ⟨other, member, accepted⟩ := ih done
      exact ⟨other, List.mem_cons_of_mem _ member, accepted⟩

theorem exists_append_of_mem_candidateChains {embeddedChainDer chainDer : List (List UInt8)}
    {roots : List (List UInt8)} (member : chainDer ∈ candidateChains embeddedChainDer roots) :
    ∃ back, chainDer = embeddedChainDer ++ back := by
  rcases List.mem_cons.mp member with rfl | inside
  · exact ⟨[], (List.append_nil _).symm⟩
  · obtain ⟨root, -, rfl⟩ := List.mem_map.mp inside
    exact ⟨[root], rfl⟩

section

variable {primitives : TrustPrimitives} {options : OfflineVerificationOptions}
  {leafDer : List UInt8} {back : List (List UInt8)} {anchor : TrustAnchorType}

variable {validation : CertificateProfileValidation}

/-- Candidates of a kind validate by an anchor of that kind, with the metadata of the leaf. -/
theorem exists_of_candidate_validated {roots : List (List UInt8)} {pins : Option RootPinSet}
    {profileOptions : CertificateProfileOptions} {chainDer : List (List UInt8)}
    (member : chainDer ∈ candidateChains (leafDer :: back) roots)
    (validated : validateCertificateChain primitives pins anchor profileOptions chainDer =
      .ok validation) :
    validation.trustAnchorType = anchor ∧ ∃ leaf, primitives.parse leafDer = .ok (false, leaf) ∧
      leaf.publicMetadata = .ok validation.publicMetadata := by
  obtain ⟨others, rfl⟩ := exists_append_of_mem_candidateChains member
  obtain ⟨leaf, _, _, parsed, -, -, -, profiled, kind⟩ := exists_of_validated validated
  exact ⟨kind, leaf, parsed, (leafProfile_eq_ok profiled).2⟩

/-- A chain that is accepted is trusted by the anchor it is accepted with. -/
theorem anchored_of_validateContactCardChain (positive : 0 ≤ options.verifierTime)
    (accepted : validateContactCardChain primitives (leafDer :: back) options = .ok validation) :
    AnchoredIn primitives options (leafDer :: back) validation.trustAnchorType ∧
      ∃ leaf, primitives.parse leafDer = .ok (false, leaf) ∧
        leaf.publicMetadata = .ok validation.publicMetadata := by
  unfold validateContactCardChain at accepted
  rw [if_neg (Int64.not_lt.mpr positive)] at accepted
  unfold validateCandidates at accepted
  cases first : firstValid (validateOfficialCertificateChain primitives options.officialRootPins
      (options.certificateProfileOptions.at options.verifierTime.toInt.toNat)) none
      (candidateChains (leafDer :: back) options.officialRootCertificatesDer) with
  | ok found =>
    rw [first] at accepted
    cases accepted
    obtain ⟨chainDer, member, validated⟩ := exists_of_firstValid_eq_ok first
    have facts := exists_of_candidate_validated member validated
    rw [facts.1]
    exact ⟨⟨chainDer, member, _, validated⟩, facts.2⟩
  | error failure =>
    have unofficial : ¬OfficiallyTrusted primitives options (leafDer :: back) := by
      intro trusted
      obtain ⟨_, done⟩ := (@firstValid_eq_ok_iff _ _ _ none _).mpr trusted
      cases first.symm.trans done
    rw [first] at accepted
    cases second : firstValid (validateCustomCertificateChain primitives
        (options.certificateProfileOptions.at options.verifierTime.toInt.toNat)) none
        ((candidateChains (leafDer :: back) options.customTrustRootCertificatesDer).filter
          (endsInConfiguredRoot primitives options)) with
    | ok found =>
      rw [second] at accepted
      cases accepted
      obtain ⟨chainDer, member, validated⟩ := exists_of_firstValid_eq_ok second
      obtain ⟨candidate, configured⟩ := List.mem_filter.mp member
      have facts := exists_of_candidate_validated candidate validated
      rw [facts.1]
      exact ⟨⟨unofficial, chainDer, candidate, configured, _, validated⟩, facts.2⟩
    | error other =>
      rw [second] at accepted
      cases failure <;> cases other <;> cases accepted

theorem AnchoredIn.unique {embeddedChainDer : List (List UInt8)} {other : TrustAnchorType}
    (anchored : AnchoredIn primitives options embeddedChainDer anchor)
    (otherwise : AnchoredIn primitives options embeddedChainDer other) : anchor = other := by
  cases anchor <;> cases other
  case officialTzap.officialTzap | custom.custom => rfl
  case officialTzap.custom => exact absurd anchored otherwise.1
  case custom.officialTzap => exact absurd otherwise anchored.1
  case officialTzap.untrusted | custom.untrusted => cases otherwise
  all_goals cases anchored

/-- A trusted chain is accepted, with the anchor it is trusted by. -/
theorem exists_validation_of_anchored (positive : 0 ≤ options.verifierTime)
    (anchored : AnchoredIn primitives options (leafDer :: back) anchor) :
    ∃ validation, validateContactCardChain primitives (leafDer :: back) options =
      .ok validation ∧ validation.trustAnchorType = anchor := by
  have candidate : ∃ validation, validateCandidates primitives options options.timedProfile
      (leafDer :: back) = .ok validation := by
    rw [validateCandidates_eq_ok_iff]
    cases anchor with
    | officialTzap =>
      obtain ⟨chainDer, member, validated⟩ := anchored
      exact ⟨chainDer, .inl ⟨member, validated⟩⟩
    | custom =>
      obtain ⟨-, chainDer, member, configured, validated⟩ := anchored
      exact ⟨chainDer, .inr ⟨member, configured, validated⟩⟩
    | untrusted => cases anchored
  obtain ⟨validation, done⟩ := candidate
  have accepted : validateContactCardChain primitives (leafDer :: back) options =
      .ok validation := by
    unfold validateContactCardChain
    rw [if_neg (Int64.not_lt.mpr positive)]
    change (validateCandidates primitives options options.timedProfile (leafDer :: back)).mapError
      ContactCardError.certificateChain = _
    rw [done]
    rfl
  exact ⟨validation, accepted,
    (anchored_of_validateContactCardChain positive accepted).1.unique anchored⟩

end

/-! ## What an exported card verifies to -/

/-- The records of an identity that a card is made of. -/
structure CardRecords where
  recipientKey : RecipientEncryptionKey
  certificate : EnrolledCertificate
  signingKey : DeviceSigningKey

/-- The inventory holds the records that a request names. -/
structure CardRecords.NamedIn (inventory : Inventory) (request : ContactCardExportRequest)
    (records : CardRecords) : Prop where
  recipientKey : inventory.recipientEncryptionKeys.find? (fun record =>
    record.keyId == request.recipientKeyId) = some records.recipientKey
  certificate : inventory.enrolledCertificates.find? (fun record =>
    record.certificateId == request.certificateId) = some records.certificate
  signingKey : inventory.deviceSigningKeys.find? (fun record =>
    record.keyId == records.certificate.signingKeyId) = some records.signingKey

/-- The records fit each other, and the card is current: what a verifier asks for
besides the trust in the chain. -/
structure CardRecords.Presentable (primitives : ContactCardPrimitives)
    (owns : List UInt8 → List UInt8 → Prop) (request : ContactCardExportRequest)
    (time : UnixSeconds) (records : CardRecords) : Prop where
  algorithm : records.recipientKey.algorithm = recipientEncryptionKeyAlgorithm
  unexpired : request.UnexpiredAt time
  metadata : ∃ leaf, primitives.parse records.certificate.leafCertificateDer = .ok (false, leaf) ∧
    leaf.publicMetadata = .ok records.certificate.publicMetadata
  version : records.certificate.publicMetadata.version < 2 ^ 64
  certificateSha256 : records.certificate.certificateSha256 =
    sha256Identifier primitives.toPrimitives records.certificate.leafCertificateDer
  publicKey : records.recipientKey.publicKeyDer ≠ []
  fingerprint : records.recipientKey.publicKeyFingerprint =
    sha256Identifier primitives.toPrimitives records.recipientKey.publicKeyDer
  signer : owns records.signingKey.privateKeyDer records.certificate.leafCertificateDer

section

variable {primitives : ContactCardPrimitives} {owns : List UInt8 → List UInt8 → Prop}
  {request : ContactCardExportRequest} {records : CardRecords}

variable {signature : List.Vector UInt8 64} {missingStatusCaveat : Bool}
  {card : VerifiedContactCard}

def CardRecords.payload (primitives : TrustPrimitives) (request : ContactCardExportRequest)
    (records : CardRecords) : Json :=
  contactCardPayload primitives request records.recipientKey records.certificate

/-- What a verifier gets of a card. -/
def CardRecords.verified (primitives : TrustPrimitives) (request : ContactCardExportRequest)
    (records : CardRecords) (trustAnchorType : TrustAnchorType) (missingStatusCaveat : Bool) :
    VerifiedContactCard where
  payload := records.payload primitives request
  trustAnchorType
  verificationState := .cryptographicallyIntactOffline
  missingStatusCaveat
  signingCertificateSha256 :=
    sha256Identifier primitives.toPrimitives records.certificate.leafCertificateDer
  recipientPublicKeyFingerprint :=
    sha256Identifier primitives.toPrimitives records.recipientKey.publicKeyDer
  displayName := request.displayName

theorem CardsSound.verifyCardContent_eq_ok (sound : CardsSound primitives owns)
    (titled : request.displayName ≠ []) {message : List UInt8}
    (canonical : primitives.canonicalize (records.payload primitives.toTrustPrimitives request) =
      .ok message)
    (signed : primitives.sign records.signingKey.privateKeyDer message = .ok signature)
    {validation : CertificateProfileValidation} :
    verifyCardContent primitives (records.payload primitives.toTrustPrimitives request)
        signature.toList records.certificate.leafCertificateDer validation missingStatusCaveat =
          .ok card ↔
      (records.certificate.publicMetadata = validation.publicMetadata ∧
        validation.publicMetadata.version < 2 ^ 64 ∧
        records.certificate.certificateSha256 =
          sha256Identifier primitives.toPrimitives records.certificate.leafCertificateDer ∧
        records.recipientKey.publicKeyDer ≠ [] ∧
        records.recipientKey.publicKeyFingerprint =
          sha256Identifier primitives.toPrimitives records.recipientKey.publicKeyDer ∧
        owns records.signingKey.privateKeyDer records.certificate.leafCertificateDer) ∧
      card = records.verified primitives.toTrustPrimitives request validation.trustAnchorType
        missingStatusCaveat := by
  have field : ∀ {key value}, key ≠ "intermediate_chain_der".toList →
      (contactCardFields primitives.toPrimitives request records.recipientKey
        records.certificate).lookup key = some value →
      (records.payload primitives.toTrustPrimitives request).get key = some value :=
    contactCardPayload_get_of_lookup
  have metadata := @field "signing_public_metadata".toList _ (by decide) rfl
  have certificateSha256 := @field "signing_certificate_sha256".toList _ (by decide) rfl
  have publicKey := @field "recipient_public_key".toList _ (by decide) rfl
  have fingerprint := @field "recipient_key_fingerprint".toList _ (by decide) rfl
  have title := @field "display_name".toList _ (by decide) rfl
  have verifies := sound.signed signed records.certificate.leafCertificateDer
  have decoded : ∀ {bytes}, (jsonString (records.payload primitives.toTrustPrimitives request)
      "recipient_public_key" >>=
        decodeBase64Url primitives.toPrimitives "recipient_public_key") = .ok bytes ↔
      records.recipientKey.publicKeyDer ≠ [] ∧ records.recipientKey.publicKeyDer = bytes :=
    sound.decode_field_eq_ok publicKey
  unfold verifyCardContent jsonField
  rw [metadata, canonical]
  simp only [Except.bind_eq_ok_iff, Except.mapError_eq_ok, jsonString_eq_ok, requireCard_eq_ok,
    certificateSha256, fingerprint, Option.some_inj, Json.string.injEq, beq_iff_eq,
    Except.ok.injEq]
  constructor
  · rintro ⟨_, rfl, _, claims, _, ⟨rfl, -⟩, _, sameSha256, encoded, ⟨found, filled⟩, bytes, read,
      _, ⟨rfl, -⟩, _, sameFingerprint, _, rfl, verified, checked, finished⟩
    obtain ⟨nonempty, rfl⟩ := decoded.mp
      (Except.bind_eq_ok_iff.mpr ⟨encoded, jsonString_eq_ok.mpr ⟨found, filled⟩, read⟩)
    obtain ⟨sameMetadata, small⟩ := claimsMetadata_iff.mp claims
    cases verified with
    | false => cases finished
    | true =>
      obtain ⟨displayName, read, same⟩ := Except.bind_eq_ok_iff.mp finished
      obtain ⟨stored, -⟩ := jsonString_eq_ok.mp read
      rw [title] at stored
      cases stored
      cases same
      exact ⟨⟨sameMetadata, small, sameSha256.symm, nonempty, sameFingerprint.symm,
        verifies.mp checked⟩, rfl⟩
  · rintro ⟨⟨sameMetadata, small, sameSha256, nonempty, sameFingerprint, owned⟩, rfl⟩
    obtain ⟨encoded, stored, read⟩ := Except.bind_eq_ok_iff.mp (decoded.mpr ⟨nonempty, rfl⟩)
    have finished : jsonString (records.payload primitives.toTrustPrimitives request)
        "display_name" = .ok request.displayName := jsonString_eq_ok.mpr ⟨title, titled⟩
    refine ⟨_, rfl, (), claimsMetadata_iff.mpr ⟨sameMetadata, small⟩, _, ⟨rfl, ?_⟩, (),
      sameSha256.symm, encoded, jsonString_eq_ok.mp stored, _, read, _, ⟨rfl, ?_⟩, (),
      sameFingerprint.symm, _, rfl, true, verifies.mpr owned, ?_⟩
    · rw [sameSha256]
      exact sha256Identifier_ne_nil _ _
    · rw [sameFingerprint]
      exact sha256Identifier_ne_nil _ _
    · exact Except.bind_eq_ok_iff.mpr ⟨_, finished, rfl⟩

/-- An exported card verifies where its records are presentable and the rebuilt
chain is trusted. -/
theorem CardsSound.verifyContactCard_eq_ok (sound : CardsSound primitives owns)
    (titled : request.displayName ≠ []) (nonempty : records.certificate.leafCertificateDer ≠ [])
    {message : List UInt8}
    (canonical : primitives.canonicalize (records.payload primitives.toTrustPrimitives request) =
      .ok message)
    (signed : primitives.sign records.signingKey.privateKeyDer message = .ok signature)
    {options : ContactCardImportOptions} (positive : 0 ≤ options.verifierTime)
    {embedded intermediates : List (List UInt8)}
    (stored : embeddedIntermediates primitives.toPrimitives
      (records.payload primitives.toTrustPrimitives request) = .ok embedded)
    (resolved : resolveIntermediates primitives.toTrustPrimitives options.intermediateResolver
      records.certificate.leafCertificateDer embedded = .ok intermediates) :
    verifyContactCard primitives (contactCard primitives.toPrimitives
        (records.payload primitives.toTrustPrimitives request) signature) options
        missingStatusCaveat = .ok card ↔
      records.Presentable primitives owns request options.verifierTime ∧
        ∃ anchor, AnchoredIn primitives.toTrustPrimitives options.toOfflineVerificationOptions
            (records.certificate.leafCertificateDer :: intermediates) anchor ∧
          card = records.verified primitives.toTrustPrimitives request anchor
            missingStatusCaveat := by
  unfold verifyContactCard
  simp only [Except.bind_eq_ok_iff]
  constructor
  · rintro ⟨read, readDone, rest⟩
    obtain ⟨⟨algorithm, unexpired⟩, rfl⟩ := (sound.readCard_eq_ok nonempty).mp readDone
    obtain ⟨found, embeddedDone, chain, resolvedDone, validation, accepted, finished⟩ := rest
    cases embeddedDone.symm.trans stored
    cases resolvedDone.symm.trans resolved
    obtain ⟨anchored, leaf, parsed, metadata⟩ :=
      anchored_of_validateContactCardChain positive accepted
    obtain ⟨⟨sameMetadata, version, sha256, publicKey, fingerprint, signer⟩, same⟩ :=
      (sound.verifyCardContent_eq_ok titled canonical signed).mp finished
    rw [← sameMetadata] at metadata version
    exact ⟨⟨algorithm, unexpired, ⟨leaf, parsed, metadata⟩, version, sha256, publicKey,
      fingerprint, signer⟩, _, anchored, same⟩
  · rintro ⟨presentable, anchor, anchored, rfl⟩
    obtain ⟨validation, accepted, rfl⟩ := exists_validation_of_anchored positive anchored
    obtain ⟨-, leaf, parsed, metadata⟩ := anchored_of_validateContactCardChain positive accepted
    obtain ⟨other, parsedOther, claimed⟩ := presentable.metadata
    rw [parsed] at parsedOther
    cases parsedOther
    rw [metadata] at claimed
    have sameMetadata := Except.ok.inj claimed
    refine ⟨_, (sound.readCard_eq_ok nonempty).mpr
      ⟨⟨presentable.algorithm, presentable.unexpired⟩, rfl⟩, embedded, stored, intermediates,
      resolved, validation, accepted, (sound.verifyCardContent_eq_ok titled canonical signed).mpr
        ⟨⟨sameMetadata.symm, ?_, presentable.certificateSha256, presentable.publicKey,
          presentable.fingerprint, presentable.signer⟩, rfl⟩⟩
    rw [sameMetadata]
    exact presentable.version

theorem findRecord_eq_ok {α : Type} {field : String} {found : α → Bool} {records : List α}
    {record : α} :
    findRecord field found records = .ok record ↔ records.find? found = some record := by
  unfold findRecord
  cases records.find? found <;> simp

/-- What an export of the named records signs. -/
theorem exists_of_exportContactCard {inventory : Inventory}
    (named : records.NamedIn inventory request) {card : Json}
    (exported : exportContactCard primitives inventory request = .ok card) :
    request.displayName ≠ [] ∧ ∃ message signature,
      primitives.canonicalize (records.payload primitives.toTrustPrimitives request) =
        .ok message ∧
      primitives.sign records.signingKey.privateKeyDer message = .ok signature ∧
      card = contactCard primitives.toPrimitives
        (records.payload primitives.toTrustPrimitives request) signature := by
  unfold exportContactCard at exported
  simp only [Except.bind_eq_ok_iff, findRecord_eq_ok] at exported
  obtain ⟨_, valid, recipientKey, recipientFound, certificate, certificateFound, exported⟩ :=
    exported
  cases recipientFound.symm.trans named.recipientKey
  cases certificateFound.symm.trans named.certificate
  have titled : request.displayName ≠ [] := by
    unfold validateExportRequest at valid
    simp only [Except.bind_eq_ok_iff, requireCard_eq_ok] at valid
    obtain ⟨_, -, _, filled, -⟩ := valid
    simpa using filled
  split_ifs at exported with inactive
  simp only [Except.bind_eq_ok_iff, findRecord_eq_ok] at exported
  obtain ⟨signingKey, keyFound, signature, signed, same⟩ := exported
  cases keyFound.symm.trans named.signingKey
  unfold signContactCardPayload at signed
  simp only [Except.bind_eq_ok_iff, Except.mapError_eq_ok] at signed
  obtain ⟨message, canonical, signed⟩ := signed
  exact ⟨titled, message, signature, canonical, signed, (Except.ok.inj same).symm⟩

end

end ZManager.Identity
