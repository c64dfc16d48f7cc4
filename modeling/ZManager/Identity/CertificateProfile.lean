import ZManager.Foundation.Step
import ZManager.Identity.Inventory

/-! # The certificate profile

A chain from a leaf to its root is checked against the document-signing profile:
its order and signatures, its algorithms, the pin of its root, and what each
certificate may be used for. Whether the certificates are in their validity
periods is only checked when the options have a time. The validity checks can be
told apart from the others (`validateCertificateChain_eq_ok_iff`).
-/

namespace ZManager.Identity

/-! ## What is read of a certificate -/

/-- The basic constraints extension. -/
structure BasicConstraints where
  critical : Bool
  ca : Bool
  pathLenConstraint : Option Nat

/-- The key usage extension. -/
structure KeyUsage where
  critical : Bool
  flags : Nat

/-- The extended key usage extension. -/
structure ExtendedKeyUsage where
  any : Bool
  serverAuth : Bool
  clientAuth : Bool
  codeSigning : Bool
  other : List Text

/-- Why a chain does not meet the profile. -/
inductive CertificateProfileError where
  | invalidChainLength (actual : Nat)
  | certificateParse (index : Nat) (detail : Text)
  | chainOrder (childIndex : Nat)
  | signatureValidation (subjectIndex : Nat) (detail : Text)
  | unsupportedAlgorithm (index : Nat) (reason : String)
  | rootNotSelfSigned
  | rootNotPinned (fingerprint : Text)
  | rootProfile (reason : String)
  | intermediateProfile (index : Nat) (reason : String)
  | leafProfile (reason : String)
  | missingMetadata
  | duplicateMetadata
  | criticalMetadata
  | nestedAsn1Metadata
  | malformedMetadata (reason : String)
  | unknownMetadataField (field : Text)
  | metadataPolicyMismatch (policyOid : Text)
  | expired (index : Nat)

/-- A certificate as the library parses it. An extension that is invalid or
stands there twice is an error. -/
structure X509Certificate where
  issuer : List UInt8
  subject : List UInt8
  notBefore : Int
  notAfter : Int
  signatureAlgorithm : Text
  tbsSignatureAlgorithm : Text
  basicConstraints : Except Unit (Option BasicConstraints)
  keyUsage : Except Unit (Option KeyUsage)
  extendedKeyUsage : Except Unit (Option ExtendedKeyUsage)
  /-- The OIDs of the only extended-key-usage extension, where it is a sequence of them. -/
  extendedKeyUsageOids : Option (List (List UInt8))
  /-- The names hold a DNS name or an IP address. -/
  subjectAlternativeName : Except Unit (Option Bool)
  authorityKeyIdentifier : Option (List UInt8)
  subjectKeyIdentifier : Option (List UInt8)
  hasPolicy : Text → Bool
  extensionOids : List Text
  publicMetadata : Except CertificateProfileError CertificatePublicMetadata

/-- The certificate libraries, as functions of DER bytes. -/
structure TrustPrimitives extends Primitives where
  /-- The first certificate, and whether bytes follow it. -/
  parse : List UInt8 → Except Text (Bool × X509Certificate)
  openSslParse : List UInt8 → Except Text Unit
  /-- The signature of the first certificate verifies with the key of the second. -/
  verifies : List UInt8 → List UInt8 → Except Text Bool
  /-- Why the key of a certificate is not one of the curve P-256. -/
  unsupportedKey : List UInt8 → Option String
  oidBytes : Text → Option (List UInt8)

/-- What a chain is checked for. -/
structure CertificateProfileOptions where
  approvedOrgIntermediatePolicyOids : List Text
  approvedLeafPolicyOids : List Text
  /-- The time to check validity at, as a `u64`. -/
  validationTime : Option Nat

/-- The fingerprints of the official roots. -/
structure RootPinSet where
  current : List Text
  plannedSuccessors : List Text

/-- Which list of pins holds a root. -/
inductive OfficialRootPinKind where
  | current
  | plannedSuccessor

/-- What a chain that meets the profile shows. -/
structure CertificateProfileValidation where
  trustAnchorType : TrustAnchorType
  officialRootPinKind : Option OfficialRootPinKind
  rootCertificateSha256 : Text
  publicMetadata : CertificatePublicMetadata

def oidEcdsaWithSha256 : Text := "1.2.840.10045.4.3.2".toList

def oidAnyExtendedKeyUsage : Text := "2.5.29.37.0".toList

def oidServerAuthEku : Text := "1.3.6.1.5.5.7.3.1".toList

def oidClientAuthEku : Text := "1.3.6.1.5.5.7.3.2".toList

def oidCodeSigningEku : Text := "1.3.6.1.5.5.7.3.3".toList

def oidCrlDistributionPoints : Text := "2.5.29.31".toList

def tzapOidDocumentSigningEku : Text := "2.25.201653505380392472132808080578384925035".toList

def tzapOidCaPolicy : Text := "2.25.216801977638581014157980575261877559132".toList

def requiredRootPathLen : Nat := 2

def orgIntermediatePathLen : Nat := 0

def minTzapChainLen : Nat := 3

def maxTzapChainLen : Nat := 4

def maxTzapLeafValidityDays : Nat := 1095

/-- Refuses with the error unless the condition holds. -/
def requireProfile (error : CertificateProfileError) (holds : Bool) :
    Except CertificateProfileError Unit :=
  if holds then .ok () else .error error

/-- An extension that has to be there, once and valid. -/
def requireExtension {α : Type} (error : String → CertificateProfileError)
    (invalid missing : String) :
    Except Unit (Option α) → Except CertificateProfileError α
  | .error () => .error (error invalid)
  | .ok none => .error (error missing)
  | .ok (some value) => .ok value

/-! ## Validity -/

/-- `u64 as i64`. -/
def castSigned (value : Nat) : Int :=
  if value < 2 ^ 63 then value else value - 2 ^ 64

/-- Both ends of the validity period belong to it. -/
def X509Certificate.isValidAt (certificate : X509Certificate) (unixSeconds : Nat) : Bool :=
  certificate.notBefore ≤ castSigned unixSeconds && castSigned unixSeconds ≤ certificate.notAfter

def requireValidAt (time : Option Nat) (index : Nat) (certificate : X509Certificate) :
    Except CertificateProfileError Unit :=
  requireProfile (.expired index) (time.all certificate.isValidAt)

/-! ## Roles -/

/-- The place of an authority in the chain. -/
inductive CertificateRole where
  | root
  | platformIntermediate
  | organizationIntermediate
  deriving DecidableEq

def CertificateRole.profileError (role : CertificateRole) (index : Nat) (reason : String) :
    CertificateProfileError :=
  match role with
  | .root => .rootProfile reason
  | .platformIntermediate | .organizationIntermediate => .intermediateProfile index reason

def requireCaKeyUsage (role : CertificateRole) (index : Nat) (certificate : X509Certificate) :
    Except CertificateProfileError Unit := do
  let keyUsage ← requireExtension (role.profileError index) "key usage is invalid or duplicated"
    "missing critical key usage" certificate.keyUsage
  requireProfile
    (role.profileError index "CA key usage must be exactly keyCertSign and cRLSign")
    (keyUsage.critical && keyUsage.flags == 2 ^ 5 + 2 ^ 6)

def rejectForbiddenExtendedKeyUsage (primitives : TrustPrimitives) (role : CertificateRole)
    (index : Nat) (certificate : X509Certificate) : Except CertificateProfileError Unit := do
  match certificate.extendedKeyUsage with
  | .error () => .error (role.profileError index "extended key usage is invalid or duplicated")
  | .ok none => .ok ()
  | .ok (some eku) => do
      requireProfile
        (role.profileError index "certificate authorizes forbidden extended key usage")
        !(eku.any || eku.serverAuth || eku.clientAuth || eku.codeSigning)
      requireProfile (role.profileError index "certificate authorizes anyExtendedKeyUsage")
        !eku.other.contains oidAnyExtendedKeyUsage
  let forbidden := [oidAnyExtendedKeyUsage, oidServerAuthEku, oidClientAuthEku,
    oidCodeSigningEku].filterMap primitives.oidBytes
  requireProfile (role.profileError index "certificate authorizes forbidden extended key usage")
    !(certificate.extendedKeyUsageOids.getD []).any forbidden.contains

/-! ## The certificates of a chain -/

/-- The profile of a root, its validity apart. -/
def rootProfile (primitives : TrustPrimitives) (certificate : X509Certificate) :
    Except CertificateProfileError Unit := do
  let basicConstraints ← requireExtension .rootProfile
    "basic constraints are invalid or duplicated" "missing critical basic constraints"
    certificate.basicConstraints
  requireProfile (.rootProfile "root must be a critical CA with pathLenConstraint 2")
    (basicConstraints.critical && basicConstraints.ca &&
      basicConstraints.pathLenConstraint == some requiredRootPathLen)
  requireCaKeyUsage .root 0 certificate
  requireProfile (.rootProfile "missing subject key identifier")
    certificate.subjectKeyIdentifier.isSome
  rejectForbiddenExtendedKeyUsage primitives .root 0 certificate

/-- The checks of a root. -/
def validateRootCertificate (primitives : TrustPrimitives) (options : CertificateProfileOptions)
    (index : Nat) (certificate : X509Certificate) : Except CertificateProfileError Unit := do
  requireValidAt options.validationTime index certificate
  rootProfile primitives certificate

/-- A key identifier that has to be there. -/
def requireIdentifier (error : CertificateProfileError) (identifier : Option (List UInt8)) :
    Except CertificateProfileError (List UInt8) :=
  match identifier with
  | some value => .ok value
  | none => .error error

/-- An intermediate names the key of its issuer, and, but for the first one, is
named by the certificate it issued. -/
def requireAkiSkiPair (index : Nat) (child certificate issuer : X509Certificate) :
    Except CertificateProfileError Unit := do
  let error := CertificateProfileError.intermediateProfile index
  let childAki ← requireIdentifier (error "missing authority key identifier")
    certificate.authorityKeyIdentifier
  let issuerSki ← requireIdentifier (error "issuer is missing subject key identifier")
    issuer.subjectKeyIdentifier
  let ownSki ← requireIdentifier (error "missing subject key identifier")
    certificate.subjectKeyIdentifier
  requireProfile
    (error "authority key identifier does not match issuer subject key identifier")
    (childAki == issuerSki)
  if 1 < index then do
    let issuedChildAki ← requireIdentifier
      (error "issued child is missing authority key identifier") child.authorityKeyIdentifier
    requireProfile
      (error "subject key identifier does not match child authority key identifier")
      (ownSki == issuedChildAki)
  else .ok ()

/-- The role of an intermediate: in a full chain the first is an organization's. -/
def intermediateRole (chainLength index : Nat) : CertificateRole :=
  if chainLength = maxTzapChainLen ∧ index = 1 then .organizationIntermediate
  else .platformIntermediate

/-- The profile of an intermediate between the certificate that it issued and
its issuer, its validity apart. -/
def intermediateProfile (primitives : TrustPrimitives) (approvedOrgPolicyOids : List Text)
    (chainLength index : Nat) (child certificate issuer : X509Certificate) :
    Except CertificateProfileError Unit := do
  let role := intermediateRole chainLength index
  let basicConstraints ← requireExtension (.intermediateProfile index)
    "basic constraints are invalid or duplicated" "missing critical basic constraints"
    certificate.basicConstraints
  let pathLenOk := match role with
    | .organizationIntermediate =>
      basicConstraints.pathLenConstraint == some orgIntermediatePathLen
    | _ => basicConstraints.pathLenConstraint.any (index - 1 ≤ ·)
  requireProfile
    (.intermediateProfile index "intermediate must be a critical CA with a sufficient path length")
    (basicConstraints.critical && basicConstraints.ca && pathLenOk)
  requireCaKeyUsage role index certificate
  rejectForbiddenExtendedKeyUsage primitives role index certificate
  requireAkiSkiPair index child certificate issuer
  requireProfile (.intermediateProfile index "missing TZAP CA policy OID")
    (certificate.hasPolicy tzapOidCaPolicy)
  requireProfile (.intermediateProfile index
      "organization intermediate lacks an approved organization policy OID")
    (role != .organizationIntermediate || approvedOrgPolicyOids.any certificate.hasPolicy)
  requireProfile (.intermediateProfile index
      "missing CRL distribution point or TZAP status distribution extension")
    (certificate.extensionOids.contains oidCrlDistributionPoints)

/-- The intermediates from an index on: those between two other certificates. -/
def validateIntermediates (primitives : TrustPrimitives) (options : CertificateProfileOptions)
    (chainLength : Nat) : Nat → List X509Certificate → Except CertificateProfileError Unit
  | index, child :: certificate :: issuer :: rest => do
      requireValidAt options.validationTime index certificate
      intermediateProfile primitives options.approvedOrgIntermediatePolicyOids chainLength index
        child certificate issuer
      validateIntermediates primitives options chainLength (index + 1)
        (certificate :: issuer :: rest)
  | _, _ => .ok ()

def requireLeafAkiMatchesIssuer (leaf issuer : X509Certificate) :
    Except CertificateProfileError Unit := do
  let leafAki ← requireIdentifier (.leafProfile "missing authority key identifier")
    leaf.authorityKeyIdentifier
  let issuerSki ← requireIdentifier (.leafProfile "issuer is missing subject key identifier")
    issuer.subjectKeyIdentifier
  requireProfile
    (.leafProfile "authority key identifier does not match issuer subject key identifier")
    (leafAki == issuerSki)

def requireDocumentSigningEku (primitives : TrustPrimitives) (certificate : X509Certificate) :
    Except CertificateProfileError Unit :=
  match certificate.extendedKeyUsageOids, primitives.oidBytes tzapOidDocumentSigningEku with
  | none, _ => .error (.leafProfile "missing document-signing extended key usage")
  | _, none => .error (.leafProfile "document-signing OID is not numeric")
  | some oids, some documentSigningOid =>
    requireProfile
      (.leafProfile "extended key usage must be exactly TZAP document signing")
      (oids == [documentSigningOid])

def rejectServerNames (certificate : X509Certificate) : Except CertificateProfileError Unit :=
  match certificate.subjectAlternativeName with
  | .error () =>
    .error (.leafProfile "subject alternative name is invalid or duplicated")
  | .ok names =>
    requireProfile
      (.leafProfile "MVP leaves must not contain DNS or IP subject alternative names")
      (names != some true)

/-- The profile of a leaf, its validity at the time apart. -/
def leafProfile (primitives : TrustPrimitives) (approvedLeafPolicyOids : List Text)
    (certificate : X509Certificate) :
    Except CertificateProfileError CertificatePublicMetadata := do
  let basicConstraints ← requireExtension .leafProfile
    "basic constraints are invalid or duplicated" "missing critical basic constraints"
    certificate.basicConstraints
  requireProfile (.leafProfile "leaf must have critical CA:FALSE basic constraints")
    (basicConstraints.critical && !basicConstraints.ca)
  requireProfile (.leafProfile "leaf validity interval is invalid")
    (certificate.notBefore < certificate.notAfter)
  requireProfile (.leafProfile "leaf validity exceeds the TZAP MVP maximum")
    ((certificate.notAfter - certificate.notBefore) / 86400 ≤ maxTzapLeafValidityDays)
  let keyUsage ← requireExtension .leafProfile "key usage is invalid or duplicated"
    "missing critical key usage" certificate.keyUsage
  requireProfile (.leafProfile "leaf key usage must be exactly digitalSignature")
    (keyUsage.critical && keyUsage.flags == 1)
  requireDocumentSigningEku primitives certificate
  rejectServerNames certificate
  requireProfile (.leafProfile "missing approved TZAP leaf policy OID")
    (approvedLeafPolicyOids.any certificate.hasPolicy)
  requireProfile (.leafProfile "missing authority key identifier")
    certificate.authorityKeyIdentifier.isSome
  let metadata ← certificate.publicMetadata
  requireProfile (.metadataPolicyMismatch metadata.policyOid)
    (certificate.hasPolicy metadata.policyOid)
  return metadata

/-- The checks of the signer's certificate. -/
def validateLeafCertificate (primitives : TrustPrimitives) (options : CertificateProfileOptions)
    (index : Nat) (certificate : X509Certificate) :
    Except CertificateProfileError CertificatePublicMetadata := do
  requireValidAt options.validationTime index certificate
  leafProfile primitives options.approvedLeafPolicyOids certificate

/-! ## Chains -/

def parseX509Certificate (primitives : TrustPrimitives) (index : Nat) (der : List UInt8) :
    Except CertificateProfileError X509Certificate :=
  match primitives.parse der with
  | .error detail => .error (.certificateParse index detail)
  | .ok (true, _) => .error (.certificateParse index "trailing DER bytes".toList)
  | .ok (false, certificate) => .ok certificate

def parseX509Chain (primitives : TrustPrimitives) (chainDer : List (List UInt8)) :
    Except CertificateProfileError (List X509Certificate) :=
  chainDer.zipIdx.mapM fun (der, index) => parseX509Certificate primitives index der

def parseOpenSslChain (primitives : TrustPrimitives) (chainDer : List (List UInt8)) :
    Except CertificateProfileError Unit :=
  chainDer.zipIdx.forM fun (der, index) =>
    (primitives.openSslParse der).mapError (.certificateParse index)

def validateChainOrderAndSignatures (primitives : TrustPrimitives)
    (parsed : List X509Certificate) (chainDer : List (List UInt8)) :
    Except CertificateProfileError Unit := do
  (parsed.zip parsed.tail).zipIdx.forM fun ((child, issuer), index) =>
    requireProfile (.chainOrder index) (child.issuer == issuer.subject)
  requireProfile .rootNotSelfSigned
    (parsed.getLast?.all fun root => root.issuer == root.subject)
  (chainDer.zip chainDer.tail).zipIdx.forM fun ((child, issuer), index) => do
    let verified ← (primitives.verifies child issuer).mapError (.signatureValidation index)
    requireProfile (.signatureValidation index
      "issuer public key did not verify certificate signature".toList) verified
  match chainDer.getLast? with
  | none => .ok ()
  | some root => do
      let verified ← (primitives.verifies root root).mapError
        (.signatureValidation (chainDer.length - 1))
      requireProfile .rootNotSelfSigned verified

def validateChainAlgorithms (primitives : TrustPrimitives) (parsed : List X509Certificate)
    (chainDer : List (List UInt8)) : Except CertificateProfileError Unit :=
  (parsed.zip chainDer).zipIdx.forM fun ((certificate, der), index) => do
    requireProfile (.unsupportedAlgorithm index
        "certificate signature must be ECDSA P-256 with SHA-256")
      (certificate.signatureAlgorithm == oidEcdsaWithSha256 &&
        certificate.tbsSignatureAlgorithm == oidEcdsaWithSha256)
    match primitives.unsupportedKey der with
    | some reason => .error (.unsupportedAlgorithm index reason)
    | none => .ok ()

def RootPinSet.isCurrentRoot (pins : RootPinSet) (fingerprint : Text) : Bool :=
  isValidSha256Identifier fingerprint && pins.current.contains fingerprint

def RootPinSet.isPlannedSuccessor (pins : RootPinSet) (fingerprint : Text) : Bool :=
  isValidSha256Identifier fingerprint && pins.plannedSuccessors.contains fingerprint

/-- The kind of an official root; without pins every root is taken. -/
def officialRootPinKind (pins : Option RootPinSet) (fingerprint : Text) :
    Except CertificateProfileError (Option OfficialRootPinKind) :=
  match pins with
  | none => .ok none
  | some pins =>
    if pins.isCurrentRoot fingerprint then .ok (some .current)
    else if pins.isPlannedSuccessor fingerprint then .ok (some .plannedSuccessor)
    else .error (.rootNotPinned fingerprint)

/-- The checks of a chain that come before those of its certificates. -/
def validateChainShape (primitives : TrustPrimitives) (parsed : List X509Certificate)
    (chainDer : List (List UInt8)) : Except CertificateProfileError Unit := do
  parseOpenSslChain primitives chainDer
  validateChainOrderAndSignatures primitives parsed chainDer
  validateChainAlgorithms primitives parsed chainDer

/-- The checks of a whole chain. -/
def validateCertificateChain (primitives : TrustPrimitives) (pins : Option RootPinSet)
    (trustAnchorType : TrustAnchorType) (options : CertificateProfileOptions)
    (chainDer : List (List UInt8)) :
    Except CertificateProfileError CertificateProfileValidation := do
  requireProfile (.invalidChainLength chainDer.length)
    (minTzapChainLen ≤ chainDer.length && chainDer.length ≤ maxTzapChainLen)
  let parsed ← parseX509Chain primitives chainDer
  validateChainShape primitives parsed chainDer
  let rootFingerprint := sha256Identifier primitives.toPrimitives (chainDer.getLast?.getD [])
  let pinKind ← officialRootPinKind pins rootFingerprint
  match parsed with
  | leaf :: issuer :: rest => do
      validateRootCertificate primitives options (chainDer.length - 1)
        ((issuer :: rest).getLast (List.cons_ne_nil issuer rest))
      validateIntermediates primitives options chainDer.length 1 (leaf :: issuer :: rest)
      requireLeafAkiMatchesIssuer leaf issuer
      let publicMetadata ← validateLeafCertificate primitives options 0 leaf
      return ⟨trustAnchorType, pinKind, rootFingerprint, publicMetadata⟩
  | _ => .error (.invalidChainLength chainDer.length)

def validateOfficialCertificateChain (primitives : TrustPrimitives) (pins : RootPinSet)
    (options : CertificateProfileOptions) (chainDer : List (List UInt8)) :
    Except CertificateProfileError CertificateProfileValidation :=
  validateCertificateChain primitives (some pins) .officialTzap options chainDer

def validateCustomCertificateChain (primitives : TrustPrimitives)
    (options : CertificateProfileOptions) (chainDer : List (List UInt8)) :
    Except CertificateProfileError CertificateProfileValidation :=
  validateCertificateChain primitives none .custom options chainDer

/-! ## The validity checks apart from the others -/

@[simp] theorem requireProfile_eq_ok {error : CertificateProfileError} {holds : Bool} {done :
    Unit} :
    requireProfile error holds = .ok done ↔ holds = true := by
  unfold requireProfile
  cases holds <;> simp

@[simp] theorem requireValidAt_none (index : Nat) (certificate : X509Certificate) :
    requireValidAt none index certificate = .ok () := rfl

@[simp] theorem requireValidAt_some {time index : Nat} {certificate : X509Certificate}
    {done : Unit} :
    requireValidAt (some time) index certificate = .ok done ↔ certificate.isValidAt time = true :=
  requireProfile_eq_ok

/-- The options with a time. -/
def CertificateProfileOptions.at (options : CertificateProfileOptions) (time : Nat) :
    CertificateProfileOptions :=
  { options with validationTime := some time }

section

variable {primitives : TrustPrimitives} {options : CertificateProfileOptions} {time : Nat}

variable {index : Nat} {certificate : X509Certificate} {done : Unit}
  {metadata : CertificatePublicMetadata} {rest : List X509Certificate}
  {chainDer back : List (List UInt8)} {pins : Option RootPinSet} {anchor : TrustAnchorType}
  {validation : CertificateProfileValidation}

theorem validateRootCertificate_at (untimed : options.validationTime = none) :
    validateRootCertificate primitives (options.at time) index certificate = .ok done ↔
      certificate.isValidAt time = true ∧
        validateRootCertificate primitives options index certificate = .ok done := by
  unfold validateRootCertificate CertificateProfileOptions.at
  rw [untimed]
  simp [Except.bind_eq_ok_iff]

theorem validateLeafCertificate_at (untimed : options.validationTime = none) :
    validateLeafCertificate primitives (options.at time) index certificate = .ok metadata ↔
      certificate.isValidAt time = true ∧
        validateLeafCertificate primitives options index certificate = .ok metadata := by
  unfold validateLeafCertificate CertificateProfileOptions.at
  rw [untimed]
  simp [Except.bind_eq_ok_iff]

theorem validateIntermediates_at (untimed : options.validationTime = none) {length : Nat}
    {child : X509Certificate} :
    validateIntermediates primitives (options.at time) length index (child :: rest) = .ok done ↔
      (∀ certificate ∈ rest.dropLast, certificate.isValidAt time = true) ∧
        validateIntermediates primitives options length index (child :: rest) = .ok done := by
  induction rest generalizing index child with
  | nil => simp [validateIntermediates]
  | cons certificate rest ih =>
    cases rest with
    | nil => simp [validateIntermediates]
    | cons issuer rest =>
      rw [validateIntermediates, validateIntermediates, List.dropLast_cons_of_ne_nil
        (List.cons_ne_nil issuer rest), List.forall_mem_cons]
      simp only [Except.bind_eq_ok_iff, ih]
      unfold CertificateProfileOptions.at
      simp only [untimed, requireValidAt_some, requireValidAt_none]
      constructor
      · rintro ⟨_, valid, _, profiled, others, validated⟩
        exact ⟨⟨valid, others⟩, (), trivial, _, profiled, validated⟩
      · rintro ⟨⟨valid, others⟩, _, -, _, profiled, validated⟩
        exact ⟨(), valid, _, profiled, others, validated⟩

/-- The certificate of these bytes is in its validity period. -/
def DerValidAt (primitives : TrustPrimitives) (time : Nat) (der : List UInt8) : Prop :=
  ∃ certificate, primitives.parse der = .ok (false, certificate) ∧
    certificate.isValidAt time = true

theorem parseX509Certificate_eq_ok {der : List UInt8} :
    parseX509Certificate primitives index der = .ok certificate ↔
      primitives.parse der = .ok (false, certificate) := by
  unfold parseX509Certificate
  split
  · rename_i failed
    rw [failed]
    exact ⟨nofun, nofun⟩
  · rename_i trailing
    rw [trailing]
    exact ⟨nofun, nofun⟩
  · rename_i parsed
    rw [parsed]
    simp

/-- The certificates of a chain are those of its bytes. -/
theorem all_valid_iff {parsed : List X509Certificate}
    (done : parseX509Chain primitives chainDer = .ok parsed) :
    (∀ certificate ∈ parsed, certificate.isValidAt time = true) ↔
      ∀ der ∈ chainDer, DerValidAt primitives time der := by
  have pairs := Except.forall₂_of_mapM_eq_ok done
  constructor
  · intro valid der member
    obtain ⟨index, inside, same⟩ := List.getElem_of_mem member
    have indexed : (der, index) ∈ chainDer.zipIdx := by
      rw [List.mk_mem_zipIdx_iff_getElem?, List.getElem?_eq_getElem inside, same]
    obtain ⟨certificate, found, parses⟩ := forall₂_exists_of_mem_left pairs indexed
    exact ⟨certificate, parseX509Certificate_eq_ok.mp parses, valid certificate found⟩
  · intro valid certificate member
    obtain ⟨⟨der, index⟩, found, parses⟩ := forall₂_exists_of_mem_right pairs member
    obtain ⟨other, parsed', validOther⟩ := valid der (List.fst_mem_of_mem_zipIdx found)
    have parsedHere := parseX509Certificate_eq_ok.mp parses
    rw [parsed'] at parsedHere
    cases parsedHere
    exact validOther

theorem forall_mem_chain {holds : X509Certificate → Prop} (leaf : X509Certificate)
    (nonempty : rest ≠ []) :
    (∀ certificate ∈ leaf :: rest, holds certificate) ↔
      holds (rest.getLast nonempty) ∧ (∀ certificate ∈ rest.dropLast, holds certificate) ∧
        holds leaf := by
  have member : ∀ certificate, certificate ∈ rest ↔
      certificate ∈ rest.dropLast ∨ certificate = rest.getLast nonempty := by
    intro certificate
    conv_lhs => rw [← List.dropLast_append_getLast nonempty]
    rw [List.mem_append, List.mem_singleton]
  rw [List.forall_mem_cons]
  constructor
  · rintro ⟨first, others⟩
    exact ⟨others _ (List.getLast_mem nonempty),
      fun certificate inner => others _ ((member _).mpr (.inl inner)), first⟩
  · rintro ⟨last, inner, first⟩
    refine ⟨first, fun certificate found => ?_⟩
    rcases (member certificate).mp found with inside | rfl
    · exact inner certificate inside
    · exact last

/-- A chain passes at a time exactly when it passes without a time, and each of
its certificates is in its validity period then. -/
theorem validateCertificateChain_eq_ok_iff (untimed : options.validationTime = none) :
    validateCertificateChain primitives pins anchor (options.at time) chainDer = .ok validation ↔
      (∀ der ∈ chainDer, DerValidAt primitives time der) ∧
        validateCertificateChain primitives pins anchor options chainDer = .ok validation := by
  unfold validateCertificateChain
  simp only [Except.bind_eq_ok_iff]
  cases parsing : parseX509Chain primitives chainDer with
  | error failure => simp
  | ok parsed =>
    rw [← all_valid_iff parsing]
    simp only [Except.ok.injEq, exists_eq_left']
    match parsed with
    | [] => simp
    | [_] => simp
    | leaf :: issuer :: rest =>
      rw [forall_mem_chain _ (List.cons_ne_nil issuer rest)]
      simp only [Except.bind_eq_ok_iff, validateRootCertificate_at untimed,
        validateIntermediates_at untimed, validateLeafCertificate_at untimed]
      constructor
      · rintro ⟨_, sized, _, shaped, pin, pinned, _, ⟨validRoot, root⟩, _,
          ⟨validInner, inner⟩, _, named, metadata, ⟨validLeaf, leafDone⟩, same⟩
        exact ⟨⟨validRoot, validInner, validLeaf⟩, _, sized, _, shaped, pin, pinned, _,
          root, _, inner, _, named, metadata, leafDone, same⟩
      · rintro ⟨⟨validRoot, validInner, validLeaf⟩, _, sized, _, shaped, pin, pinned, _,
          root, _, inner, _, named, metadata, leafDone, same⟩
        exact ⟨_, sized, _, shaped, pin, pinned, _, ⟨validRoot, root⟩, _,
          ⟨validInner, inner⟩, _, named, metadata, ⟨validLeaf, leafDone⟩, same⟩

/-- What a chain that passes is made of. -/
theorem exists_of_validated {leafDer : List UInt8}
    (validated : validateCertificateChain primitives pins anchor options (leafDer :: back) =
      .ok validation) :
    ∃ leaf issuer rest, primitives.parse leafDer = .ok (false, leaf) ∧
      List.Forall₂ (fun der certificate => primitives.parse der = .ok (false, certificate)) back
        (issuer :: rest) ∧
      validateChainShape primitives (leaf :: issuer :: rest) (leafDer :: back) = .ok () ∧
      requireLeafAkiMatchesIssuer leaf issuer = .ok () ∧
      leafProfile primitives options.approvedLeafPolicyOids leaf = .ok validation.publicMetadata ∧
      validation.trustAnchorType = anchor := by
  unfold validateCertificateChain at validated
  simp only [Except.bind_eq_ok_iff] at validated
  obtain ⟨_, -, certificates, parsing, _, shaped, _, -, validated⟩ := validated
  have parses : List.Forall₂ (fun der certificate =>
      primitives.parse der = .ok (false, certificate)) (leafDer :: back) certificates := by
    have pairs := Except.forall₂_of_mapM_eq_ok parsing
    rw [← List.zipIdx_map_fst 0 (leafDer :: back), List.forall₂_map_left_iff]
    exact pairs.imp fun _ _ parses => parseX509Certificate_eq_ok.mp parses
  cases parses with
  | @cons _ leaf _ rest head others =>
    cases rest with
    | nil => cases validated
    | cons issuer rest =>
      simp only [Except.bind_eq_ok_iff] at validated
      obtain ⟨_, -, _, -, _, named, metadata, checked, same⟩ := validated
      unfold validateLeafCertificate at checked
      obtain ⟨_, -, profiled⟩ := Except.bind_eq_ok_iff.mp checked
      cases same
      exact ⟨leaf, issuer, rest, head, others, shaped, named, profiled, rfl⟩

/-- The profile of a leaf asks for a period that does not end before it begins,
and yields the metadata of the leaf. -/
theorem leafProfile_eq_ok {policies : List Text} {leaf : X509Certificate}
    (profiled : leafProfile primitives policies leaf = .ok metadata) :
    leaf.notBefore < leaf.notAfter ∧ leaf.publicMetadata = .ok metadata := by
  unfold leafProfile at profiled
  simp only [Except.bind_eq_ok_iff, requireProfile_eq_ok, decide_eq_true_eq] at profiled
  obtain ⟨_, _, _, _, _, period, _, _, _, _, _, _, _, _, _, _, _, _, _, _, found, read, _, _, same⟩ :=
    profiled
  cases same
  exact ⟨period, read⟩

theorem requireLeafAkiMatchesIssuer_eq_ok {leaf issuer : X509Certificate}
    (named : requireLeafAkiMatchesIssuer leaf issuer = .ok done) :
    ∃ identifier, leaf.authorityKeyIdentifier = some identifier ∧
      issuer.subjectKeyIdentifier = some identifier := by
  unfold requireLeafAkiMatchesIssuer requireIdentifier at named
  cases own : leaf.authorityKeyIdentifier with
  | none =>
    rw [own] at named
    cases named
  | some identifier =>
    cases other : issuer.subjectKeyIdentifier with
    | none =>
      rw [own, other] at named
      cases named
    | some key =>
      rw [own, other] at named
      have same : (identifier == key) = true := requireProfile_eq_ok.mp named
      exact ⟨identifier, rfl, by rw [eq_of_beq same]⟩

theorem length_of_validated
    (validated : validateCertificateChain primitives pins anchor options chainDer =
      .ok validation) :
    minTzapChainLen ≤ chainDer.length ∧ chainDer.length ≤ maxTzapChainLen := by
  unfold validateCertificateChain at validated
  obtain ⟨_, sized, -⟩ := Except.bind_eq_ok_iff.mp validated
  simpa using sized

/-- A root names itself as its issuer. -/
theorem root_of_validated {leafDer root : List UInt8}
    (validated : validateCertificateChain primitives pins anchor options
      (leafDer :: (back ++ [root])) = .ok validation) :
    ∃ certificate, primitives.parse root = .ok (false, certificate) ∧
      certificate.issuer = certificate.subject := by
  obtain ⟨leaf, issuer, rest, -, parses, shaped, -⟩ := exists_of_validated validated
  have reversed := List.forall₂_reverse_iff.mpr parses
  rw [List.reverse_append, List.reverse_singleton, List.singleton_append] at reversed
  cases turned : (issuer :: rest).reverse with
  | nil =>
    rw [turned] at reversed
    cases reversed
  | cons certificate others =>
    rw [turned] at reversed
    obtain ⟨parsed, -⟩ := List.forall₂_cons.mp reversed
    have last : (leaf :: issuer :: rest).getLast? = some certificate := by
      rw [List.getLast?_cons_cons, ← List.head?_reverse, turned]
      rfl
    unfold validateChainShape validateChainOrderAndSignatures at shaped
    simp only [Except.bind_eq_ok_iff, last, requireProfile_eq_ok] at shaped
    obtain ⟨_, -, _, ⟨_, -, _, same, -⟩, -⟩ := shaped
    exact ⟨certificate, parsed, by simpa using same⟩

end

end ZManager.Identity
