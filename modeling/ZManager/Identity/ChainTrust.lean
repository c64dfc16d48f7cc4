import ZManager.Identity.CertificateProfile
import ZManager.Identity.OnlineStatus

/-! # Trust in the chain of a document and of a contact card

Both checks try the embedded chain by itself and with each root behind it, first
under the official pins and then under the configured roots. The document check
looks at the validity of the leaf only, the check of a contact card hands its
time to the profile. `chain_checks_agree_iff` says where they agree.
-/

namespace ZManager.Identity

/-- The roots and the time of an offline check. -/
structure OfflineVerificationOptions where
  verifierTime : UnixSeconds
  officialRootPins : RootPinSet
  officialRootCertificatesDer : List (List UInt8)
  customTrustRootSha256 : List Text
  customTrustRootCertificatesDer : List (List UInt8)
  certificateProfileOptions : CertificateProfileOptions

/-- What a chain is refused with; failures of the envelope itself are left out. -/
inductive OfflineVerificationError where
  | certificateParse (reason : Text)
  | certificateValidity (reason : String)
  | untrusted (reason : Text)

/-- Failures of making or reading a contact card. -/
inductive ContactCardError where
  | invalidField (field : String)
  | missingRecord (field : String)
  | certificateNotActive
  | canonicalization (reason : Text)
  | crypto (reason : Text)
  | certificateChain (reason : Text)
  | intermediateCacheMiss (issuerKeyIdentifier reason : Text)
  deriving DecidableEq

/-- The error as it is shown. -/
def CertificateProfileError.display : CertificateProfileError → Text
  | .invalidChainLength actual =>
    "TZAP certificate chain has invalid length ".toList ++ (toString actual).toList
  | .certificateParse index detail =>
    "failed to parse certificate at chain index ".toList ++ (toString index).toList ++
      ": ".toList ++ detail
  | .chainOrder childIndex =>
    "certificate chain is not ordered leaf issuer rootward at index ".toList ++
      (toString childIndex).toList
  | .signatureValidation subjectIndex detail =>
    "certificate signature validation failed at chain index ".toList ++
      (toString subjectIndex).toList ++ ": ".toList ++ detail
  | .unsupportedAlgorithm index reason =>
    "certificate at chain index ".toList ++ (toString index).toList ++
      " uses unsupported algorithm: ".toList ++ reason.toList
  | .rootNotSelfSigned => "TZAP root certificate is not self-signed".toList
  | .rootNotPinned fingerprint =>
    "TZAP root fingerprint is not pinned: ".toList ++ fingerprint
  | .rootProfile reason => "TZAP root profile rejected: ".toList ++ reason.toList
  | .intermediateProfile index reason =>
    "TZAP intermediate profile rejected at index ".toList ++ (toString index).toList ++
      ": ".toList ++ reason.toList
  | .leafProfile reason => "TZAP leaf profile rejected: ".toList ++ reason.toList
  | .missingMetadata => "TZAP metadata extension is missing".toList
  | .duplicateMetadata => "TZAP metadata extension appears more than once".toList
  | .criticalMetadata => "TZAP metadata extension must be non-critical".toList
  | .nestedAsn1Metadata => "TZAP metadata extension contains a nested ASN.1 wrapper".toList
  | .malformedMetadata reason =>
    "TZAP metadata extension is malformed: ".toList ++ reason.toList
  | .unknownMetadataField field =>
    "TZAP metadata extension has unknown v1 field ".toList ++ field
  | .metadataPolicyMismatch policyOid =>
    "TZAP certificate metadata policy OID does not match extension (".toList ++ policyOid ++
      ")".toList
  | .expired index =>
    "certificate at chain index ".toList ++ (toString index).toList ++
      " is expired or not yet valid at validation time".toList

/-! ## Candidates -/

/-- The embedded chain by itself, and with each root behind it. -/
def candidateChains (embeddedChainDer rootsDer : List (List UInt8)) : List (List (List UInt8)) :=
  embeddedChainDer :: rootsDer.map fun root => embeddedChainDer ++ [root]

/-- The first candidate that validates, or the last error, where there was one. -/
def firstValid {α ε : Type} (validate : List (List UInt8) → Except ε α) :
    Option ε → List (List (List UInt8)) → Except (Option ε) α
  | failure, [] => .error failure
  | _, chain :: rest =>
    match validate chain with
    | .ok validation => .ok validation
    | .error failure => firstValid validate (some failure) rest

section

variable (primitives : TrustPrimitives)

/-- The root of a candidate is one of the configured roots. -/
def endsInConfiguredRoot (options : OfflineVerificationOptions)
    (chainDer : List (List UInt8)) : Bool :=
  chainDer.getLast?.any fun root =>
    options.customTrustRootSha256.contains (sha256Identifier primitives.toPrimitives root)

/-- The candidates under the official pins, then those under the configured roots. -/
def validateCandidates (options : OfflineVerificationOptions)
    (profileOptions : CertificateProfileOptions) (embeddedChainDer : List (List UInt8)) :
    Except Text CertificateProfileValidation :=
  let official := firstValid
    (validateOfficialCertificateChain primitives options.officialRootPins profileOptions) none
    (candidateChains embeddedChainDer options.officialRootCertificatesDer)
  let custom := firstValid (validateCustomCertificateChain primitives profileOptions) none
    ((candidateChains embeddedChainDer options.customTrustRootCertificatesDer).filter
      (endsInConfiguredRoot primitives options))
  match official, custom with
  | .ok validation, _ => .ok validation
  | .error _, .ok validation => .ok validation
  | .error _, .error (some failure) => .error failure.display
  | .error (some failure), .error none => .error failure.display
  | .error none, .error none =>
    .error "root is not pinned official or configured custom trust".toList

/-! ## The check of a document -/

def parseCertificate (der : List UInt8) (label : String) :
    Except OfflineVerificationError X509Certificate :=
  match primitives.parse der with
  | .error detail => .error (.certificateParse (label.toList ++ ": ".toList ++ detail))
  | .ok (true, _) =>
    .error (.certificateParse (label.toList ++ ": trailing DER bytes".toList))
  | .ok (false, certificate) => .ok certificate

def validateLeafCurrentValidity (leaf : X509Certificate) (verifierTime : UnixSeconds) :
    Except OfflineVerificationError Unit :=
  if verifierTime.toInt < leaf.notBefore then .error (.certificateValidity "leaf not yet valid")
  else if leaf.notAfter ≤ verifierTime.toInt then .error (.certificateValidity "leaf expired")
  else .ok ()

/-- The offline check of a document's chain. -/
def verifyChainTrust (embeddedChainDer : List (List UInt8))
    (options : OfflineVerificationOptions) :
    Except OfflineVerificationError DocumentVerificationResult :=
  match validateCandidates primitives options options.certificateProfileOptions
      embeddedChainDer with
  | .error reason => .error (.untrusted reason)
  | .ok validation => .ok {
      state := .cryptographicallyIntactOffline
      trustAnchorType := validation.trustAnchorType
      reason := some "offline verification has no fresh status proof".toList
      rootCertificateSha256 := some validation.rootCertificateSha256
      publicMetadata := some validation.publicMetadata }

/-- What the check of a document does with the chain of its envelope. -/
def verifyDocumentChain (leafDer : List UInt8) (intermediateChainDer : List (List UInt8))
    (options : OfflineVerificationOptions) :
    Except OfflineVerificationError DocumentVerificationResult := do
  let leaf ← parseCertificate primitives leafDer "leaf"
  validateLeafCurrentValidity leaf options.verifierTime
  verifyChainTrust primitives (leafDer :: intermediateChainDer) options

/-! ## The check of a contact card -/

/-- The offline check of a contact card's chain. -/
def validateContactCardChain (embeddedChainDer : List (List UInt8))
    (options : OfflineVerificationOptions) :
    Except ContactCardError CertificateProfileValidation :=
  if options.verifierTime < 0 then .error (.invalidField "verifier_time_unix_seconds")
  else
    (validateCandidates primitives options
      (options.certificateProfileOptions.at options.verifierTime.toInt.toNat)
      embeddedChainDer).mapError .certificateChain

/-! ## Acceptance -/

/-- A candidate of the embedded chain that passes the profile without a time. -/
def Trusted (options : OfflineVerificationOptions) (embeddedChainDer : List (List UInt8))
    (chainDer : List (List UInt8)) : Prop :=
  (chainDer ∈ candidateChains embeddedChainDer options.officialRootCertificatesDer ∧
      ∃ validation, validateOfficialCertificateChain primitives options.officialRootPins
        options.certificateProfileOptions chainDer = .ok validation) ∨
    (chainDer ∈ candidateChains embeddedChainDer options.customTrustRootCertificatesDer ∧
      endsInConfiguredRoot primitives options chainDer = true ∧
      ∃ validation, validateCustomCertificateChain primitives options.certificateProfileOptions
        chainDer = .ok validation)

/-- The check of a document accepts the chain. -/
def DocumentAccepted (leafDer : List UInt8) (intermediateChainDer : List (List UInt8))
    (options : OfflineVerificationOptions) : Prop :=
  ∃ result, verifyDocumentChain primitives leafDer intermediateChainDer options = .ok result

/-- The check of a contact card accepts the chain. -/
def ContactAccepted (leafDer : List UInt8) (intermediateChainDer : List (List UInt8))
    (options : OfflineVerificationOptions) : Prop :=
  ∃ validation, validateContactCardChain primitives (leafDer :: intermediateChainDer) options =
    .ok validation

/-- Both checks accept the chain or neither does, and an accepted chain holds
only certificates in their validity periods. -/
def ChainChecksAgree (leafDer : List UInt8) (intermediateChainDer : List (List UInt8))
    (options : OfflineVerificationOptions) : Prop :=
  (DocumentAccepted primitives leafDer intermediateChainDer options ↔
      ContactAccepted primitives leafDer intermediateChainDer options) ∧
    (DocumentAccepted primitives leafDer intermediateChainDer options ∨
        ContactAccepted primitives leafDer intermediateChainDer options →
      ∀ der ∈ leafDer :: intermediateChainDer,
        DerValidAt primitives options.verifierTime.toInt.toNat der)

/-- The certificates behind the leaf of a chain are in their validity periods. -/
def IssuersValid (options : OfflineVerificationOptions) (chainDer : List (List UInt8)) : Prop :=
  ∀ der ∈ chainDer.tail, DerValidAt primitives options.verifierTime.toInt.toNat der

end

theorem firstValid_eq_ok_iff {α ε : Type} {validate : List (List UInt8) → Except ε α}
    {failure : Option ε} {chains : List (List (List UInt8))} :
    (∃ validation, firstValid validate failure chains = .ok validation) ↔
      ∃ chain ∈ chains, ∃ validation, validate chain = .ok validation := by
  induction chains generalizing failure with
  | nil => simp [firstValid]
  | cons chain rest ih =>
    rw [firstValid]
    cases done : validate chain with
    | ok validation =>
      refine iff_of_true ⟨validation, rfl⟩ ⟨chain, List.mem_cons_self, validation, done⟩
    | error found =>
      dsimp only
      rw [ih]
      constructor
      · rintro ⟨other, member, accepted⟩
        exact ⟨other, List.mem_cons_of_mem _ member, accepted⟩
      · rintro ⟨other, member, validation, accepted⟩
        rcases List.mem_cons.mp member with rfl | inside
        · rw [done] at accepted
          cases accepted
        · exact ⟨other, inside, validation, accepted⟩

section

variable {primitives : TrustPrimitives} {options : OfflineVerificationOptions}
  {embeddedChainDer : List (List UInt8)} {leafDer : List UInt8}
  {intermediateChainDer : List (List UInt8)}

variable {chainDer : List (List UInt8)}

/-- Candidates are accepted where one of them validates. -/
theorem validateCandidates_eq_ok_iff {profileOptions : CertificateProfileOptions} :
    (∃ validation, validateCandidates primitives options profileOptions embeddedChainDer =
        .ok validation) ↔
      ∃ chainDer,
        (chainDer ∈ candidateChains embeddedChainDer options.officialRootCertificatesDer ∧
          ∃ validation, validateOfficialCertificateChain primitives options.officialRootPins
            profileOptions chainDer = .ok validation) ∨
        (chainDer ∈ candidateChains embeddedChainDer options.customTrustRootCertificatesDer ∧
          endsInConfiguredRoot primitives options chainDer = true ∧
          ∃ validation, validateCustomCertificateChain primitives profileOptions chainDer =
            .ok validation) := by
  have official := @firstValid_eq_ok_iff _ _
    (validateOfficialCertificateChain primitives options.officialRootPins profileOptions) none
    (candidateChains embeddedChainDer options.officialRootCertificatesDer)
  have custom := @firstValid_eq_ok_iff _ _
    (validateCustomCertificateChain primitives profileOptions) none
    ((candidateChains embeddedChainDer options.customTrustRootCertificatesDer).filter
      (endsInConfiguredRoot primitives options))
  simp only [List.mem_filter, and_assoc] at custom
  have either : (∃ validation, validateCandidates primitives options profileOptions
      embeddedChainDer = .ok validation) ↔
      (∃ validation, firstValid (validateOfficialCertificateChain primitives
        options.officialRootPins profileOptions) none
        (candidateChains embeddedChainDer options.officialRootCertificatesDer) =
          .ok validation) ∨
      (∃ validation, firstValid (validateCustomCertificateChain primitives profileOptions) none
        ((candidateChains embeddedChainDer options.customTrustRootCertificatesDer).filter
          (endsInConfiguredRoot primitives options)) = .ok validation) := by
    unfold validateCandidates
    generalize firstValid (validateOfficialCertificateChain primitives options.officialRootPins
      profileOptions) none _ = first
    generalize firstValid (validateCustomCertificateChain primitives profileOptions) none _ = second
    cases first with
    | ok validation => simp
    | error failure =>
      cases second with
      | ok validation => cases failure <;> simp
      | error other => cases failure <;> cases other <;> simp
  rw [either, official, custom]
  exact exists_or.symm

theorem parseCertificate_eq_ok {der : List UInt8} {label : String}
    {certificate : X509Certificate} :
    parseCertificate primitives der label = .ok certificate ↔
      primitives.parse der = .ok (false, certificate) := by
  unfold parseCertificate
  split
  · rename_i failed
    rw [failed]
    exact ⟨nofun, nofun⟩
  · rename_i trailing
    rw [trailing]
    exact ⟨nofun, nofun⟩
  · rename_i parsed
    rw [parsed]
    simp

theorem validateLeafCurrentValidity_eq_ok {leaf : X509Certificate} {time : UnixSeconds}
    {done : Unit} : validateLeafCurrentValidity leaf time = .ok done ↔
      leaf.notBefore ≤ time.toInt ∧ time.toInt < leaf.notAfter := by
  unfold validateLeafCurrentValidity
  split_ifs with early late
  · exact iff_of_false nofun (by omega)
  · exact iff_of_false nofun (by omega)
  · exact iff_of_true rfl (by omega)

/-- A document is accepted with a current leaf and a trusted chain. -/
theorem documentAccepted_iff :
    DocumentAccepted primitives leafDer intermediateChainDer options ↔
      (∃ leaf, primitives.parse leafDer = .ok (false, leaf) ∧
        leaf.notBefore ≤ options.verifierTime.toInt ∧
        options.verifierTime.toInt < leaf.notAfter) ∧
      ∃ chainDer, Trusted primitives options (leafDer :: intermediateChainDer) chainDer := by
  have candidates := @validateCandidates_eq_ok_iff primitives options
    (leafDer :: intermediateChainDer) options.certificateProfileOptions
  have chain : (∃ result, verifyChainTrust primitives (leafDer :: intermediateChainDer) options =
      .ok result) ↔
        ∃ chainDer, Trusted primitives options (leafDer :: intermediateChainDer) chainDer := by
    unfold Trusted
    rw [← candidates]
    unfold verifyChainTrust
    cases validateCandidates primitives options options.certificateProfileOptions
      (leafDer :: intermediateChainDer) <;> simp
  rw [← chain]
  unfold DocumentAccepted verifyDocumentChain
  simp only [Except.bind_eq_ok_iff, parseCertificate_eq_ok, validateLeafCurrentValidity_eq_ok]
  constructor
  · rintro ⟨result, leaf, parsed, _, current, done⟩
    exact ⟨⟨leaf, parsed, current⟩, result, done⟩
  · rintro ⟨⟨leaf, parsed, current⟩, result, done⟩
    exact ⟨result, leaf, parsed, (), current, done⟩

/-- A contact card is accepted with a trusted chain of current certificates. -/
theorem contactAccepted_iff (untimed : options.certificateProfileOptions.validationTime = none)
    (positive : 0 ≤ options.verifierTime) :
    ContactAccepted primitives leafDer intermediateChainDer options ↔
      ∃ chainDer, Trusted primitives options (leafDer :: intermediateChainDer) chainDer ∧
        ∀ der ∈ chainDer, DerValidAt primitives options.verifierTime.toInt.toNat der := by
  have candidates := @validateCandidates_eq_ok_iff primitives options
    (leafDer :: intermediateChainDer)
    (options.certificateProfileOptions.at options.verifierTime.toInt.toNat)
  have accepted : ContactAccepted primitives leafDer intermediateChainDer options ↔
      ∃ validation, validateCandidates primitives options
        (options.certificateProfileOptions.at options.verifierTime.toInt.toNat)
        (leafDer :: intermediateChainDer) = .ok validation := by
    unfold ContactAccepted validateContactCardChain
    rw [if_neg (Int64.not_lt.mpr positive)]
    cases validateCandidates primitives options
      (options.certificateProfileOptions.at options.verifierTime.toInt.toNat)
      (leafDer :: intermediateChainDer) <;> simp [Except.mapError]
  rw [accepted, candidates]
  unfold Trusted validateOfficialCertificateChain validateCustomCertificateChain
  simp only [validateCertificateChain_eq_ok_iff untimed, exists_and_left]
  constructor
  · rintro ⟨chainDer, ⟨member, valid, done⟩ | ⟨member, configured, valid, done⟩⟩
    · exact ⟨chainDer, .inl ⟨member, done⟩, valid⟩
    · exact ⟨chainDer, .inr ⟨member, configured, done⟩, valid⟩
  · rintro ⟨chainDer, ⟨member, done⟩ | ⟨member, configured, done⟩, valid⟩
    · exact ⟨chainDer, .inl ⟨member, valid, done⟩⟩
    · exact ⟨chainDer, .inr ⟨member, configured, valid, done⟩⟩

theorem castSigned_toNat {time : UnixSeconds} (positive : 0 ≤ time) :
    castSigned time.toInt.toNat = time.toInt := by
  have nonneg : 0 ≤ time.toInt := Int64.le_iff_toInt_le.mp positive
  have small := Int64.toInt_lt time
  unfold castSigned
  rw [if_pos (by omega)]
  omega

/-- Every candidate starts with the embedded chain. -/
theorem Trusted.isPrefix (trusted : Trusted primitives options embeddedChainDer chainDer) :
    embeddedChainDer <+: chainDer := by
  have candidate : ∀ roots, chainDer ∈ candidateChains embeddedChainDer roots →
      embeddedChainDer <+: chainDer := by
    intro roots member
    rcases List.mem_cons.mp member with rfl | inside
    · exact List.prefix_rfl
    · obtain ⟨root, -, rfl⟩ := List.mem_map.mp inside
      exact List.prefix_append _ _
  rcases trusted with ⟨member, -⟩ | ⟨member, -⟩
  · exact candidate _ member
  · exact candidate _ member

/-- The profile of a leaf asks for a period that does not end before it begins. -/
theorem Trusted.leaf_period {leaf : X509Certificate}
    (trusted : Trusted primitives options (leafDer :: intermediateChainDer) chainDer)
    (parsed : primitives.parse leafDer = .ok (false, leaf)) : leaf.notBefore < leaf.notAfter := by
  obtain ⟨back, rfl⟩ := trusted.isPrefix
  have ofValidated : ∀ {pins anchor validation}, validateCertificateChain primitives pins anchor
      options.certificateProfileOptions (leafDer :: intermediateChainDer ++ back) =
        .ok validation → leaf.notBefore < leaf.notAfter := by
    intro pins anchor validation validated
    obtain ⟨other, _, _, parsedOther, -, -, -, profiled, -⟩ := exists_of_validated validated
    rw [parsed] at parsedOther
    cases parsedOther
    exact (leafProfile_eq_ok profiled).1
  rcases trusted with ⟨-, validation, validated⟩ | ⟨-, -, validation, validated⟩
  · exact ofValidated validated
  · exact ofValidated validated

/-- A trusted chain is current where its leaf and its issuers are. -/
theorem Trusted.all_valid_iff
    (trusted : Trusted primitives options (leafDer :: intermediateChainDer) chainDer) :
    (∀ der ∈ chainDer, DerValidAt primitives options.verifierTime.toInt.toNat der) ↔
      DerValidAt primitives options.verifierTime.toInt.toNat leafDer ∧
        IssuersValid primitives options chainDer := by
  obtain ⟨back, rfl⟩ := trusted.isPrefix
  unfold IssuersValid
  rw [List.cons_append, List.forall_mem_cons, List.tail_cons]

/-- **Chain checks.** At a time from 1970 on the checks of a document and of a
contact card agree exactly where, within the period of the leaf, a trusted chain
with current issuers is among the trusted chains, if there are any, and none is
in the last second of the leaf. -/
theorem chain_checks_agree_iff
    (untimed : options.certificateProfileOptions.validationTime = none)
    (positive : 0 ≤ options.verifierTime) :
    ChainChecksAgree primitives leafDer intermediateChainDer options ↔
      ∀ leaf, primitives.parse leafDer = .ok (false, leaf) →
        (leaf.notBefore ≤ options.verifierTime.toInt →
          options.verifierTime.toInt < leaf.notAfter →
          (∃ chainDer,
            Trusted primitives options (leafDer :: intermediateChainDer) chainDer) →
          ∃ chainDer, Trusted primitives options (leafDer :: intermediateChainDer) chainDer ∧
            IssuersValid primitives options chainDer) ∧
        (options.verifierTime.toInt = leaf.notAfter → ∀ chainDer,
          Trusted primitives options (leafDer :: intermediateChainDer) chainDer →
          ¬IssuersValid primitives options chainDer) := by
  have clock := castSigned_toNat positive
  have current : ∀ {leaf}, primitives.parse leafDer = .ok (false, leaf) →
      (DerValidAt primitives options.verifierTime.toInt.toNat leafDer ↔
        leaf.notBefore ≤ options.verifierTime.toInt ∧
          options.verifierTime.toInt ≤ leaf.notAfter) := by
    intro leaf parsed
    unfold DerValidAt X509Certificate.isValidAt
    rw [parsed, clock]
    simp
  unfold ChainChecksAgree
  rw [documentAccepted_iff, contactAccepted_iff untimed positive]
  constructor
  · rintro ⟨agree, -⟩ leaf parsed
    constructor
    · intro begun ends trusted
      obtain ⟨chainDer, found, valid⟩ := agree.mp ⟨⟨leaf, parsed, begun, ends⟩, trusted⟩
      exact ⟨chainDer, found, (found.all_valid_iff.mp valid).2⟩
    · intro last chainDer trusted issuers
      have period := trusted.leaf_period parsed
      have valid := (current parsed).mpr ⟨by omega, by omega⟩
      obtain ⟨⟨other, parsedOther, -, ends⟩, -⟩ :=
        agree.mpr ⟨chainDer, trusted, trusted.all_valid_iff.mpr ⟨valid, issuers⟩⟩
      rw [parsed] at parsedOther
      cases parsedOther
      omega
  · intro condition
    have toContact : ((∃ leaf, primitives.parse leafDer = .ok (false, leaf) ∧
          leaf.notBefore ≤ options.verifierTime.toInt ∧
          options.verifierTime.toInt < leaf.notAfter) ∧
        ∃ chainDer, Trusted primitives options (leafDer :: intermediateChainDer) chainDer) →
        ∃ chainDer, Trusted primitives options (leafDer :: intermediateChainDer) chainDer ∧
          ∀ der ∈ chainDer, DerValidAt primitives options.verifierTime.toInt.toNat der := by
      rintro ⟨⟨leaf, parsed, begun, ends⟩, trusted⟩
      obtain ⟨chainDer, found, issuers⟩ := (condition leaf parsed).1 begun ends trusted
      exact ⟨chainDer, found, found.all_valid_iff.mpr
        ⟨(current parsed).mpr ⟨begun, by omega⟩, issuers⟩⟩
    refine ⟨⟨toContact, ?_⟩, ?_⟩
    · rintro ⟨chainDer, trusted, valid⟩
      have both := trusted.all_valid_iff.mp valid
      obtain ⟨leaf, parsed, -⟩ := both.1
      obtain ⟨begun, ends⟩ := (current parsed).mp both.1
      have early : options.verifierTime.toInt ≠ leaf.notAfter := fun last =>
        (condition leaf parsed).2 last chainDer trusted both.2
      exact ⟨⟨leaf, parsed, begun, by omega⟩, chainDer, trusted⟩
    · intro accepted
      obtain ⟨chainDer, trusted, valid⟩ := accepted.elim toContact id
      intro der member
      exact valid der (trusted.isPrefix.subset member)

end

/-! ## A chain of three certificates -/

/-- A certificate of the profile, but for what its role asks for. -/
def sampleCertificate (issuer subject : UInt8) (notAfter : Int) : X509Certificate where
  issuer := [issuer]
  subject := [subject]
  notBefore := 0
  notAfter
  signatureAlgorithm := oidEcdsaWithSha256
  tbsSignatureAlgorithm := oidEcdsaWithSha256
  basicConstraints := .ok (some ⟨true, true, some 2⟩)
  keyUsage := .ok (some ⟨true, 96⟩)
  extendedKeyUsage := .ok none
  extendedKeyUsageOids := none
  subjectAlternativeName := .ok none
  authorityKeyIdentifier := some [issuer]
  subjectKeyIdentifier := some [subject]
  hasPolicy := fun _ => true
  extensionOids := [oidCrlDistributionPoints]
  publicMetadata := .error .missingMetadata

def sampleMetadata : CertificatePublicMetadata where
  version := 1
  publicSignerId := "psign_0123456789abcdef".toList
  publicOrgId := none
  publicDeviceId := "pdev_0123456789abcdef".toList
  assuranceLevel := .oauthVerifiedEmail
  policyOid := "1.2".toList

def sampleLeaf : X509Certificate :=
  { sampleCertificate 1 0 10000 with
    basicConstraints := .ok (some ⟨true, false, none⟩)
    keyUsage := .ok (some ⟨true, 1⟩)
    extendedKeyUsageOids := some [[7]]
    publicMetadata := .ok sampleMetadata }

/-- A leaf `[0]`, an intermediate `[1]` that expires at 500, and a root `[2]`. -/
def samplePrimitives : TrustPrimitives where
  digest := fun _ => List.Vector.replicate 32 0
  base64Decode := fun _ => none
  base64Encode := fun _ => []
  parse := fun der =>
    if der = [0] then .ok (false, sampleLeaf)
    else if der = [1] then .ok (false, sampleCertificate 2 1 500)
    else if der = [2] then .ok (false, sampleCertificate 2 2 100000)
    else .error []
  openSslParse := fun _ => .ok ()
  verifies := fun _ _ => .ok true
  unsupportedKey := fun _ => none
  oidBytes := fun oid => if oid = tzapOidDocumentSigningEku then some [7] else some []

def sampleOptions (verifierTime : UnixSeconds) : OfflineVerificationOptions where
  verifierTime
  officialRootPins := ⟨[sha256Identifier samplePrimitives.toPrimitives [2]], []⟩
  officialRootCertificatesDer := [[2]]
  customTrustRootSha256 := []
  customTrustRootCertificatesDer := []
  certificateProfileOptions := ⟨[], ["1.2".toList], none⟩

theorem sample_trusted (verifierTime : UnixSeconds) :
    Trusted samplePrimitives (sampleOptions verifierTime) [[0], [1]] [[0], [1], [2]] :=
  .inl ⟨.tail _ (.head _), ⟨.officialTzap, some .current,
    sha256Identifier samplePrimitives.toPrimitives [2], sampleMetadata⟩, rfl⟩

/-- While the intermediate is current, both checks accept. -/
theorem sample_checks_agree : ChainChecksAgree samplePrimitives [0] [[1]] (sampleOptions 100) := by
  refine (chain_checks_agree_iff rfl (by decide)).mpr ?_
  intro leaf parsed
  cases parsed
  refine ⟨fun _ _ _ => ⟨_, sample_trusted 100, ?_⟩, nofun⟩
  intro der member
  rcases List.mem_pair.mp member with rfl | rfl
  · exact ⟨_, rfl, rfl⟩
  · exact ⟨_, rfl, rfl⟩

/-- After the intermediate expired, a document is accepted and a contact card is not. -/
theorem expired_intermediate_divides :
    DocumentAccepted samplePrimitives [0] [[1]] (sampleOptions 1000) ∧
      ¬ContactAccepted samplePrimitives [0] [[1]] (sampleOptions 1000) ∧
      ¬ChainChecksAgree samplePrimitives [0] [[1]] (sampleOptions 1000) := by
  have document : DocumentAccepted samplePrimitives [0] [[1]] (sampleOptions 1000) :=
    documentAccepted_iff.mpr ⟨⟨sampleLeaf, rfl, by decide, by decide⟩, _, sample_trusted 1000⟩
  have contact : ¬ContactAccepted samplePrimitives [0] [[1]] (sampleOptions 1000) := by
    rw [contactAccepted_iff rfl (by decide)]
    rintro ⟨chainDer, trusted, valid⟩
    obtain ⟨certificate, parsed, current⟩ :=
      valid [1] (trusted.isPrefix.subset (.tail _ (.head _)))
    cases parsed
    cases current
  exact ⟨document, contact, fun agree => contact (agree.1.mp document)⟩

end ZManager.Identity
