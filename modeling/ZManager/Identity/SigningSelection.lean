import Mathlib.Data.List.Dedup
import ZManager.Foundation.LastMax
import ZManager.Identity.DefaultChoice

/-! # The certificate that signs

Which certificate signs is decided twice: over the inventory, for a key that the
caller keeps as its preference, and over the public catalog, for the key of its
default row. Among the usable certificates of the key both take the one with the
latest start; where several start at the same time the inventory takes the one
that is listed last, and the catalog the one with the greatest digest.
The loop over the rows finds no conflicting keys in the catalog of an inventory
(`SigningCandidates.Fits.visit_rows`).
-/

namespace ZManager.Identity

/-! ## Over the inventory -/

/-- `certificate_is_usable_for_signing`. -/
def EnrolledCertificate.isUsableForSigning (certificate : EnrolledCertificate)
    (inventory : Inventory) (nowUnixSeconds : Nat) : Bool :=
  certificate.state == .active &&
    decide (certificate.notBeforeUnixSeconds ≤ nowUnixSeconds) &&
    decide (nowUnixSeconds < certificate.notAfterUnixSeconds) &&
    !inventory.emergencyBlocklist.blockedIssuerSha256.contains certificate.issuerCertificateSha256 &&
    !inventory.certificateStatusCache.any fun status =>
      status.certificateSha256 == certificate.certificateSha256 && status.status != .valid

/-- `max_by_key` on the start of the validity: the last of the latest. -/
def latestCertificate : List EnrolledCertificate → Option EnrolledCertificate :=
  lastMax fun one two => decide (one.notBeforeUnixSeconds < two.notBeforeUnixSeconds)

/-- The usable certificates of a key, in the order of the inventory. -/
def usableCertificates (inventory : Inventory) (signingKeyId : Text) (nowUnixSeconds : Nat) :
    List EnrolledCertificate :=
  (inventory.enrolledCertificates.filter fun certificate =>
    certificate.signingKeyId == signingKeyId).filter fun certificate =>
      certificate.isUsableForSigning inventory nowUnixSeconds

/-- The latest usable certificate of a key. -/
def resolveDefaultSigningCertificateId (inventory : Inventory) (signingKeyId : Text)
    (nowUnixSeconds : Nat) : Except Text Text :=
  match latestCertificate (usableCertificates inventory signingKeyId nowUnixSeconds) with
  | none => .error ("no usable certificate found for signing key: ".toList ++ signingKeyId)
  | some certificate => .ok certificate.certificateId

/-! ## Over the catalog -/

/-- `catalog_identity_is_usable`. -/
def PublicSigningIdentity.isUsable (identity : PublicSigningIdentity) (catalog : Catalog)
    (nowUnixSeconds : Nat) : Bool :=
  identity.lifecycle == LocalCertificateState.active.asStr &&
    identity.notBeforeUnixSeconds.any (fun notBefore => notBefore ≤ nowUnixSeconds) &&
    identity.notAfterUnixSeconds.any (fun notAfter => nowUnixSeconds < notAfter) &&
    identity.issuerCertificateSha256.any (fun issuer =>
      !catalog.emergencyBlocklist.blockedIssuerSha256.contains issuer) &&
    identity.certificateSha256.any fun certificate =>
      !catalog.statusCache.any fun status =>
        status.lookupId == certificate && status.status != CertificateStatus.valid.asStr

/-- What the loop over the rows has found: the fingerprint of each key reference and of
each inventory key, and the candidates. -/
structure SigningCandidates where
  referenceKeys : Text → Option Text
  inventoryKeys : Text → Option Text
  candidates : List (SigningKeyIdentity × PublicSigningIdentity)

def SigningCandidates.empty : SigningCandidates := ⟨fun _ => none, fun _ => none, []⟩

/-- The error for a key reference with several keys. -/
def conflictingKeys : Text := "conflicting public keys for a signing key reference".toList

/-- `HashMap::insert` of a fingerprint, unless another one was there. -/
def insertFingerprint (keys : Text → Option Text) (name fingerprint : Text) :
    Except Text (Text → Option Text) :=
  if (keys name).any (· != fingerprint) then .error conflictingKeys
  else .ok (Function.update keys name (some fingerprint))

/-- A usable row whose certificates parse is a candidate. -/
def SigningCandidates.push (found : SigningCandidates) (key : SigningKeyIdentity)
    (identity : PublicSigningIdentity) : Except Text SigningCandidates := do
  let referenceKeys ←
    insertFingerprint found.referenceKeys identity.signingKeyRef key.publicKeyFingerprint
  let inventoryKeys ← match identity.inventoryKeyId with
    | none => Except.ok found.inventoryKeys
    | some inventoryKeyId =>
      insertFingerprint found.inventoryKeys inventoryKeyId key.publicKeyFingerprint
  return ⟨referenceKeys, inventoryKeys, found.candidates ++ [(key, identity)]⟩

section

variable (primitives : CatalogPrimitives)

def SigningCandidates.visit (catalog : Catalog) (nowUnixSeconds : Nat) (found : SigningCandidates)
    (identity : PublicSigningIdentity) : Except Text SigningCandidates :=
  if identity.certificateId.isNone then .ok found
  else if !identity.isUsable catalog nowUnixSeconds then .ok found
  else
    match identity.certificateKeyIdentity primitives with
    -- a malformed unrelated row does not block a valid candidate
    | .error _ => .ok found
    | .ok key => found.push key identity

/-- The error of a row whose certificates do not parse, as text. -/
def malformedChain : Text := "identity catalog field is invalid: certificate_chain_der".toList

/-- The key of the default row. -/
def preferredSigningKey (catalog : Catalog) : Except Text (Option SigningKeyIdentity) :=
  match catalog.defaultSigningIdentityId with
  | none => .ok none
  | some id =>
    match catalog.signingIdentities.find? fun identity => identity.id == id with
    | none => .error "preferred signing identity is missing".toList
    | some identity =>
      match identity.certificateKeyIdentity primitives with
      | .error _ => .error malformedChain
      | .ok key => .ok (some key)

/-- The preferred key, or the only one; the keys count once each. -/
def chooseSigningKey (preferred : Option SigningKeyIdentity) (keys : List SigningKeyIdentity) :
    Except Text SigningKeyIdentity :=
  match preferred, keys.dedup with
  | some key, _ => .ok key
  | none, [] => .error ("no usable local certificate found for --signing-identity; enroll one " ++
      "with `zm auth cert enroll` or the desktop/mobile app").toList
  | none, [key] => .ok key
  | none, _ => .error ("more than one local signing key; disambiguate with --signing-identity " ++
      "<certificate-id> (see `zm tzap certs`)").toList

def noUsableCertificate : Text := "no usable certificate found for the preferred signing key".toList

/-- The identity to sign with. -/
def selectCatalogSigningIdentity (catalog : Catalog) (nowUnixSeconds : Nat) :
    Except Text PublicSigningIdentity := do
  let found ← catalog.signingIdentities.foldlM
    (SigningCandidates.visit primitives catalog nowUnixSeconds) .empty
  let preferred ← preferredSigningKey primitives catalog
  let signingKey ← chooseSigningKey preferred (found.candidates.map Prod.fst)
  match latestDefault ((found.candidates.filter fun candidate =>
      candidate.1 == signingKey).map Prod.snd) with
  | none => .error noUsableCertificate
  | some identity => return identity

end

/-! ## The rows of certificates -/

/-- The row of a certificate, with what the selection reads of it. -/
structure CertifiedRow (primitives : CatalogPrimitives) (inventory : Inventory)
    (refs : SecretRefMap) (certificate : EnrolledCertificate) (row : PublicSigningIdentity) :
    Prop where
  isRow : IsRowOf certificate row
  certificateId : row.certificateId = some certificate.certificateId
  certificateSha256 : row.certificateSha256 = some certificate.certificateSha256
  issuer : row.issuerCertificateSha256 = some certificate.issuerCertificateSha256
  notBefore : row.notBeforeUnixSeconds = some certificate.notBeforeUnixSeconds
  notAfter : row.notAfterUnixSeconds = some certificate.notAfterUnixSeconds
  signer : row.publicSignerId = some certificate.publicMetadata.publicSignerId
  org : row.publicOrgId = certificate.publicMetadata.publicOrgId
  device : row.publicDeviceId = some certificate.publicMetadata.publicDeviceId
  inventoryKey : row.inventoryKeyId = some certificate.signingKeyId
  reference : refs certificate.signingKeyId = some row.signingKeyRef
  binding : backingBinding primitives (inventory.deviceSigningKeys.find? fun key =>
    key.keyId == certificate.signingKeyId) = .ok row.hostedBinding

theorem certifiedRow_of_certificateRow {primitives : CatalogPrimitives} {inventory : Inventory}
    {refs : SecretRefMap} {certificate : EnrolledCertificate} {row : PublicSigningIdentity}
    (made : certificateRow primitives inventory refs certificate = .ok row) :
    CertifiedRow primitives inventory refs certificate row := by
  have isRow := isRowOf_certificateRow made
  unfold certificateRow at made
  cases found : refs certificate.signingKeyId with
  | none =>
    rw [found] at made
    cases made
  | some reference =>
    rw [found] at made
    obtain ⟨binding, backed, made⟩ := Except.bind_eq_ok_iff.mp made
    cases made
    exact ⟨isRow, rfl, rfl, rfl, rfl, rfl, rfl, rfl, rfl, rfl, found, backed⟩

/-- Every certificate of the chain parses. -/
def EnrolledCertificate.reads (certificate : EnrolledCertificate) (primitives : CatalogPrimitives) :
    Bool :=
  (certificate.leafCertificateDer :: certificate.intermediateChainDer).all
    primitives.certificateParses

/-- The leaf of each certificate has the key that the certificate names, different keys have
different fingerprints, and the certificates of a key agree on who signs. -/
structure KeysNamed (primitives : CatalogPrimitives) (inventory : Inventory) : Prop where
  leafKey : ∀ certificate ∈ inventory.enrolledCertificates,
    ∃ key ∈ inventory.deviceSigningKeys, key.keyId = certificate.signingKeyId ∧
      ∃ publicKeyDer, primitives.certificateKey certificate.leafCertificateDer = some publicKeyDer ∧
        sha256Identifier primitives.toPrimitives publicKeyDer = key.publicKeyFingerprint
  distinct : ∀ one ∈ inventory.deviceSigningKeys, ∀ two ∈ inventory.deviceSigningKeys,
    one.publicKeyFingerprint = two.publicKeyFingerprint → one.keyId = two.keyId
  scope : ∀ one ∈ inventory.enrolledCertificates, ∀ two ∈ inventory.enrolledCertificates,
    one.signingKeyId = two.signingKeyId →
      one.publicMetadata.publicSignerId = two.publicMetadata.publicSignerId ∧
      one.publicMetadata.publicOrgId = two.publicMetadata.publicOrgId ∧
      one.publicMetadata.publicDeviceId = two.publicMetadata.publicDeviceId

/-- A catalog of an inventory, with a certificate as its default. -/
structure CatalogOn (primitives : CatalogPrimitives) (inventory : Inventory) (refs : SecretRefMap)
    (chosen : Text) (catalog : Catalog) : Prop where
  rows : ∃ certified uncertified, catalog.signingIdentities = certified ++ uncertified ∧
    List.Forall₂ (CertifiedRow primitives inventory refs) inventory.enrolledCertificates
      certified ∧
    ∀ row ∈ uncertified, row.certificateId = none
  ids : (catalog.signingIdentities.map (·.id)).Nodup
  status : catalog.statusCache = inventory.certificateStatusCache.map statusRow
  blocklist : catalog.emergencyBlocklist = inventory.emergencyBlocklist
  default : catalog.defaultSigningIdentityId = some chosen
  fresh : ∀ one two reference, refs one = some reference → refs two = some reference → one = two

theorem valid_iff {status : CertificateStatus} :
    status.asStr = CertificateStatus.valid.asStr ↔ status = .valid := by
  cases status <;> decide

section

variable {primitives : CatalogPrimitives} {inventory : Inventory} {refs : SecretRefMap}
  {catalog : Catalog} {chosen : Text} {certificate other : EnrolledCertificate}
  {row another : PublicSigningIdentity} {nowUnixSeconds : Nat}

section

variable (isRow : CertifiedRow primitives inventory refs certificate row)
include isRow

/-- The strings of the catalog say of a certificate what the inventory says. -/
theorem CertifiedRow.isUsable (made : CatalogOn primitives inventory refs chosen catalog) :
    row.isUsable catalog nowUnixSeconds =
      certificate.isUsableForSigning inventory nowUnixSeconds := by
  have state : (row.lifecycle == LocalCertificateState.active.asStr) =
      (certificate.state == .active) := by
    rw [isRow.isRow.lifecycle, Bool.eq_iff_iff, beq_iff_eq, beq_iff_eq]
    exact lifecycle_active_iff
  have status : ∀ record : CertificateStatusCacheRecord,
      ((statusRow record).status != CertificateStatus.valid.asStr) = (record.status != .valid) := by
    intro record
    rw [Bool.eq_iff_iff, bne_iff_ne, bne_iff_ne]
    exact not_congr valid_iff
  unfold PublicSigningIdentity.isUsable EnrolledCertificate.isUsableForSigning
  rw [state, isRow.notBefore, isRow.notAfter, isRow.issuer, isRow.certificateSha256, made.status,
    made.blocklist]
  simp only [Option.any_some, List.any_map, Function.comp_def, status]
  rfl

theorem CertifiedRow.keyIdentity_of_unread (unread : certificate.reads primitives = false) :
    ∃ reason, row.certificateKeyIdentity primitives = .error reason := by
  refine ⟨.invalidCatalog "certificate_chain_der", ?_⟩
  have parts : row.certificateParts primitives =
      .error (.invalidCatalog "certificate_chain_der") := by
    unfold PublicSigningIdentity.certificateParts
    rw [isRow.isRow.chain]
    exact if_neg (Bool.eq_false_iff.mp unread)
  unfold PublicSigningIdentity.certificateKeyIdentity
  rw [parts]
  rfl

/-- The key of a row is the one that its certificate names. -/
theorem CertifiedRow.keyIdentity (named : KeysNamed primitives inventory)
    (member : certificate ∈ inventory.enrolledCertificates)
    (reads : certificate.reads primitives = true) :
    ∃ key ∈ inventory.deviceSigningKeys, key.keyId = certificate.signingKeyId ∧
      row.certificateKeyIdentity primitives = .ok {
        publicKeyFingerprint := key.publicKeyFingerprint
        signerId := some certificate.publicMetadata.publicSignerId
        orgId := certificate.publicMetadata.publicOrgId
        deviceId := some certificate.publicMetadata.publicDeviceId
        hostedBinding := bindingScope row.hostedBinding } := by
  obtain ⟨key, listed, same, publicKeyDer, held, fingerprint⟩ := named.leafKey certificate member
  refine ⟨key, listed, same, ?_⟩
  have parts : row.certificateParts primitives =
      .ok (certificate.leafCertificateDer, certificate.intermediateChainDer) := by
    unfold PublicSigningIdentity.certificateParts
    rw [isRow.isRow.chain]
    exact if_pos reads
  unfold PublicSigningIdentity.certificateKeyIdentity
  rw [parts]
  simp only [bind, Except.bind]
  rw [held, isRow.signer, isRow.org, isRow.device, ← fingerprint]
  rfl

/-- Rows have one key when their certificates name one key. -/
theorem CertifiedRow.sameKey_iff (isOther : CertifiedRow primitives inventory refs other another)
    (named : KeysNamed primitives inventory)
    (member : certificate ∈ inventory.enrolledCertificates)
    (inside : other ∈ inventory.enrolledCertificates)
    (unique : (inventory.deviceSigningKeys.map (·.keyId)).Nodup) {one two : SigningKeyIdentity}
    (first : row.certificateKeyIdentity primitives = .ok one)
    (second : another.certificateKeyIdentity primitives = .ok two) :
    one = two ↔ certificate.signingKeyId = other.signingKeyId := by
  have readable : ∀ {candidate candidateRow found},
      CertifiedRow primitives inventory refs candidate candidateRow →
      candidateRow.certificateKeyIdentity primitives = .ok found →
        candidate.reads primitives = true := by
    intro candidate candidateRow found isCandidate parses
    by_contra unread
    obtain ⟨reason, failed⟩ := isCandidate.keyIdentity_of_unread (eq_false_of_ne_true unread)
    cases failed.symm.trans parses
  obtain ⟨key, listed, own, is⟩ := isRow.keyIdentity named member (readable isRow first)
  obtain ⟨key', listed', own', is'⟩ := isOther.keyIdentity named inside (readable isOther second)
  cases first.symm.trans is
  cases second.symm.trans is'
  constructor
  · intro same
    rw [← own, ← own']
    exact named.distinct key listed key' listed' (congrArg (·.publicKeyFingerprint) same)
  · intro same
    have key : key = key' := List.inj_on_of_nodup_map unique listed listed' (by
      rw [own, own', same])
    obtain ⟨signer, org, device⟩ := named.scope certificate member other inside same
    have binding : row.hostedBinding = another.hostedBinding := by
      have bound := isRow.binding
      rw [same, isOther.binding] at bound
      exact (Except.ok.inj bound).symm
    rw [key, signer, org, device, binding]

end

end

/-! ## The loop over the rows -/

/-- The candidate that a row gives. -/
def candidateOf (primitives : CatalogPrimitives) (catalog : Catalog) (nowUnixSeconds : Nat)
    (row : PublicSigningIdentity) : Option (SigningKeyIdentity × PublicSigningIdentity) :=
  if row.certificateId.isSome && row.isUsable catalog nowUnixSeconds then
    (row.certificateKeyIdentity primitives).toOption.map fun key => (key, row)
  else none

/-- The fingerprints that were found are those of the keys of the inventory. -/
structure SigningCandidates.Fits (inventory : Inventory) (refs : SecretRefMap)
    (found : SigningCandidates) : Prop where
  reference : ∀ reference fingerprint, found.referenceKeys reference = some fingerprint →
    ∃ key ∈ inventory.deviceSigningKeys, refs key.keyId = some reference ∧
      key.publicKeyFingerprint = fingerprint
  inventoryKey : ∀ keyId fingerprint, found.inventoryKeys keyId = some fingerprint →
    ∃ key ∈ inventory.deviceSigningKeys, key.keyId = keyId ∧
      key.publicKeyFingerprint = fingerprint

theorem SigningCandidates.fits_empty (inventory : Inventory) (refs : SecretRefMap) :
    SigningCandidates.empty.Fits inventory refs := ⟨nofun, nofun⟩

theorem insertFingerprint_eq_ok {keys : Text → Option Text} {name fingerprint : Text}
    (agrees : ∀ previous, keys name = some previous → previous = fingerprint) :
    insertFingerprint keys name fingerprint =
      .ok (Function.update keys name (some fingerprint)) := by
  apply if_neg
  intro conflict
  obtain ⟨previous, held, different⟩ := (Option.any_eq_true _ _).mp conflict
  exact bne_iff_ne.mp different (agrees previous held)

section

variable {primitives : CatalogPrimitives} {inventory : Inventory} {refs : SecretRefMap}
  {catalog : Catalog} {nowUnixSeconds : Nat} {found : SigningCandidates}
  {row : PublicSigningIdentity}

/-- A row of a key of the inventory is pushed without a conflict. -/
theorem SigningCandidates.Fits.push (fits : found.Fits inventory refs)
    (unique : (inventory.deviceSigningKeys.map (·.keyId)).Nodup)
    (fresh : ∀ one two reference, refs one = some reference → refs two = some reference →
      one = two)
    {key : DeviceSigningKey} (listed : key ∈ inventory.deviceSigningKeys)
    (reference : refs key.keyId = some row.signingKeyRef)
    (named : row.inventoryKeyId = some key.keyId) {identity : SigningKeyIdentity}
    (fingerprint : identity.publicKeyFingerprint = key.publicKeyFingerprint) :
    ∃ next, found.push identity row = .ok next ∧ next.Fits inventory refs ∧
      next.candidates = found.candidates ++ [(identity, row)] := by
  have firstAgrees : ∀ previous, found.referenceKeys row.signingKeyRef = some previous →
      previous = identity.publicKeyFingerprint := by
    intro previous held
    obtain ⟨other, inside, same, rfl⟩ := fits.reference _ _ held
    have equal : other = key :=
      List.inj_on_of_nodup_map unique inside listed (fresh _ _ _ same reference)
    rw [equal, fingerprint]
  have secondAgrees : ∀ previous, found.inventoryKeys key.keyId = some previous →
      previous = identity.publicKeyFingerprint := by
    intro previous held
    obtain ⟨other, inside, same, rfl⟩ := fits.inventoryKey _ _ held
    have equal : other = key := List.inj_on_of_nodup_map unique inside listed same
    rw [equal, fingerprint]
  let next : SigningCandidates := {
    referenceKeys := Function.update found.referenceKeys row.signingKeyRef
      (some identity.publicKeyFingerprint)
    inventoryKeys := Function.update found.inventoryKeys key.keyId
      (some identity.publicKeyFingerprint)
    candidates := found.candidates ++ [(identity, row)] }
  refine ⟨next, ?_, ⟨?_, ?_⟩, rfl⟩
  · unfold SigningCandidates.push
    rw [insertFingerprint_eq_ok firstAgrees, named]
    dsimp only
    rw [insertFingerprint_eq_ok secondAgrees]
    rfl
  · intro name held shown
    change Function.update found.referenceKeys row.signingKeyRef _ name = some held at shown
    rw [Function.update_apply] at shown
    split_ifs at shown with same
    · cases shown
      exact ⟨key, listed, same ▸ reference, fingerprint.symm⟩
    · exact fits.reference name held shown
  · intro name held shown
    change Function.update found.inventoryKeys key.keyId _ name = some held at shown
    rw [Function.update_apply] at shown
    split_ifs at shown with same
    · cases shown
      exact ⟨key, listed, same.symm, fingerprint.symm⟩
    · exact fits.inventoryKey name held shown

/-- A row that gives a candidate is one of a key of the inventory. -/
def RowFits (primitives : CatalogPrimitives) (inventory : Inventory) (refs : SecretRefMap)
    (row : PublicSigningIdentity) : Prop :=
  ∀ identity, row.certificateId.isSome → row.certificateKeyIdentity primitives = .ok identity →
    ∃ key ∈ inventory.deviceSigningKeys, refs key.keyId = some row.signingKeyRef ∧
      row.inventoryKeyId = some key.keyId ∧
      identity.publicKeyFingerprint = key.publicKeyFingerprint

theorem SigningCandidates.Fits.visit (fits : found.Fits inventory refs)
    (unique : (inventory.deviceSigningKeys.map (·.keyId)).Nodup)
    (fresh : ∀ one two reference, refs one = some reference → refs two = some reference →
      one = two)
    (rowFits : RowFits primitives inventory refs row) :
    ∃ next, found.visit primitives catalog nowUnixSeconds row = .ok next ∧
      next.Fits inventory refs ∧ next.candidates =
        found.candidates ++ (candidateOf primitives catalog nowUnixSeconds row).toList := by
  unfold SigningCandidates.visit candidateOf
  cases certified : row.certificateId with
  | none => exact ⟨found, rfl, fits, (List.append_nil _).symm⟩
  | some certificateId =>
    cases usable : row.isUsable catalog nowUnixSeconds with
    | false => exact ⟨found, rfl, fits, (List.append_nil _).symm⟩
    | true =>
      cases parses : row.certificateKeyIdentity primitives with
      | error reason => exact ⟨found, rfl, fits, (List.append_nil _).symm⟩
      | ok identity =>
        obtain ⟨key, listed, reference, named, fingerprint⟩ :=
          rowFits identity (by rw [certified]; rfl) parses
        exact fits.push unique fresh listed reference named fingerprint

theorem SigningCandidates.Fits.visit_rows {rows : List PublicSigningIdentity}
    (fits : found.Fits inventory refs)
    (unique : (inventory.deviceSigningKeys.map (·.keyId)).Nodup)
    (fresh : ∀ one two reference, refs one = some reference → refs two = some reference →
      one = two)
    (each : ∀ row ∈ rows, RowFits primitives inventory refs row) :
    ∃ last, rows.foldlM (SigningCandidates.visit primitives catalog nowUnixSeconds) found =
        .ok last ∧
      last.candidates =
        found.candidates ++ rows.filterMap (candidateOf primitives catalog nowUnixSeconds) := by
  induction rows generalizing found with
  | nil => exact ⟨found, rfl, (List.append_nil _).symm⟩
  | cons row rest ih =>
    obtain ⟨next, visited, kept, grown⟩ :=
      @SigningCandidates.Fits.visit primitives inventory refs catalog nowUnixSeconds found row
        fits unique fresh (each row List.mem_cons_self)
    obtain ⟨last, ran, all⟩ := ih kept fun row member => each row (List.mem_cons_of_mem _ member)
    refine ⟨last, ?_, ?_⟩
    · rw [List.foldlM_cons, visited]
      exact ran
    · rw [all, grown, List.append_assoc]
      congr 1
      cases candidate : candidateOf primitives catalog nowUnixSeconds row with
      | none => rw [List.filterMap_cons_none candidate]; rfl
      | some pair => rw [List.filterMap_cons_some candidate]; rfl

end

end ZManager.Identity
