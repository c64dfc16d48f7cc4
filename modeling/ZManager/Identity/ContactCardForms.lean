import ZManager.Foundation.Base64Url
import ZManager.Identity.ContactCard

/-! # Compact and full contact cards

Both forms of a card are made of the same records. `compact_card_agrees_iff` says
when they verify alike: a lookup finds one certificate, so that a second
intermediate is lost with the compact form.
-/

namespace ZManager.Identity

/-! ## The two forms of a card -/

/-- A stored chain of intermediates, with or without the root, that the profile
accepts at the time of the verifier with a trusted root, and whose intermediates
the resolver has by their subject key identifiers. -/
structure CardChain (primitives : TrustPrimitives) (options : ContactCardImportOptions)
    (certificate : EnrolledCertificate) (intermediates : List (List UInt8))
    (root : List UInt8) : Prop where
  dated : 0 ≤ options.verifierTime
  stored : certificate.intermediateChainDer = intermediates ∨
    certificate.intermediateChainDer = intermediates ++ [root]
  accepted : (root ∈ options.officialRootCertificatesDer ∧
      ∃ validation, validateOfficialCertificateChain primitives options.officialRootPins
        options.timedProfile (certificate.leafCertificateDer :: (intermediates ++ [root])) =
          .ok validation) ∨
    (root ∈ options.customTrustRootCertificatesDer ∧
      options.customTrustRootSha256.contains (sha256Identifier primitives.toPrimitives root) ∧
      ∃ validation, validateCustomCertificateChain primitives options.timedProfile
        (certificate.leafCertificateDer :: (intermediates ++ [root])) = .ok validation)
  resolver : ∃ resolve, options.intermediateResolver = some resolve ∧
    ∀ der ∈ intermediates, ∀ intermediate key, primitives.parse der = .ok (false, intermediate) →
      intermediate.subjectKeyIdentifier = some key → resolve key = .ok (some der)

/-- Both cards verify or neither does, with the same fields but for the chain in
the payload. -/
def CardFormsAgree (primitives : ContactCardPrimitives) (compactCard fullCard : Json)
    (options : ContactCardImportOptions) (missingStatusCaveat : Bool) : Prop :=
  let verify := fun card => verifyContactCard primitives card options missingStatusCaveat
  ((∃ card, verify compactCard = .ok card) ↔ ∃ card, verify fullCard = .ok card) ∧
    ∀ fromCompact fromFull, verify compactCard = .ok fromCompact → verify fullCard = .ok fromFull →
      { fromCompact with payload := fromFull.payload } = fromFull ∧
        ∀ key, key ≠ "intermediate_chain_der".toList →
          fromCompact.payload.get key = fromFull.payload.get key

section

variable {primitives : TrustPrimitives} {options : ContactCardImportOptions}
  {certificate : EnrolledCertificate} {intermediates : List (List UInt8)} {root : List UInt8}
  (chain : CardChain primitives options certificate intermediates root)

include chain

theorem CardChain.exists_validated : ∃ pins anchor validation,
    validateCertificateChain primitives pins anchor options.timedProfile
      (certificate.leafCertificateDer :: (intermediates ++ [root])) = .ok validation := by
  rcases chain.accepted with ⟨-, validation, validated⟩ | ⟨-, -, validation, validated⟩
  · exact ⟨_, _, validation, validated⟩
  · exact ⟨_, _, validation, validated⟩

theorem CardChain.anchored : ∃ anchor,
    AnchoredIn primitives options.toOfflineVerificationOptions
      (certificate.leafCertificateDer :: intermediates) anchor := by
  by_cases official : OfficiallyTrusted primitives options.toOfflineVerificationOptions
    (certificate.leafCertificateDer :: intermediates)
  · exact ⟨.officialTzap, official⟩
  · refine ⟨.custom, official, ?_⟩
    rcases chain.accepted with ⟨known, validated⟩ | ⟨known, configured, validated⟩
    · exact absurd ⟨_, List.mem_cons_of_mem _ (List.mem_map_of_mem known), validated⟩ official
    · refine ⟨_, List.mem_cons_of_mem _ (List.mem_map_of_mem known), ?_, validated⟩
      unfold endsInConfiguredRoot
      rw [List.getLast?_concat]
      exact configured

/-- The chain has one intermediate or two. -/
theorem CardChain.length_intermediates :
    intermediates.length = 1 ∨ intermediates.length = 2 := by
  obtain ⟨_, _, _, validated⟩ := chain.exists_validated
  have sized := length_of_validated validated
  simp only [List.length_cons, List.length_append, List.length_nil, minTzapChainLen,
    maxTzapChainLen] at sized
  omega

/-- The certificates of the chain are there. -/
theorem CardChain.parses : ∀ der ∈ certificate.leafCertificateDer :: intermediates,
    ∃ parsed, primitives.parse der = .ok (false, parsed) := by
  obtain ⟨_, _, _, validated⟩ := chain.exists_validated
  obtain ⟨leaf, issuer, rest, parsedLeaf, parses, -⟩ := exists_of_validated validated
  intro der member
  rcases List.mem_cons.mp member with rfl | inside
  · exact ⟨leaf, parsedLeaf⟩
  · obtain ⟨parsed, -, done⟩ :=
      forall₂_exists_of_mem_left parses (List.mem_append_left [root] inside)
    exact ⟨parsed, done⟩

/-- The resolver has the first intermediate by what the leaf names as its issuer. -/
theorem CardChain.resolves {first : List UInt8} {others : List (List UInt8)}
    (same : intermediates = first :: others) :
    resolveIntermediates primitives options.intermediateResolver certificate.leafCertificateDer
      [] = .ok [first] := by
  obtain ⟨_, _, _, validated⟩ := chain.exists_validated
  obtain ⟨leaf, issuer, rest, parsedLeaf, parses, -, named, -⟩ := exists_of_validated validated
  subst same
  obtain ⟨parsedIssuer, -⟩ := List.forall₂_cons.mp parses
  obtain ⟨key, leafAki, issuerSki⟩ := requireLeafAkiMatchesIssuer_eq_ok named
  obtain ⟨resolve, configured, resolves⟩ := chain.resolver
  have found := resolves first List.mem_cons_self issuer key parsedIssuer issuerSki
  unfold resolveIntermediates extractAuthorityKeyIdentifier
  simp only [parsedLeaf, leafAki, configured, found]
  rfl

/-- The public intermediates are the stored ones, but for a last one that names
itself as its issuer. -/
theorem CardChain.public_isPrefix :
    publicIntermediateChainDer primitives certificate.intermediateChainDer <+: intermediates ∧
      (1 < (publicIntermediateChainDer primitives certificate.intermediateChainDer).length →
        publicIntermediateChainDer primitives certificate.intermediateChainDer =
          intermediates) := by
  unfold publicIntermediateChainDer
  rcases chain.stored with stored | stored
  · rw [stored]
    cases last : intermediates.getLast? with
    | none =>
      rw [List.getLast?_eq_none_iff.mp last]
      exact ⟨List.prefix_rfl, fun _ => rfl⟩
    | some der =>
      dsimp only
      split_ifs
      · refine ⟨List.dropLast_prefix _, fun long => ?_⟩
        rw [List.length_dropLast] at long
        rcases chain.length_intermediates with sized | sized <;> omega
      · exact ⟨List.prefix_rfl, fun _ => rfl⟩
  · obtain ⟨_, _, _, validated⟩ := chain.exists_validated
    obtain ⟨parsed, done, same⟩ := root_of_validated validated
    have selfIssued : isSelfIssued primitives root = true := by
      unfold isSelfIssued
      rw [done]
      exact beq_iff_eq.mpr same
    rw [stored, List.getLast?_concat]
    dsimp only
    rw [if_pos selfIssued, List.dropLast_concat]
    exact ⟨List.prefix_rfl, fun _ => rfl⟩

end

section

variable {primitives : ContactCardPrimitives} {owns : List UInt8 → List UInt8 → Prop}
  {inventory : Inventory} {request : ContactCardExportRequest} {records : CardRecords}
  {options : ContactCardImportOptions} {intermediates : List (List UInt8)} {root : List UInt8}

variable {certificate : EnrolledCertificate}

/-- The intermediates that a verifier has: those of the card, or the issuer of the leaf. -/
def carriedIntermediates (primitives : TrustPrimitives) (compact : Bool)
    (certificate : EnrolledCertificate) (first : List UInt8) : List (List UInt8) :=
  if compact = true ∨ publicIntermediateChainDer primitives certificate.intermediateChainDer = []
  then [first]
  else publicIntermediateChainDer primitives certificate.intermediateChainDer

theorem carriedIntermediates_compact (primitives : TrustPrimitives)
    (certificate : EnrolledCertificate) (first : List UInt8) :
    carriedIntermediates primitives true certificate first = [first] :=
  if_pos (.inl rfl)

/-- At most one public intermediate is the issuer of the leaf. -/
theorem carriedIntermediates_short {primitives : TrustPrimitives} {first : List UInt8}
    {others : List (List UInt8)}
    (isPrefix : publicIntermediateChainDer primitives certificate.intermediateChainDer <+:
      first :: others) (short : (publicIntermediateChainDer primitives
      certificate.intermediateChainDer).length ≤ 1) :
    carriedIntermediates primitives false certificate first = [first] := by
  unfold carriedIntermediates
  generalize publicIntermediateChainDer primitives certificate.intermediateChainDer = shown at *
  cases shown with
  | nil => exact if_pos (.inr rfl)
  | cons der rest =>
    have blank : rest = [] := List.eq_nil_of_length_eq_zero (by simpa using short)
    rw [if_neg (by simp), blank, (List.cons_prefix_cons.mp isPrefix).1]

theorem carriedIntermediates_long {primitives : TrustPrimitives} {first : List UInt8}
    (long : 1 < (publicIntermediateChainDer primitives certificate.intermediateChainDer).length) :
    carriedIntermediates primitives false certificate first =
      publicIntermediateChainDer primitives certificate.intermediateChainDer := by
  refine if_neg ?_
  rintro (contra | blank)
  · cases contra
  · rw [blank] at long
    exact absurd long (Nat.not_lt_zero 1)

theorem verify_exported_iff (sound : CardsSound primitives owns)
    (named : records.NamedIn inventory request)
    (chain : CardChain primitives.toTrustPrimitives options records.certificate intermediates root)
    {first : List UInt8} {others : List (List UInt8)} (same : intermediates = first :: others)
    {card : Json} (exported : exportContactCard primitives inventory request = .ok card)
    {missingStatusCaveat : Bool} {verified : VerifiedContactCard} :
    verifyContactCard primitives card options missingStatusCaveat = .ok verified ↔
      records.Presentable primitives owns request options.verifierTime ∧
        ∃ anchor, AnchoredIn primitives.toTrustPrimitives options.toOfflineVerificationOptions
            (records.certificate.leafCertificateDer :: carriedIntermediates
              primitives.toTrustPrimitives request.compact records.certificate first) anchor ∧
          verified = records.verified primitives.toTrustPrimitives request anchor
            missingStatusCaveat := by
  obtain ⟨titled, message, signature, canonical, signed, rfl⟩ :=
    exists_of_exportContactCard named exported
  have filled : ∀ der ∈ records.certificate.leafCertificateDer :: intermediates, der ≠ [] := by
    rintro der member rfl
    obtain ⟨parsed, done⟩ := chain.parses [] member
    exact sound.emptyCertificate _ done
  have nonempty := filled _ List.mem_cons_self
  have looked := chain.resolves same
  unfold carriedIntermediates
  cases compact : request.compact with
  | true =>
    rw [if_pos (.inl rfl)]
    exact sound.verifyContactCard_eq_ok titled nonempty canonical signed chain.dated
      (embeddedIntermediates_compact compact) looked
  | false =>
    have carried : ∀ der ∈ publicIntermediateChainDer primitives.toTrustPrimitives
        records.certificate.intermediateChainDer, der ≠ [] := fun der member =>
      filled der (List.mem_cons_of_mem _ (chain.public_isPrefix.1.subset member))
    have stored : embeddedIntermediates primitives.toPrimitives
        (records.payload primitives.toTrustPrimitives request) = _ :=
      sound.embeddedIntermediates_full compact carried
    refine sound.verifyContactCard_eq_ok titled nonempty canonical signed chain.dated stored ?_
    by_cases blank : publicIntermediateChainDer primitives.toTrustPrimitives
      records.certificate.intermediateChainDer = []
    · rw [if_pos (.inr blank), blank]
      exact looked
    · rw [if_neg (by simp [blank])]
      exact if_pos blank

theorem CardRecords.presentable_compact (compact : Bool) {time : UnixSeconds} :
    records.Presentable primitives owns { request with compact } time ↔
      records.Presentable primitives owns request time :=
  ⟨fun presentable => ⟨presentable.algorithm, presentable.unexpired, presentable.metadata,
      presentable.version, presentable.certificateSha256, presentable.publicKey,
      presentable.fingerprint, presentable.signer⟩,
    fun presentable => ⟨presentable.algorithm, presentable.unexpired, presentable.metadata,
      presentable.version, presentable.certificateSha256, presentable.publicKey,
      presentable.fingerprint, presentable.signer⟩⟩

/-- Cards that verify where their chains are trusted agree where the chains are
trusted by one anchor, or neither is trusted. -/
theorem cardFormsAgree_iff {compactCard fullCard : Json} {missingStatusCaveat : Bool}
    {shown : Prop} {compactChain fullChain : List (List UInt8)}
    (fromCompact : ∀ {verified}, verifyContactCard primitives compactCard options
        missingStatusCaveat = .ok verified ↔ shown ∧ ∃ anchor,
      AnchoredIn primitives.toTrustPrimitives options.toOfflineVerificationOptions compactChain
          anchor ∧
        verified = records.verified primitives.toTrustPrimitives
          { request with compact := true } anchor missingStatusCaveat)
    (fromFull : ∀ {verified}, verifyContactCard primitives fullCard options
        missingStatusCaveat = .ok verified ↔ shown ∧ ∃ anchor,
      AnchoredIn primitives.toTrustPrimitives options.toOfflineVerificationOptions fullChain
          anchor ∧
        verified = records.verified primitives.toTrustPrimitives
          { request with compact := false } anchor missingStatusCaveat) :
    CardFormsAgree primitives compactCard fullCard options missingStatusCaveat ↔
      (shown →
        (∃ anchor,
          AnchoredIn primitives.toTrustPrimitives options.toOfflineVerificationOptions
            compactChain anchor ∧
          AnchoredIn primitives.toTrustPrimitives options.toOfflineVerificationOptions
            fullChain anchor) ∨
        ∀ anchor,
          ¬AnchoredIn primitives.toTrustPrimitives options.toOfflineVerificationOptions
            compactChain anchor ∧
          ¬AnchoredIn primitives.toTrustPrimitives options.toOfflineVerificationOptions
            fullChain anchor) := by
  unfold CardFormsAgree
  simp only [fromCompact, fromFull]
  constructor
  · rintro ⟨both, fields⟩ visible
    by_cases trusted : ∃ anchor, AnchoredIn primitives.toTrustPrimitives
      options.toOfflineVerificationOptions compactChain anchor
    · obtain ⟨anchor, anchored⟩ := trusted
      obtain ⟨_, -, other, otherwise, -⟩ := both.mp ⟨_, visible, anchor, anchored, rfl⟩
      have same := (fields _ _ ⟨visible, anchor, anchored, rfl⟩
        ⟨visible, other, otherwise, rfl⟩).1
      have anchors : anchor = other := congrArg VerifiedContactCard.trustAnchorType same
      exact .inl ⟨anchor, anchored, anchors ▸ otherwise⟩
    · refine .inr fun anchor => ⟨fun anchored => trusted ⟨anchor, anchored⟩, fun anchored => ?_⟩
      obtain ⟨_, -, other, otherwise, -⟩ := both.mpr ⟨_, visible, anchor, anchored, rfl⟩
      exact trusted ⟨other, otherwise⟩
  · intro condition
    constructor
    · constructor
      · rintro ⟨_, visible, anchor, anchored, -⟩
        rcases condition visible with ⟨common, -, full⟩ | neither
        · exact ⟨_, visible, common, full, rfl⟩
        · exact absurd anchored (neither anchor).1
      · rintro ⟨_, visible, anchor, anchored, -⟩
        rcases condition visible with ⟨common, compact, -⟩ | neither
        · exact ⟨_, visible, common, compact, rfl⟩
        · exact absurd anchored (neither anchor).2
    · rintro _ _ ⟨visible, anchor, anchored, rfl⟩ ⟨-, other, otherwise, rfl⟩
      rcases condition visible with ⟨common, compact, full⟩ | neither
      · cases anchored.unique compact
        cases otherwise.unique full
        refine ⟨rfl, fun key other => ?_⟩
        have inCompact := @contactCardPayload_get primitives { request with compact := true }
          records.recipientKey records.certificate key other
        have inFull := @contactCardPayload_get primitives { request with compact := false }
          records.recipientKey records.certificate key other
        exact inCompact.trans inFull.symm
      · exact absurd anchored (neither anchor).1

/-- **Compact cards.** Of an accepted chain, the two forms of a card verify alike
exactly where the chain has at most one public intermediate, or the records of the
card fail the verifier anyhow, or the profile trusts the leaf with its first
intermediate alone by the same kind of anchor as with both. -/
theorem compact_card_agrees_iff (sound : CardsSound primitives owns)
    (named : records.NamedIn inventory request)
    (chain : CardChain primitives.toTrustPrimitives options records.certificate intermediates root)
    {compactCard fullCard : Json}
    (compactExported : exportContactCard primitives inventory { request with compact := true } =
      .ok compactCard)
    (fullExported : exportContactCard primitives inventory { request with compact := false } =
      .ok fullCard) {missingStatusCaveat : Bool} :
    CardFormsAgree primitives compactCard fullCard options missingStatusCaveat ↔
      (publicIntermediateChainDer primitives.toTrustPrimitives
          records.certificate.intermediateChainDer).length ≤ 1 ∨
        ¬records.Presentable primitives owns request options.verifierTime ∨
        ∃ anchor,
          AnchoredIn primitives.toTrustPrimitives options.toOfflineVerificationOptions
            (records.certificate.leafCertificateDer ::
              (publicIntermediateChainDer primitives.toTrustPrimitives
                records.certificate.intermediateChainDer).take 1) anchor ∧
          AnchoredIn primitives.toTrustPrimitives options.toOfflineVerificationOptions
            (records.certificate.leafCertificateDer ::
              publicIntermediateChainDer primitives.toTrustPrimitives
                records.certificate.intermediateChainDer) anchor := by
  obtain ⟨first, others, same⟩ : ∃ first others, intermediates = first :: others :=
    List.exists_cons_of_length_pos (by rcases chain.length_intermediates with sized | sized <;> omega)
  have fromCompact := @verify_exported_iff _ _ _ { request with compact := true } _ _ _ _ sound
    ⟨named.recipientKey, named.certificate, named.signingKey⟩ chain _ _ same _ compactExported
    missingStatusCaveat
  have fromFull := @verify_exported_iff _ _ _ { request with compact := false } _ _ _ _ sound
    ⟨named.recipientKey, named.certificate, named.signingKey⟩ chain _ _ same _ fullExported
    missingStatusCaveat
  simp only [CardRecords.presentable_compact] at fromCompact fromFull
  rw [cardFormsAgree_iff fromCompact fromFull]
  obtain ⟨isPrefix, whole⟩ := chain.public_isPrefix
  rw [carriedIntermediates_compact]
  by_cases short : (publicIntermediateChainDer primitives.toTrustPrimitives
    records.certificate.intermediateChainDer).length ≤ 1
  · refine iff_of_true (fun _ => ?_) (.inl short)
    rw [carriedIntermediates_short (same ▸ isPrefix) short]
    by_cases trusted : ∃ anchor, AnchoredIn primitives.toTrustPrimitives
      options.toOfflineVerificationOptions [records.certificate.leafCertificateDer, first] anchor
    · obtain ⟨anchor, anchored⟩ := trusted
      exact .inl ⟨anchor, anchored, anchored⟩
    · exact .inr fun anchor =>
        ⟨fun anchored => trusted ⟨anchor, anchored⟩, fun anchored => trusted ⟨anchor, anchored⟩⟩
  · have long := Nat.lt_of_not_le short
    obtain ⟨anchor, anchored⟩ := chain.anchored
    rw [carriedIntermediates_long long, whole long, same, List.take_succ_cons, List.take_zero,
      ← same]
    rw [whole long] at short
    constructor
    · intro condition
      by_cases visible : records.Presentable primitives owns request options.verifierTime
      · rcases condition visible with common | neither
        · exact .inr (.inr common)
        · exact absurd anchored (neither anchor).2
      · exact .inr (.inl visible)
    · rintro (few | hidden | common)
      · exact absurd few short
      · exact fun visible => absurd visible hidden
      · exact fun _ => .inl common

end

/-! ## An identity with two chains -/

/-- The leaf `[0]` under `[1]`, and the leaf `[3]` under `[4]` and `[5]`; the root
is `[2]`. A signature repeats the first byte of its key, which is that of the
leaf it belongs to. -/
def cardPrimitives : ContactCardPrimitives :=
  { samplePrimitives with
    base64Decode := Base64Url.decode
    base64Encode := Base64Url.encode
    parse := fun der =>
      if der = [3] then .ok (false, { sampleLeaf with
        issuer := [4], subject := [3], authorityKeyIdentifier := some [4] })
      else if der = [4] then .ok (false, { sampleCertificate 5 4 100000 with
        basicConstraints := .ok (some ⟨true, true, some 0⟩) })
      else if der = [5] then .ok (false, sampleCertificate 2 5 100000)
      else samplePrimitives.parse der
    canonicalize := fun _ => .ok []
    sign := fun privateKey _ => .ok (List.Vector.replicate 64 (privateKey.headD 0))
    verifySignature := fun leafDer _ signature =>
      .ok (signature == List.replicate 64 (leafDer.headD 0)) }

def sameFirstByte (privateKey leafDer : List UInt8) : Prop := privateKey.headD 0 = leafDer.headD 0

theorem cardPrimitives_sound : CardsSound cardPrimitives sameFirstByte where
  emptyText := rfl
  encoded := by
    intro bytes nonempty
    have plain : (Base64Url.encode bytes).all isBase64UrlChar = true :=
      List.all_eq_true.mpr fun char member =>
        List.all_eq_true.mp (by decide : Base64Url.alphabet.all isBase64UrlChar = true) char
          (Base64Url.encode_subset_alphabet bytes member)
    change isValidIssuerKeyIdentifier (Base64Url.encode bytes) = true
    simp [isValidIssuerKeyIdentifier, Base64Url.encode_ne_nil nonempty,
      Base64Url.length_encode_mod bytes, plain]
  decoded := Base64Url.decode_encode
  emptyCertificate := by
    intro parsed done
    have failed : cardPrimitives.parse [] = .error [] := rfl
    rw [failed] at done
    cases done
  signed := by
    intro privateKey message signature signed leafDer
    have same : List.Vector.replicate 64 (privateKey.headD 0) = signature := Except.ok.inj signed
    have repeated : signature.toList = List.replicate 64 (privateKey.headD 0) := by
      rw [← same]
      rfl
    have checked : cardPrimitives.verifySignature leafDer message signature.toList =
        .ok (signature.toList == List.replicate 64 (leafDer.headD 0)) := rfl
    rw [checked, repeated, Except.ok.injEq, beq_iff_eq, List.replicate_inj]
    simp [sameFirstByte]

def cardCertificate (name : String) (leafDer : List UInt8)
    (intermediateChainDer : List (List UInt8)) : EnrolledCertificate where
  certificateId := name.toList
  certificateSha256 := sha256Identifier cardPrimitives.toPrimitives leafDer
  issuerCertificateSha256 := sha256Identifier cardPrimitives.toPrimitives [1]
  issuerKeyIdentifier := "AQ".toList
  serialNumber := "01".toList
  leafCertificateDer := leafDer
  intermediateChainDer
  notBeforeUnixSeconds := 0
  notAfterUnixSeconds := 10000
  renewalGracePeriodDays := none
  renewalRecommendedWithinDays := none
  publicMetadata := sampleMetadata
  signDeviceId := "device".toList
  signDeviceRouting := .personal
  signingKeyId := name.toList
  state := .active

def cardKey (name : String) (privateKeyDer : List UInt8) : DeviceSigningKey where
  keyId := name.toList
  publicKeyFingerprint := sha256Identifier cardPrimitives.toPrimitives privateKeyDer
  privateKeyDer
  createdAtUnixSeconds := 0
  label := none
  hostedBinding := none

def cardRecipientKey : RecipientEncryptionKey where
  keyId := "recipient".toList
  algorithm := recipientEncryptionKeyAlgorithm
  publicKeyFingerprint := sha256Identifier cardPrimitives.toPrimitives [7]
  publicKeyDer := [7]
  privateKeyDer := [8]
  createdAtUnixSeconds := 0
  label := none

def cardInventory : Inventory :=
  { Inventory.empty with
    deviceSigningKeys := [cardKey "short" [0], cardKey "long" [3]]
    recipientEncryptionKeys := [cardRecipientKey]
    enrolledCertificates :=
      [cardCertificate "short" [0] [[1], [2]], cardCertificate "long" [3] [[4], [5], [2]]] }

def cardRequest (name : String) (compact : Bool) : ContactCardExportRequest where
  accountKey := "account".toList
  recipientKeyId := "recipient".toList
  certificateId := name.toList
  displayName := "Ada".toList
  deviceLabel := "laptop".toList
  createdAt := 10
  expiresAt := none
  compact

/-- A verifier that has the root and looks the intermediates up. -/
def cardOptions : ContactCardImportOptions :=
  { sampleOptions 100 with
    certificateProfileOptions := ⟨["1.3".toList], ["1.2".toList], none⟩
    intermediateResolver := some fun key =>
      .ok (if key = [1] ∨ key = [4] ∨ key = [5] then some key else none) }

def shortRecords : CardRecords :=
  ⟨cardRecipientKey, cardCertificate "short" [0] [[1], [2]], cardKey "short" [0]⟩

theorem short_chain : CardChain cardPrimitives.toTrustPrimitives cardOptions
    (cardCertificate "short" [0] [[1], [2]]) [[1]] [2] where
  dated := by decide
  stored := .inr rfl
  accepted := .inl ⟨.head _, ⟨.officialTzap, some .current,
    sha256Identifier cardPrimitives.toPrimitives [2], sampleMetadata⟩, rfl⟩
  resolver := by
    refine ⟨_, rfl, fun der member intermediate key parsed known => ?_⟩
    cases List.mem_singleton.mp member
    cases parsed
    cases known
    rfl

/-- With one intermediate, both forms of a card verify. -/
theorem short_card_forms_agree : ∃ compactCard fullCard,
    exportContactCard cardPrimitives cardInventory (cardRequest "short" true) = .ok compactCard ∧
      exportContactCard cardPrimitives cardInventory (cardRequest "short" false) = .ok fullCard ∧
      CardFormsAgree cardPrimitives compactCard fullCard cardOptions true := by
  have named : shortRecords.NamedIn cardInventory (cardRequest "short" true) := ⟨rfl, rfl, rfl⟩
  exact ⟨_, _, rfl, rfl,
    (compact_card_agrees_iff cardPrimitives_sound named short_chain rfl rfl).mpr
      (.inl (by decide))⟩

theorem long_chain : CardChain cardPrimitives.toTrustPrimitives cardOptions
    (cardCertificate "long" [3] [[4], [5], [2]]) [[4], [5]] [2] where
  dated := by decide
  stored := .inr rfl
  accepted := .inl ⟨.head _, ⟨.officialTzap, some .current,
    sha256Identifier cardPrimitives.toPrimitives [2], sampleMetadata⟩, rfl⟩
  resolver := by
    refine ⟨_, rfl, fun der member intermediate key parsed known => ?_⟩
    rcases List.mem_pair.mp member with rfl | rfl
    · cases parsed
      cases known
      rfl
    · cases parsed
      cases known
      rfl

/-- With two intermediates, the full card verifies and the compact one does not:
the root is tried right behind the first intermediate. -/
theorem compact_card_loses_second_intermediate : ∃ compactCard fullCard,
    exportContactCard cardPrimitives cardInventory (cardRequest "long" true) = .ok compactCard ∧
      exportContactCard cardPrimitives cardInventory (cardRequest "long" false) = .ok fullCard ∧
      CardChain cardPrimitives.toTrustPrimitives cardOptions
        (cardCertificate "long" [3] [[4], [5], [2]]) [[4], [5]] [2] ∧
      (∃ card, verifyContactCard cardPrimitives fullCard cardOptions true = .ok card) ∧
      verifyContactCard cardPrimitives compactCard cardOptions true =
        .error (.certificateChain (CertificateProfileError.chainOrder 1).display) ∧
      ¬CardFormsAgree cardPrimitives compactCard fullCard cardOptions true := by
  have refused : ∀ compactCard, exportContactCard cardPrimitives cardInventory
      (cardRequest "long" true) = .ok compactCard →
        verifyContactCard cardPrimitives compactCard cardOptions true =
          .error (.certificateChain (CertificateProfileError.chainOrder 1).display) := by
    rintro _ ⟨⟩
    rfl
  refine ⟨_, _, rfl, rfl, long_chain, ⟨_, rfl⟩, refused _ rfl, fun agree => ?_⟩
  obtain ⟨card, accepted⟩ := agree.1.mpr ⟨_, rfl⟩
  cases (refused _ rfl).symm.trans accepted

end ZManager.Identity
