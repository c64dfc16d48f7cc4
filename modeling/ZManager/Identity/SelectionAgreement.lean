import ZManager.Identity.SigningSelection

/-! # Where the two selections agree

The inventory and the catalog of it select the same certificate of a key, in
every order of the inventory, when the latest start among the usable
certificates belongs to one of them alone and its chain parses, as that of the
default does (`selections_agree_iff`).
-/

namespace ZManager.Identity

/-! ## The selection over the catalog of an inventory -/

section

variable {primitives : CatalogPrimitives} {inventory : Inventory} {refs : SecretRefMap}
  {catalog : Catalog} {chosen certificate : EnrolledCertificate} {row : PublicSigningIdentity}
  {nowUnixSeconds : Nat}

variable {one two : PublicSigningIdentity} {latest : EnrolledCertificate}

section

variable (made : CatalogOn primitives inventory refs chosen.certificateId catalog)
include made

theorem CatalogOn.mem_certified (member : certificate ∈ inventory.enrolledCertificates) :
    ∃ row ∈ catalog.signingIdentities, CertifiedRow primitives inventory refs certificate row := by
  obtain ⟨certified, uncertified, all, each, -⟩ := made.rows
  obtain ⟨row, inside, isRow⟩ := forall₂_exists_of_mem_left each member
  exact ⟨row, all ▸ List.mem_append_left _ inside, isRow⟩

theorem CatalogOn.exists_of_certified (member : row ∈ catalog.signingIdentities)
    (certified : row.certificateId.isSome) :
    ∃ certificate ∈ inventory.enrolledCertificates,
      CertifiedRow primitives inventory refs certificate row := by
  obtain ⟨rows, others, all, each, pending⟩ := made.rows
  rw [all] at member
  rcases List.mem_append.mp member with inside | inside
  · exact forall₂_exists_of_mem_right each inside
  · rw [pending row inside] at certified
    cases certified

theorem CatalogOn.row_unique (first : one ∈ catalog.signingIdentities)
    (second : two ∈ catalog.signingIdentities) (same : one.id = two.id) : one = two :=
  List.inj_on_of_nodup_map made.ids first second same

theorem CatalogOn.certificate_unique {one two : EnrolledCertificate}
    (first : one ∈ inventory.enrolledCertificates) (second : two ∈ inventory.enrolledCertificates)
    (same : one.certificateId = two.certificateId) : one = two := by
  obtain ⟨certified, uncertified, all, each, -⟩ := made.rows
  have distinct := made.ids
  rw [all, List.map_append] at distinct
  have ids := map_id_rows (each.imp fun _ _ isRow => isRow.isRow)
  have nodup : (inventory.enrolledCertificates.map (·.certificateId)).Nodup :=
    ids ▸ distinct.of_append_left
  exact List.inj_on_of_nodup_map nodup first second same

theorem CatalogOn.rowFits (named : KeysNamed primitives inventory)
    (member : row ∈ catalog.signingIdentities) :
    RowFits primitives inventory refs row := by
  intro identity certified parses
  obtain ⟨certificate, listed, isRow⟩ := made.exists_of_certified member certified
  have reads : certificate.reads primitives = true := by
    by_contra unread
    obtain ⟨reason, failed⟩ := isRow.keyIdentity_of_unread (eq_false_of_ne_true unread)
    cases failed.symm.trans parses
  obtain ⟨key, stored, own, identified⟩ := isRow.keyIdentity named listed reads
  cases parses.symm.trans identified
  exact ⟨key, stored, own ▸ isRow.reference, own ▸ isRow.inventoryKey, rfl⟩

end

/-- The rows from which the catalog selects for a key. -/
def selectableRows (primitives : CatalogPrimitives) (catalog : Catalog) (nowUnixSeconds : Nat)
    (signingKey : SigningKeyIdentity) : List PublicSigningIdentity :=
  ((catalog.signingIdentities.filterMap (candidateOf primitives catalog nowUnixSeconds)).filter
    fun candidate => candidate.1 == signingKey).map Prod.snd

theorem mem_selectableRows {signingKey : SigningKeyIdentity} :
    row ∈ selectableRows primitives catalog nowUnixSeconds signingKey ↔
      row ∈ catalog.signingIdentities ∧ row.certificateId.isSome ∧
        row.isUsable catalog nowUnixSeconds = true ∧
        row.certificateKeyIdentity primitives = .ok signingKey := by
  unfold selectableRows candidateOf
  constructor
  · intro member
    obtain ⟨⟨key, found⟩, inside, rfl⟩ := List.mem_map.mp member
    obtain ⟨inside, same⟩ := List.mem_filter.mp inside
    obtain ⟨origin, listed, made⟩ := List.mem_filterMap.mp inside
    split_ifs at made with usable
    obtain ⟨certified, usable⟩ := Bool.and_eq_true_iff.mp usable
    obtain ⟨identity, parses, pair⟩ := Option.map_eq_some_iff.mp made
    cases pair
    cases eq_of_beq same
    exact ⟨listed, certified, usable, Except.toOption_eq_some.mp parses⟩
  · rintro ⟨listed, certified, usable, parses⟩
    refine List.mem_map.mpr ⟨(signingKey, row), List.mem_filter.mpr ⟨?_, beq_self_eq_true _⟩, rfl⟩
    refine List.mem_filterMap.mpr ⟨row, listed, ?_⟩
    rw [if_pos (Bool.and_eq_true_iff.mpr ⟨certified, usable⟩), parses]
    rfl

/-- What the catalog selects, when the chain of its default parses. -/
def selectFor (primitives : CatalogPrimitives) (catalog : Catalog) (nowUnixSeconds : Nat)
    (signingKey : SigningKeyIdentity) : Except Text PublicSigningIdentity :=
  match latestDefault (selectableRows primitives catalog nowUnixSeconds signingKey) with
  | none => .error noUsableCertificate
  | some identity => .ok identity

section

variable (made : CatalogOn primitives inventory refs chosen.certificateId catalog)
include made

section

variable (member : row ∈ catalog.signingIdentities)
  (isRow : CertifiedRow primitives inventory refs chosen row)
include member isRow

theorem CatalogOn.find_default :
    catalog.signingIdentities.find? (fun identity => identity.id == chosen.certificateId) =
      some row := by
  cases found : catalog.signingIdentities.find? fun identity =>
      identity.id == chosen.certificateId with
  | none =>
    have absent := List.find?_eq_none.mp found row member
    exact absurd (beq_iff_eq.mpr isRow.isRow.id) absent
  | some other =>
    have named : (other.id == chosen.certificateId) = true := by
      simpa using List.find?_some found
    rw [made.row_unique (List.mem_of_find?_eq_some found) member
      ((eq_of_beq named).trans isRow.isRow.id.symm)]

theorem CatalogOn.preferredSigningKey_eq :
    preferredSigningKey primitives catalog =
      match row.certificateKeyIdentity primitives with
      | .error _ => .error malformedChain
      | .ok key => .ok (some key) := by
  unfold preferredSigningKey
  rw [made.default]
  dsimp only
  cases key : row.certificateKeyIdentity primitives with
  | error => simp only [made.find_default member isRow, key]
  | ok => simp only [made.find_default member isRow, key]

end

section

variable (named : KeysNamed primitives inventory)
  (unique : (inventory.deviceSigningKeys.map (·.keyId)).Nodup)
include named unique

/-- The loop finds no conflict; then the key of the default decides. -/
theorem CatalogOn.select_eq (member : row ∈ catalog.signingIdentities)
    (isRow : CertifiedRow primitives inventory refs chosen row) :
    selectCatalogSigningIdentity primitives catalog nowUnixSeconds =
      match row.certificateKeyIdentity primitives with
      | .error _ => .error malformedChain
      | .ok key => selectFor primitives catalog nowUnixSeconds key := by
  obtain ⟨last, ran, candidates⟩ :=
    @SigningCandidates.Fits.visit_rows primitives inventory refs catalog nowUnixSeconds .empty
      catalog.signingIdentities (SigningCandidates.fits_empty inventory refs) unique made.fresh
      fun other inside => made.rowFits named inside
  unfold selectCatalogSigningIdentity
  rw [ran, made.preferredSigningKey_eq member isRow]
  cases row.certificateKeyIdentity primitives with
  | error reason => rfl
  | ok key =>
    change (match latestDefault ((last.candidates.filter
        fun (candidate : SigningKeyIdentity × PublicSigningIdentity) =>
          candidate.1 == key).map Prod.snd) with
      | none => Except.error noUsableCertificate
      | some identity => Except.ok identity) = _
    rw [candidates]
    rfl

theorem CatalogOn.select_of_unread (listed : chosen ∈ inventory.enrolledCertificates)
    (unread : chosen.reads primitives = false) :
    selectCatalogSigningIdentity primitives catalog nowUnixSeconds = .error malformedChain := by
  obtain ⟨row, member, isRow⟩ := made.mem_certified listed
  obtain ⟨reason, failed⟩ := isRow.keyIdentity_of_unread unread
  rw [made.select_eq named unique member isRow, failed]

end

end

theorem mem_usableCertificates {signingKeyId : Text} :
    certificate ∈ usableCertificates inventory signingKeyId nowUnixSeconds ↔
      certificate ∈ inventory.enrolledCertificates ∧ certificate.signingKeyId = signingKeyId ∧
        certificate.isUsableForSigning inventory nowUnixSeconds = true := by
  unfold usableCertificates
  rw [List.mem_filter, List.mem_filter, beq_iff_eq, and_assoc]

/-- The rows to select from are those of the usable certificates of the key that parse. -/
theorem CatalogOn.mem_selectable
    (made : CatalogOn primitives inventory refs chosen.certificateId catalog)
    (named : KeysNamed primitives inventory)
    (unique : (inventory.deviceSigningKeys.map (·.keyId)).Nodup)
    (listed : chosen ∈ inventory.enrolledCertificates) {own : PublicSigningIdentity}
    (isOwn : CertifiedRow primitives inventory refs chosen own) {key : SigningKeyIdentity}
    (parses : own.certificateKeyIdentity primitives = .ok key) :
    row ∈ selectableRows primitives catalog nowUnixSeconds key ↔
      row ∈ catalog.signingIdentities ∧
        ∃ certificate ∈ usableCertificates inventory chosen.signingKeyId nowUnixSeconds,
          certificate.reads primitives = true ∧
            CertifiedRow primitives inventory refs certificate row := by
  rw [mem_selectableRows]
  constructor
  · rintro ⟨member, certified, usable, identity⟩
    obtain ⟨certificate, inside, isRow⟩ := made.exists_of_certified member certified
    have same := (isRow.sameKey_iff isOwn named inside listed unique identity parses).mp rfl
    refine ⟨member, certificate, mem_usableCertificates.mpr ⟨inside, same, ?_⟩, ?_, isRow⟩
    · rw [← isRow.isUsable made]
      exact usable
    · by_contra unread
      obtain ⟨reason, failed⟩ := isRow.keyIdentity_of_unread (eq_false_of_ne_true unread)
      cases failed.symm.trans identity
  · rintro ⟨member, certificate, inside, reads, isRow⟩
    obtain ⟨inside, same, usable⟩ := mem_usableCertificates.mp inside
    obtain ⟨stored, -, -, identity⟩ := isRow.keyIdentity named inside reads
    have key := (isRow.sameKey_iff isOwn named inside listed unique identity parses).mpr same
    exact ⟨member, by rw [isRow.certificateId]; rfl, by rw [isRow.isUsable made, usable],
      key ▸ identity⟩

/-! ## The order of the two selections -/

theorem latestDefault_eq (rows : List PublicSigningIdentity) :
    latestDefault rows = lastMax defaultBefore rows := by
  unfold latestDefault lastMax
  congr 1
  funext best candidate
  cases best <;> rfl

theorem defaultBefore_of_notBefore {first second : Nat}
    (start : one.notBeforeUnixSeconds = some first)
    (later : two.notBeforeUnixSeconds = some second) (less : first < second) :
    defaultBefore one two = true ∧ defaultBefore two one = false := by
  unfold defaultBefore
  rw [start, later]
  simp [optionBefore, less, not_lt_of_gt less, less.ne']

theorem defaultBefore_self (row : PublicSigningIdentity) : defaultBefore row row = false := by
  unfold defaultBefore
  cases row.notBeforeUnixSeconds <;> cases row.certificateSha256 <;> simp [optionBefore]

/-- The certificate starts later than every other usable one of the key. -/
def LatestUsable (inventory : Inventory) (signingKeyId : Text) (nowUnixSeconds : Nat)
    (latest : EnrolledCertificate) : Prop :=
  latest ∈ usableCertificates inventory signingKeyId nowUnixSeconds ∧
    ∀ other ∈ usableCertificates inventory signingKeyId nowUnixSeconds, other ≠ latest →
      other.notBeforeUnixSeconds < latest.notBeforeUnixSeconds

theorem LatestUsable.resolve {signingKeyId : Text}
    (only : LatestUsable inventory signingKeyId nowUnixSeconds latest) :
    resolveDefaultSigningCertificateId inventory signingKeyId nowUnixSeconds =
      .ok latest.certificateId := by
  unfold resolveDefaultSigningCertificateId latestCertificate
  rw [lastMax_of_strict only.1 (decide_eq_false (lt_irrefl _))]
  intro other inside different
  have earlier := only.2 other inside different
  exact ⟨decide_eq_true earlier, decide_eq_false (not_lt_of_gt earlier)⟩

theorem LatestUsable.select
    (only : LatestUsable inventory chosen.signingKeyId nowUnixSeconds latest)
    (made : CatalogOn primitives inventory refs chosen.certificateId catalog)
    (named : KeysNamed primitives inventory)
    (unique : (inventory.deviceSigningKeys.map (·.keyId)).Nodup)
    (listed : chosen ∈ inventory.enrolledCertificates) (reads : chosen.reads primitives = true)
    (latestReads : latest.reads primitives = true) :
    ∃ row, selectCatalogSigningIdentity primitives catalog nowUnixSeconds = .ok row ∧
      row.certificateId = some latest.certificateId := by
  obtain ⟨own, ownMember, isOwn⟩ := made.mem_certified listed
  obtain ⟨stored, -, -, parses⟩ := isOwn.keyIdentity named listed reads
  obtain ⟨row, member, isRow⟩ := made.mem_certified (mem_usableCertificates.mp only.1).1
  refine ⟨row, ?_, isRow.certificateId⟩
  rw [made.select_eq named unique ownMember isOwn, parses]
  dsimp only
  have selectable := (made.mem_selectable named unique listed isOwn parses).mpr
    ⟨member, latest, only.1, latestReads, isRow⟩
  have best := lastMax_of_strict selectable (defaultBefore_self row) (by
    intro other inside different
    obtain ⟨otherMember, certificate, usable, -, isOther⟩ :=
      (made.mem_selectable named unique listed isOwn parses).mp inside
    have another : certificate ≠ latest := by
      rintro rfl
      exact different (made.row_unique otherMember member
        (isOther.isRow.id.trans isRow.isRow.id.symm))
    exact defaultBefore_of_notBefore isOther.notBefore isRow.notBefore
      (only.2 certificate usable another))
  unfold selectFor
  rw [latestDefault_eq, best]

theorem CatalogOn.select_of_empty
    (made : CatalogOn primitives inventory refs chosen.certificateId catalog)
    (named : KeysNamed primitives inventory)
    (unique : (inventory.deviceSigningKeys.map (·.keyId)).Nodup)
    (listed : chosen ∈ inventory.enrolledCertificates) (reads : chosen.reads primitives = true)
    (none : usableCertificates inventory chosen.signingKeyId nowUnixSeconds = []) :
    selectCatalogSigningIdentity primitives catalog nowUnixSeconds =
      .error noUsableCertificate := by
  obtain ⟨own, ownMember, isOwn⟩ := made.mem_certified listed
  obtain ⟨stored, -, -, parses⟩ := isOwn.keyIdentity named listed reads
  rw [made.select_eq named unique ownMember isOwn, parses]
  dsimp only
  unfold selectFor
  have empty : ∀ key, own.certificateKeyIdentity primitives = .ok key →
      selectableRows primitives catalog nowUnixSeconds key = [] := by
    intro key parses
    apply List.eq_nil_iff_forall_not_mem.mpr
    intro row inside
    obtain ⟨-, certificate, usable, -⟩ :=
      (made.mem_selectable named unique listed isOwn parses).mp inside
    rw [none] at usable
    cases usable
  rw [empty _ parses]
  rfl

end

/-! ## The catalog that is built -/

/-- A catalog that `build_catalog_from_inventory` makes of the inventory, alone with its
stores, with a certificate set as its default. -/
def DefaultedCatalog (primitives : CatalogPrimitives) (inventory : Inventory) (chosen : Text)
    (catalog : Catalog) : Prop :=
  ∃ client before catalogId draft after,
    (buildCatalogFromInventory primitives inventory catalogId).Ends
      (Vault.effect primitives client) before (.ok draft) after ∧
    catalog = { draft.catalog with defaultSigningIdentityId := some chosen }

section

variable {primitives : CatalogPrimitives} {client : Nat} {before after : Vault}
  {inventory : Inventory}

/-- A reference that was not issued before joins references that were. -/
theorem fresh_insert {refs : SecretRefMap} {issued : Text → Option (Nat × KeyMark)}
    {keyId fresh : Text} {issue : Nat × KeyMark} (unissued : issued fresh = none)
    (known : ∀ id reference, refs id = some reference → issued reference ≠ none)
    (distinct : ∀ one two reference, refs one = some reference → refs two = some reference →
      one = two) :
    (∀ id reference, refs.insert keyId fresh id = some reference →
        Function.update issued fresh (some issue) reference ≠ none) ∧
      ∀ one two reference, refs.insert keyId fresh one = some reference →
        refs.insert keyId fresh two = some reference → one = two := by
  constructor
  · intro id reference held
    rw [Function.update_apply]
    split_ifs with same
    · exact Option.some_ne_none _
    · rcases SecretRefMap.insert_eq_some.mp held with ⟨-, rfl⟩ | ⟨-, held⟩
      · exact absurd rfl same
      · exact known id reference held
  · intro one two reference first second
    rcases SecretRefMap.insert_eq_some.mp first with ⟨rfl, rfl⟩ | ⟨-, oldFirst⟩ <;>
      rcases SecretRefMap.insert_eq_some.mp second with ⟨rfl, same⟩ | ⟨-, oldSecond⟩
    · rfl
    · exact absurd unissued (known two reference oldSecond)
    · rw [same] at oldFirst
      exact absurd unissued (known one fresh oldFirst)
    · exact distinct one two reference oldFirst oldSecond

/-- References that are generated are new, so no two keys share one. -/
theorem fresh_of_generateSigningRefs {keys : List DeviceSigningKey} {refs result : SecretRefMap}
    (ended : (generateSigningRefs primitives keys refs).Ends (Vault.effect primitives client)
      before (.ok result) after)
    (known : ∀ id reference, refs id = some reference → before.issued reference ≠ none)
    (distinct : ∀ one two reference, refs one = some reference → refs two = some reference →
      one = two) :
    ∀ one two reference, result one = some reference → result two = some reference →
      one = two := by
  induction keys generalizing refs before with
  | nil =>
    cases ended.1
    exact distinct
  | cons key rest ih =>
    obtain ⟨_, -, fresh, middle, ⟨unissued, rfl⟩, ended⟩ := ends_orFail ended
    obtain ⟨knownNext, distinctNext⟩ := fresh_insert unissued known distinct
    exact ih ended knownNext distinctNext

theorem keyRow_certificateId {refs : SecretRefMap} {key : DeviceSigningKey}
    {row : PublicSigningIdentity} (made : keyRow primitives refs key = .ok row) :
    row.certificateId = none :=
  (keyRow_eq_ok made).2

theorem catalogOn_of_buildCatalog {catalogId chosen : Text} {signingRefs recipientRefs :
    SecretRefMap}
    {catalog : Catalog}
    (made : buildCatalog primitives inventory catalogId signingRefs recipientRefs = .ok catalog)
    (fresh : ∀ one two reference, signingRefs one = some reference →
      signingRefs two = some reference → one = two) :
    CatalogOn primitives inventory signingRefs chosen
      { catalog with defaultSigningIdentityId := some chosen } := by
  unfold buildCatalog at made
  obtain ⟨certified, rows, made⟩ := Except.bind_eq_ok_iff.mp made
  obtain ⟨uncertified, keys, made⟩ := Except.bind_eq_ok_iff.mp made
  obtain ⟨recipients, -, made⟩ := Except.bind_eq_ok_iff.mp made
  obtain ⟨contacts, -, made⟩ := Except.bind_eq_ok_iff.mp made
  obtain ⟨_, valid, made⟩ := Except.bind_eq_ok_iff.mp made
  cases made
  have ids := validate_signingIdentities valid
  refine ⟨⟨certified, uncertified, rfl, ?_, ?_⟩, ids, rfl, rfl, rfl, fresh⟩
  · exact (Except.forall₂_of_mapM_eq_ok rows).imp fun _ _ => certifiedRow_of_certificateRow
  · intro row member
    obtain ⟨key, -, row⟩ := forall₂_exists_of_mem_right (Except.forall₂_of_mapM_eq_ok keys) member
    exact keyRow_certificateId row

theorem DefaultedCatalog.on {chosen : Text} {catalog : Catalog}
    (made : DefaultedCatalog primitives inventory chosen catalog) :
    ∃ refs, CatalogOn primitives inventory refs chosen catalog := by
  obtain ⟨client, before, catalogId, draft, after, ended, rfl⟩ := made
  obtain ⟨_, middle, generated, signing⟩ := Program.ends_bind.mp ended
  obtain ⟨signingRefs, rfl, rest⟩ := ends_orFail signing
  obtain ⟨_, last, recipients, recipient⟩ := Program.ends_bind.mp rest
  obtain ⟨recipientRefs, rfl, building⟩ := ends_orFail recipient
  obtain ⟨catalog, built, same, rfl⟩ := ends_orFail building
  cases same
  exact ⟨signingRefs, catalogOn_of_buildCatalog built
    (fresh_of_generateSigningRefs generated nofun nofun)⟩

end

/-! ## When the two agree -/

/-- The inventory with its certificates listed in another order. -/
def Inventory.listing (inventory : Inventory) (certificates : List EnrolledCertificate) :
    Inventory :=
  { inventory with enrolledCertificates := certificates }

/-- Both select the certificate, or both fail. -/
structure SameCertificate (resolved : Except Text Text)
    (selected : Except Text PublicSigningIdentity) : Prop where
  certificate : ∀ certificateId, resolved = .ok certificateId ↔
    ∃ row, selected = .ok row ∧ row.certificateId = some certificateId
  fails : (∃ reason, resolved = .error reason) ↔ ∃ reason, selected = .error reason

/-- The two selections are the same, and neither depends on the order of the certificates. -/
structure SelectionsAgree (primitives : CatalogPrimitives) (inventory : Inventory)
    (signingKeyId : Text) (nowUnixSeconds : Nat) (chosen : Text) (catalog : Catalog) : Prop where
  same : SameCertificate
    (resolveDefaultSigningCertificateId inventory signingKeyId nowUnixSeconds)
    (selectCatalogSigningIdentity primitives catalog nowUnixSeconds)
  resolved : ∀ listed : List EnrolledCertificate, listed.Perm inventory.enrolledCertificates →
    resolveDefaultSigningCertificateId (inventory.listing listed) signingKeyId nowUnixSeconds =
      resolveDefaultSigningCertificateId inventory signingKeyId nowUnixSeconds
  selected : ∀ (listed : List EnrolledCertificate) (other : Catalog),
    listed.Perm inventory.enrolledCertificates →
    DefaultedCatalog primitives (inventory.listing listed) chosen other →
      (selectCatalogSigningIdentity primitives other nowUnixSeconds).map (·.certificateId) =
        (selectCatalogSigningIdentity primitives catalog nowUnixSeconds).map (·.certificateId)

section

variable {primitives : CatalogPrimitives} {inventory : Inventory} {catalog : Catalog}
  {signingKeyId : Text} {nowUnixSeconds : Nat} {chosen : EnrolledCertificate}
  {listed : List EnrolledCertificate}

variable {latest : EnrolledCertificate}

theorem KeysNamed.listing (named : KeysNamed primitives inventory)
    (perm : listed.Perm inventory.enrolledCertificates) :
    KeysNamed primitives (inventory.listing listed) where
  leafKey := fun certificate member => named.leafKey certificate (perm.mem_iff.mp member)
  distinct := named.distinct
  scope := fun one first two second =>
    named.scope one (perm.mem_iff.mp first) two (perm.mem_iff.mp second)

theorem usableCertificates_perm (perm : listed.Perm inventory.enrolledCertificates) :
    (usableCertificates (inventory.listing listed) signingKeyId nowUnixSeconds).Perm
      (usableCertificates inventory signingKeyId nowUnixSeconds) :=
  (perm.filter _).filter _

theorem usableCertificates_listing_nil (perm : listed.Perm inventory.enrolledCertificates)
    (none : usableCertificates inventory signingKeyId nowUnixSeconds = []) :
    usableCertificates (inventory.listing listed) signingKeyId nowUnixSeconds = [] := by
  have same : (usableCertificates (inventory.listing listed) signingKeyId nowUnixSeconds).Perm
      (usableCertificates inventory signingKeyId nowUnixSeconds) := usableCertificates_perm perm
  rw [none] at same
  exact List.perm_nil.mp same

theorem LatestUsable.listing (only : LatestUsable inventory signingKeyId nowUnixSeconds latest)
    (perm : listed.Perm inventory.enrolledCertificates) :
    LatestUsable (inventory.listing listed) signingKeyId nowUnixSeconds latest := by
  have same : (usableCertificates (inventory.listing listed) signingKeyId nowUnixSeconds).Perm
      (usableCertificates inventory signingKeyId nowUnixSeconds) := usableCertificates_perm perm
  exact ⟨same.mem_iff.mpr only.1, fun other inside => only.2 other (same.mem_iff.mp inside)⟩

/-- A certificate that starts last wins when it is listed last. -/
theorem exists_listing_resolve {other : EnrolledCertificate}
    (usable : other ∈ usableCertificates inventory signingKeyId nowUnixSeconds)
    (latest : ∀ certificate ∈ usableCertificates inventory signingKeyId nowUnixSeconds,
      certificate.notBeforeUnixSeconds ≤ other.notBeforeUnixSeconds) :
    ∃ listed : List EnrolledCertificate, listed.Perm inventory.enrolledCertificates ∧
      resolveDefaultSigningCertificateId (inventory.listing listed) signingKeyId nowUnixSeconds =
        .ok other.certificateId := by
  obtain ⟨member, named, holds⟩ := mem_usableCertificates.mp usable
  have perm : (inventory.enrolledCertificates.erase other ++ [other]).Perm
      inventory.enrolledCertificates :=
    List.perm_append_comm.trans (List.perm_cons_erase member).symm
  have split : usableCertificates (inventory.listing
        (inventory.enrolledCertificates.erase other ++ [other])) signingKeyId nowUnixSeconds =
      usableCertificates (inventory.listing (inventory.enrolledCertificates.erase other))
        signingKeyId nowUnixSeconds ++ [other] := by
    have passes : other.isUsableForSigning (inventory.listing
        (inventory.enrolledCertificates.erase other ++ [other])) nowUnixSeconds = true := holds
    have last : ([other].filter fun certificate => certificate.signingKeyId == signingKeyId) =
        [other] := List.filter_eq_self.mpr (by simpa using named)
    have again : ([other].filter fun certificate => certificate.isUsableForSigning
        (inventory.listing (inventory.enrolledCertificates.erase other ++ [other]))
          nowUnixSeconds) = [other] := List.filter_eq_self.mpr (by simpa using passes)
    change ((inventory.enrolledCertificates.erase other ++ [other]).filter _).filter _ = _
    rw [List.filter_append, List.filter_append, last, again]
    rfl
  refine ⟨_, perm, ?_⟩
  unfold resolveDefaultSigningCertificateId latestCertificate
  rw [split, lastMax_concat_of_forall]
  intro certificate inside
  obtain ⟨kept, same, usable⟩ := mem_usableCertificates.mp inside
  apply decide_eq_false
  exact not_lt_of_ge (latest certificate
    (mem_usableCertificates.mpr ⟨List.mem_of_mem_erase kept, same, usable⟩))

/-- When no order changes the result over the inventory, one usable certificate starts last. -/
theorem latestUsable_of_resolved {refs : SecretRefMap}
    (made : CatalogOn primitives inventory refs chosen.certificateId catalog)
    (resolved : ∀ listed : List EnrolledCertificate, listed.Perm inventory.enrolledCertificates →
      resolveDefaultSigningCertificateId (inventory.listing listed) signingKeyId nowUnixSeconds =
        resolveDefaultSigningCertificateId inventory signingKeyId nowUnixSeconds)
    (some : usableCertificates inventory signingKeyId nowUnixSeconds ≠ []) :
    ∃ latest, LatestUsable inventory signingKeyId nowUnixSeconds latest := by
  cases found : latestCertificate (usableCertificates inventory signingKeyId nowUnixSeconds) with
  | none => exact absurd (lastMax_eq_none.mp found) some
  | some latest =>
    have inside := mem_of_lastMax found
    have largest := not_lt_of_lastMax found
    refine ⟨latest, inside, fun other usable different => ?_⟩
    by_contra late
    have same : ∀ certificate ∈ usableCertificates inventory signingKeyId nowUnixSeconds,
        certificate.notBeforeUnixSeconds ≤ other.notBeforeUnixSeconds := fun certificate member =>
      (largest certificate member).trans (not_lt.mp late)
    obtain ⟨listed, perm, moved⟩ := exists_listing_resolve usable same
    have first : resolveDefaultSigningCertificateId inventory signingKeyId nowUnixSeconds =
        .ok latest.certificateId := by
      unfold resolveDefaultSigningCertificateId
      rw [found]
    rw [resolved listed perm, first] at moved
    exact different (made.certificate_unique (mem_usableCertificates.mp usable).1
      (mem_usableCertificates.mp inside).1 (Except.ok.inj moved).symm)

section

variable (named : KeysNamed primitives inventory)
  (unique : (inventory.deviceSigningKeys.map (·.keyId)).Nodup)
  (member : chosen ∈ inventory.enrolledCertificates)
  (made : DefaultedCatalog primitives inventory chosen.certificateId catalog)
include named unique member made

/-- When both fail in every order, they agree. -/
theorem selectionsAgree_of_empty
    (none : usableCertificates inventory chosen.signingKeyId nowUnixSeconds = []) :
    SelectionsAgree primitives inventory chosen.signingKeyId nowUnixSeconds chosen.certificateId
      catalog := by
  have resolves : ∀ listed : List EnrolledCertificate, listed.Perm inventory.enrolledCertificates →
      resolveDefaultSigningCertificateId (inventory.listing listed) chosen.signingKeyId
        nowUnixSeconds = .error ("no usable certificate found for signing key: ".toList ++
          chosen.signingKeyId) := by
    intro listed perm
    unfold resolveDefaultSigningCertificateId
    rw [usableCertificates_listing_nil perm none]
    rfl
  have selects : ∃ reason, ∀ (listed : List EnrolledCertificate) (other : Catalog),
      listed.Perm inventory.enrolledCertificates →
      DefaultedCatalog primitives (inventory.listing listed) chosen.certificateId other →
        selectCatalogSigningIdentity primitives other nowUnixSeconds = .error reason := by
    cases reads : chosen.reads primitives with
    | false =>
      refine ⟨malformedChain, fun listed other perm built => ?_⟩
      obtain ⟨refs, on⟩ := built.on
      exact on.select_of_unread (named.listing perm) unique (perm.mem_iff.mpr member) reads
    | true =>
      refine ⟨noUsableCertificate, fun listed other perm built => ?_⟩
      obtain ⟨refs, on⟩ := built.on
      exact on.select_of_empty (named.listing perm) unique (perm.mem_iff.mpr member) reads
        (usableCertificates_listing_nil perm none)
  obtain ⟨reason, selects⟩ := selects
  have first := resolves inventory.enrolledCertificates (.refl _)
  have second := selects inventory.enrolledCertificates catalog (.refl _) made
  refine ⟨⟨fun certificateId => ?_, ⟨fun _ => ⟨_, second⟩, fun _ => ⟨_, first⟩⟩⟩, ?_, ?_⟩
  · constructor
    · intro found
      cases first.symm.trans found
    · rintro ⟨row, found, -⟩
      cases second.symm.trans found
  · intro listed perm
    exact (resolves listed perm).trans first.symm
  · intro listed other perm built
    rw [selects listed other perm built, second]

theorem selectionsAgree_of_latest (reads : chosen.reads primitives = true)
    (latestReads : latest.reads primitives = true)
    (only : LatestUsable inventory chosen.signingKeyId nowUnixSeconds latest) :
    SelectionsAgree primitives inventory chosen.signingKeyId nowUnixSeconds chosen.certificateId
      catalog := by
  have selects : ∀ (listed : List EnrolledCertificate) (other : Catalog),
      listed.Perm inventory.enrolledCertificates →
      DefaultedCatalog primitives (inventory.listing listed) chosen.certificateId other →
        ∃ row, selectCatalogSigningIdentity primitives other nowUnixSeconds = .ok row ∧
          row.certificateId = some latest.certificateId := by
    intro listed other perm built
    obtain ⟨refs, on⟩ := built.on
    exact (only.listing perm).select on (named.listing perm) unique (perm.mem_iff.mpr member)
      reads latestReads
  have first := only.resolve
  obtain ⟨row, second, shown⟩ := selects inventory.enrolledCertificates catalog (.refl _) made
  refine ⟨⟨fun certificateId => ?_, ?_⟩, ?_, ?_⟩
  · constructor
    · intro found
      cases first.symm.trans found
      exact ⟨row, second, shown⟩
    · rintro ⟨other, found, same⟩
      cases second.symm.trans found
      cases shown.symm.trans same
      exact first
  · constructor
    · rintro ⟨reason, failed⟩
      cases first.symm.trans failed
    · rintro ⟨reason, failed⟩
      cases second.symm.trans failed
  · intro listed perm
    exact (only.listing perm).resolve.trans first.symm
  · intro listed other perm built
    obtain ⟨found, selected, same⟩ := selects listed other perm built
    rw [selected, second]
    change Except.ok found.certificateId = Except.ok row.certificateId
    rw [same, shown]

end

/-- **The inventory and its catalog select the same certificate.** They do, in every order of
the certificates, exactly when no certificate of the key is usable, or one usable certificate
starts later than all others and its chain and that of the default parse. -/
theorem selections_agree_iff (primitives : CatalogPrimitives) {inventory : Inventory}
    (accepted : inventory.validate primitives.toPrimitives = .ok ())
    (named : KeysNamed primitives inventory) {chosen : EnrolledCertificate}
    (member : chosen ∈ inventory.enrolledCertificates) {catalog : Catalog}
    (made : DefaultedCatalog primitives inventory chosen.certificateId catalog)
    (nowUnixSeconds : Nat) :
    SelectionsAgree primitives inventory chosen.signingKeyId nowUnixSeconds chosen.certificateId
        catalog ↔
      usableCertificates inventory chosen.signingKeyId nowUnixSeconds = [] ∨
        chosen.reads primitives = true ∧ ∃ latest, latest.reads primitives = true ∧
          LatestUsable inventory chosen.signingKeyId nowUnixSeconds latest := by
  have unique : (inventory.deviceSigningKeys.map (·.keyId)).Nodup :=
    (Inventory.validateUniqueIds_eq_ok_iff.mp (Inventory.validate_eq_ok_iff.mp accepted).1).1
  constructor
  · intro agree
    by_cases none : usableCertificates inventory chosen.signingKeyId nowUnixSeconds = []
    · exact .inl none
    · obtain ⟨refs, on⟩ := made.on
      obtain ⟨latest, only⟩ := latestUsable_of_resolved on agree.resolved none
      obtain ⟨row, selected, shown⟩ := (agree.same.certificate _).mp only.resolve
      have reads : chosen.reads primitives = true := by
        by_contra unread
        cases (on.select_of_unread named unique member
          (eq_false_of_ne_true unread)).symm.trans selected
      obtain ⟨own, ownMember, isOwn⟩ := on.mem_certified member
      obtain ⟨stored, -, -, parses⟩ := isOwn.keyIdentity named member reads
      rw [on.select_eq named unique ownMember isOwn, parses] at selected
      obtain ⟨certificate, usable, certificateReads, isRow⟩ : ∃ certificate ∈
          usableCertificates inventory chosen.signingKeyId nowUnixSeconds,
          certificate.reads primitives = true ∧
            CertifiedRow primitives inventory refs certificate row := by
        dsimp only at selected
        unfold selectFor at selected
        split at selected
        · cases selected
        · rename_i found
          cases selected
          rw [latestDefault_eq] at found
          exact ((on.mem_selectable named unique member isOwn parses).mp
            (mem_of_lastMax found)).2
      have same : certificate = latest := on.certificate_unique
        (mem_usableCertificates.mp usable).1 (mem_usableCertificates.mp only.1).1
        (Option.some.inj (isRow.certificateId.symm.trans shown))
      exact .inr ⟨reads, latest, same ▸ certificateReads, only⟩
  · rintro (none | ⟨reads, latest, latestReads, only⟩)
    · exact selectionsAgree_of_empty named unique member made none
    · exact selectionsAgree_of_latest named unique member made reads latestReads only

end

/-! ## Two certificates of a key -/

def startCertificate (name : String) (serial : UInt8) (start : Nat) : EnrolledCertificate :=
  { renewalCertificate name "key" serial 1 with notBeforeUnixSeconds := start }

/-- Two active certificates of one key, with their starts. -/
def selectionInventory (first second : Nat) : Inventory :=
  { Inventory.empty with
    deviceSigningKeys := [renewalKey "key" 1]
    enrolledCertificates := [startCertificate "one" 6 first, startCertificate "two" 5 second] }

theorem selectionInventory_named (first second : Nat) :
    KeysNamed renewalPrimitives (selectionInventory first second) where
  leafKey := by
    intro certificate member
    refine ⟨renewalKey "key" 1, List.mem_cons_self, ?_⟩
    rcases List.mem_pair.mp member with rfl | rfl
    · exact ⟨rfl, [1], rfl, rfl⟩
    · exact ⟨rfl, [1], rfl, rfl⟩
  distinct := by
    intro one first two second _
    rw [List.mem_singleton.mp first, List.mem_singleton.mp second]
  scope := by
    intro one first two second _
    rcases List.mem_pair.mp first with rfl | rfl <;>
      rcases List.mem_pair.mp second with rfl | rfl <;> exact ⟨rfl, rfl, rfl⟩

/-- The catalog of an inventory, built over empty stores, with its default. -/
def builtCatalog (inventory : Inventory) (chosen : Text) : Option Catalog :=
  match (buildCatalogFromInventory renewalPrimitives inventory "catalog".toList).run
      serveRenewal Vault.empty with
  | some (.ok draft, _) => some { draft.catalog with defaultSigningIdentityId := some chosen }
  | _ => none

theorem defaultedCatalog_of_builtCatalog {inventory : Inventory} {chosen : Text}
    {catalog : Catalog} (built : builtCatalog inventory chosen = some catalog) :
    DefaultedCatalog renewalPrimitives inventory chosen catalog := by
  unfold builtCatalog at built
  split at built
  · rename_i draft after ran
    cases built
    refine ⟨0, Vault.empty, "catalog".toList, draft, after, Program.ends_of_run ?_ ran, rfl⟩
    intro _ _ _ _ served
    exact serveRenewal_sound served
  · cases built

/-- What the catalog of an inventory selects. -/
def builtSelection (inventory : Inventory) (chosen : Text) (nowUnixSeconds : Nat) : Option Text :=
  (builtCatalog inventory chosen).bind fun catalog =>
    (selectCatalogSigningIdentity renewalPrimitives catalog nowUnixSeconds).toOption.bind
      (·.certificateId)

/-- The renewed certificate starts later: both select it, in either order. -/
theorem later_start_agrees : ∃ catalog,
    DefaultedCatalog renewalPrimitives (selectionInventory 0 10) "one".toList catalog ∧
      resolveDefaultSigningCertificateId (selectionInventory 0 10) "key".toList 50 =
        .ok "two".toList ∧
      SelectionsAgree renewalPrimitives (selectionInventory 0 10) "key".toList 50 "one".toList
        catalog := by
  have read : builtSelection (selectionInventory 0 10) "one".toList 50 = some "two".toList := by
    decide +kernel
  obtain ⟨catalog, built, -⟩ := Option.bind_eq_some_iff.mp read
  have made := defaultedCatalog_of_builtCatalog built
  refine ⟨catalog, made, by decide +kernel, ?_⟩
  refine (selections_agree_iff renewalPrimitives (by decide +kernel)
    (selectionInventory_named 0 10) List.mem_cons_self made 50).mpr (.inr ⟨by decide +kernel,
      startCertificate "two" 5 10, by decide +kernel, by decide +kernel, ?_⟩)
  intro other inside different
  rcases List.mem_pair.mp (mem_usableCertificates.mp inside).1 with rfl | rfl
  · exact Nat.zero_lt_succ 9
  · exact absurd rfl different

/-- Both certificates start at once: the inventory selects the one that is listed last, the
catalog the one with the greater digest. -/
theorem equal_starts_disagree : ∃ catalog,
    (selectionInventory 0 0).validate renewalPrimitives.toPrimitives = .ok () ∧
      KeysNamed renewalPrimitives (selectionInventory 0 0) ∧
      DefaultedCatalog renewalPrimitives (selectionInventory 0 0) "one".toList catalog ∧
      resolveDefaultSigningCertificateId (selectionInventory 0 0) "key".toList 50 =
        .ok "two".toList ∧
      (∃ row, selectCatalogSigningIdentity renewalPrimitives catalog 50 = .ok row ∧
        row.certificateId = some "one".toList) ∧
      ¬ SelectionsAgree renewalPrimitives (selectionInventory 0 0) "key".toList 50 "one".toList
        catalog := by
  have read : builtSelection (selectionInventory 0 0) "one".toList 50 = some "one".toList := by
    decide +kernel
  obtain ⟨catalog, built, selects⟩ := Option.bind_eq_some_iff.mp read
  obtain ⟨row, selected, shown⟩ := Option.bind_eq_some_iff.mp selects
  have selected := Except.toOption_eq_some.mp selected
  have resolved : resolveDefaultSigningCertificateId (selectionInventory 0 0) "key".toList 50 =
      .ok "two".toList := by decide +kernel
  refine ⟨catalog, by decide +kernel, selectionInventory_named 0 0,
    defaultedCatalog_of_builtCatalog built, resolved, ⟨row, selected, shown⟩, fun agree => ?_⟩
  obtain ⟨other, again, two⟩ := (agree.same.certificate _).mp resolved
  cases selected.symm.trans again
  have same : "one".toList = "two".toList := Option.some.inj (shown.symm.trans two)
  exact absurd same (by decide)

end ZManager.Identity
