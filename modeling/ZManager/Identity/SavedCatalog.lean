import Mathlib.Data.List.Nodup
import ZManager.Identity.VaultProtocol

/-! # What a save publishes

A call of `store_inventory_as_catalog` that succeeds, alone with its stores,
publishes a row for each certificate of the inventory, keeps the damaged rows of
the catalog that it read, and has chosen the default (`exists_saved_of_ends`).
-/

namespace ZManager.Identity

variable {row other : PublicSigningIdentity}

/-! ## Rows -/

theorem SecretRefMap.insert_eq_some {map : SecretRefMap} {keyId reference id found : Text} :
    map.insert keyId reference id = some found ↔
      id = keyId ∧ found = reference ∨ id ≠ keyId ∧ map id = some found := by
  unfold SecretRefMap.insert
  rw [Function.update_apply]
  split_ifs with same
  · simp [same, eq_comm]
  · simp [same]

theorem preserveDefaultSigningIdentity_rows (primitives : CatalogPrimitives)
    (existing : Option Catalog) (next : Catalog) :
    (preserveDefaultSigningIdentity primitives existing next).signingIdentities =
        next.signingIdentities ∧
      (preserveDefaultSigningIdentity primitives existing next).recipientKeys =
        next.recipientKeys := by
  unfold preserveDefaultSigningIdentity
  split
  · exact ⟨rfl, rfl⟩
  · split
    · exact ⟨rfl, rfl⟩
    · dsimp only
      split
      · exact ⟨rfl, rfl⟩
      · split
        · exact ⟨rfl, rfl⟩
        · exact ⟨rfl, rfl⟩

theorem keyRow_eq_ok {primitives : CatalogPrimitives} {refs : SecretRefMap}
    {key : DeviceSigningKey} (made : keyRow primitives refs key = .ok row) :
    refs key.keyId = some row.signingKeyRef ∧ row.certificateId = none := by
  unfold keyRow at made
  obtain ⟨binding, -, made⟩ := Except.bind_eq_ok_iff.mp made
  cases found : refs key.keyId with
  | none =>
    rw [found] at made
    cases made
  | some reference =>
    rw [found] at made
    cases made
    exact ⟨rfl, rfl⟩

/-- The rows differ at most in the reference of their key. -/
def SameButReference (row other : PublicSigningIdentity) : Prop :=
  other = { row with signingKeyRef := other.signingKeyRef }

theorem SameButReference.refl (row : PublicSigningIdentity) : SameButReference row row := rfl

theorem SameButReference.trans {one two three : PublicSigningIdentity}
    (first : SameButReference one two) (second : SameButReference two three) :
    SameButReference one three := by
  unfold SameButReference at first second ⊢
  rw [second, first]

theorem SameButReference.keyIdentity (same : SameButReference row other)
    (primitives : CatalogPrimitives) :
    other.certificateKeyIdentity primitives = row.certificateKeyIdentity primitives := by
  rw [same]
  rfl

/-- The row is the one of a certificate. -/
structure IsRowOf (certificate : EnrolledCertificate) (row : PublicSigningIdentity) : Prop where
  id : row.id = certificate.certificateId
  lifecycle : row.lifecycle = certificate.state.asStr
  chain : row.certificateChainDer =
    certificate.leafCertificateDer :: certificate.intermediateChainDer

theorem IsRowOf.of_same {certificate : EnrolledCertificate} (isRow : IsRowOf certificate row)
    (same : SameButReference row other) :
    IsRowOf certificate other := by
  rw [same]
  exact ⟨isRow.id, isRow.lifecycle, isRow.chain⟩

/-- A row of the published catalog whose certificate does not parse. -/
def KeptDamaged (primitives : CatalogPrimitives) (existing : Option Catalog)
    (row : PublicSigningIdentity) : Prop :=
  ∃ catalog, existing = some catalog ∧ ∃ old ∈ catalog.signingIdentities,
    SameButReference old row ∧ ∃ reason, old.certificateKeyIdentity primitives = .error reason

theorem lifecycle_active_iff {state : LocalCertificateState} :
    state.asStr = LocalCertificateState.active.asStr ↔ state = .active := by
  cases state <;> decide

section

variable {primitives : CatalogPrimitives} {inventory : Inventory}

variable {row : PublicSigningIdentity} {certificates : List EnrolledCertificate}
  {rows : List PublicSigningIdentity}

theorem isRowOf_certificateRow {refs : SecretRefMap} {certificate : EnrolledCertificate}
    (made : certificateRow primitives inventory refs certificate = .ok row) :
    IsRowOf certificate row := by
  unfold certificateRow at made
  cases found : refs certificate.signingKeyId with
  | none =>
    rw [found] at made
    cases made
  | some reference =>
    rw [found] at made
    obtain ⟨binding, -, made⟩ := Except.bind_eq_ok_iff.mp made
    cases made
    exact ⟨rfl, rfl, rfl⟩

theorem keyRow_lifecycle {refs : SecretRefMap} {key : DeviceSigningKey}
    (made : keyRow primitives refs key = .ok row) :
    row.lifecycle ≠ LocalCertificateState.active.asStr := by
  unfold keyRow at made
  obtain ⟨binding, -, made⟩ := Except.bind_eq_ok_iff.mp made
  cases found : refs key.keyId with
  | none =>
    rw [found] at made
    cases made
  | some reference =>
    rw [found] at made
    cases made
    change "pending".toList ≠ LocalCertificateState.active.asStr
    decide

/-- The first active certificate of an inventory. -/
def Inventory.firstActive (inventory : Inventory) : Option EnrolledCertificate :=
  inventory.enrolledCertificates.find? fun certificate => certificate.state == .active

/-- The first active row is the one of the first active certificate. -/
theorem find?_active_rows (each : List.Forall₂ IsRowOf certificates rows) :
    (rows.find? fun row => row.lifecycle == LocalCertificateState.active.asStr).map (·.id) =
      (certificates.find? fun certificate => certificate.state == .active).map
        (·.certificateId) := by
  induction each with
  | nil => rfl
  | @cons certificate row _ _ isRow _ ih =>
    rw [List.find?_cons, List.find?_cons]
    by_cases active : certificate.state = .active
    · have shown : (row.lifecycle == LocalCertificateState.active.asStr) = true := by
        rw [isRow.lifecycle, beq_iff_eq, lifecycle_active_iff]
        exact active
      rw [shown, beq_iff_eq.mpr active]
      exact congrArg some isRow.id
    · have shown : (row.lifecycle == LocalCertificateState.active.asStr) = false := by
        rw [isRow.lifecycle, beq_eq_false_iff_ne, Ne, lifecycle_active_iff]
        exact active
      rw [shown, beq_false_of_ne active]
      exact ih

theorem map_id_rows (each : List.Forall₂ IsRowOf certificates rows) :
    certificates.map (·.certificateId) = rows.map (·.id) := by
  induction each with
  | nil => rfl
  | cons isRow _ ih => rw [List.map_cons, List.map_cons, isRow.id, ih]

theorem validate_signingIdentities {catalog : Catalog}
    (valid : catalog.validate primitives = .ok ()) :
    (catalog.signingIdentities.map (·.id)).Nodup := by
  unfold Catalog.validate at valid
  obtain ⟨_, -, valid⟩ := Except.bind_eq_ok_iff.mp valid
  obtain ⟨_, -, valid⟩ := Except.bind_eq_ok_iff.mp valid
  obtain ⟨_, checked, -⟩ := Except.bind_eq_ok_iff.mp valid
  unfold requireCatalog at checked
  split_ifs at checked with holds
  simpa using holds

/-- The rows and the default of a new catalog. -/
theorem buildCatalog_rows {catalogId : Text} {signingRefs recipientRefs : SecretRefMap}
    {catalog : Catalog}
    (made : buildCatalog primitives inventory catalogId signingRefs recipientRefs = .ok catalog) :
    ∃ certified uncertified, catalog.signingIdentities = certified ++ uncertified ∧
      List.Forall₂ IsRowOf inventory.enrolledCertificates certified ∧
      (∀ row ∈ uncertified, row.lifecycle ≠ LocalCertificateState.active.asStr) ∧
      (inventory.enrolledCertificates.map (·.certificateId)).Nodup ∧
      catalog.defaultSigningIdentityId = inventory.firstActive.map (·.certificateId) := by
  unfold buildCatalog at made
  obtain ⟨certified, rows, made⟩ := Except.bind_eq_ok_iff.mp made
  obtain ⟨uncertified, keys, made⟩ := Except.bind_eq_ok_iff.mp made
  obtain ⟨recipients, -, made⟩ := Except.bind_eq_ok_iff.mp made
  obtain ⟨contacts, -, made⟩ := Except.bind_eq_ok_iff.mp made
  obtain ⟨_, valid, made⟩ := Except.bind_eq_ok_iff.mp made
  cases made
  have each : List.Forall₂ IsRowOf inventory.enrolledCertificates certified :=
    (Except.forall₂_of_mapM_eq_ok rows).imp fun _ _ => isRowOf_certificateRow
  have pending : ∀ row ∈ uncertified, row.lifecycle ≠ LocalCertificateState.active.asStr := by
    intro row member
    obtain ⟨key, -, row⟩ := forall₂_exists_of_mem_right (Except.forall₂_of_mapM_eq_ok keys) member
    exact keyRow_lifecycle row
  have none : uncertified.find? (fun row =>
      row.lifecycle == LocalCertificateState.active.asStr) = none :=
    List.find?_eq_none.mpr fun row member => by simpa using pending row member
  have ids := map_id_rows each
  have distinct := validate_signingIdentities valid
  dsimp only at distinct
  rw [List.map_append] at distinct
  refine ⟨certified, uncertified, rfl, each, pending, ids ▸ distinct.of_append_left, ?_⟩
  dsimp only
  rw [List.find?_append, none, Option.or_none]
  exact find?_active_rows each

end

/-! ## A save alone with its stores -/

section

variable {primitives : CatalogPrimitives} {client : Nat} {before after : Vault}

variable {draft later : CatalogDraft} {row : PublicSigningIdentity}

variable {inventory : Inventory}

theorem ends_orFail {α β ε : Type} {result : Except ε α} {next : α → VaultProgram (Except ε β)}
    {value : β}
    (ended : (orFail result next).Ends (Vault.effect primitives client) before (.ok value) after) :
    ∃ found, result = .ok found ∧
      (next found).Ends (Vault.effect primitives client) before (.ok value) after := by
  cases result with
  | error reason => cases ended.1
  | ok found => exact ⟨found, rfl, ended⟩

/-- Every operation but a publication leaves the catalog alone. -/
theorem catalog_of_effect {op : VaultOp} {answer : VaultAnswer op}
    (taken : Vault.effect primitives client before op answer after)
    (quiet : ∀ expectedRevision catalog, op ≠ .saveCatalog expectedRevision catalog) :
    after.catalog = before.catalog := by
  cases op with
  | generate mark => rw [taken.2]
  | loadCatalog => rw [taken.1]
  | saveCatalog expectedRevision catalog => exact absurd rfl (quiet expectedRevision catalog)
  | resolve secret => rw [taken.1]
  | putAt secret material =>
    rcases taken with ⟨-, rfl, -⟩ | ⟨rfl, -⟩
    · rfl
    · rfl
  | delete secret =>
    rcases taken with ⟨rfl, -⟩ | ⟨rfl, -⟩
    · rfl
    · rfl

theorem catalog_of_generateSigningRefs {keys : List DeviceSigningKey} {refs result : SecretRefMap}
    (ended : (generateSigningRefs primitives keys refs).Ends (Vault.effect primitives client)
      before (.ok result) after) : after.catalog = before.catalog := by
  induction keys generalizing refs before with
  | nil => rw [ended.2]
  | cons key rest ih =>
    obtain ⟨_, -, answer, middle, taken, ended⟩ := ends_orFail ended
    rw [ih ended, catalog_of_effect taken nofun]

theorem catalog_of_generateRecipientRefs {keys : List RecipientEncryptionKey}
    {refs result : SecretRefMap}
    (ended : (generateRecipientRefs primitives keys refs).Ends (Vault.effect primitives client)
      before (.ok result) after) : after.catalog = before.catalog := by
  induction keys generalizing refs before with
  | nil => rw [ended.2]
  | cons key rest ih =>
    obtain ⟨_, -, answer, middle, taken, ended⟩ := ends_orFail ended
    rw [ih ended, catalog_of_effect taken nofun]

theorem built_of_ends {catalogId : Text}
    (ended : (buildCatalogFromInventory primitives inventory catalogId).Ends
      (Vault.effect primitives client) before (.ok draft) after) :
    after.catalog = before.catalog ∧
      buildCatalog primitives inventory catalogId draft.signingRefs draft.recipientRefs =
        .ok draft.catalog := by
  obtain ⟨_, middle, generated, signing⟩ := Program.ends_bind.mp ended
  obtain ⟨signingRefs, rfl, rest⟩ := ends_orFail signing
  obtain ⟨_, last, recipients, recipient⟩ := Program.ends_bind.mp rest
  obtain ⟨recipientRefs, rfl, building⟩ := ends_orFail recipient
  obtain ⟨catalog, built, same, rfl⟩ := ends_orFail building
  cases same
  exact ⟨(catalog_of_generateRecipientRefs recipients).trans
    (catalog_of_generateSigningRefs generated), built⟩

/-! ## Taking over references -/

/-- The default is the same, the rows are those of the first draft but for their
references, and damaged rows of the published catalog are added. -/
structure Redrafts (primitives : CatalogPrimitives) (existing : Option Catalog)
    (draft later : CatalogDraft) : Prop where
  default : later.catalog.defaultSigningIdentityId = draft.catalog.defaultSigningIdentityId
  kept : ∀ row ∈ draft.catalog.signingIdentities,
    ∃ other ∈ later.catalog.signingIdentities, SameButReference row other
  only : ∀ other ∈ later.catalog.signingIdentities,
    (∃ row ∈ draft.catalog.signingIdentities, SameButReference row other) ∨
      KeptDamaged primitives existing other

variable {existing : Option Catalog}

theorem Redrafts.of_rows
    (default : later.catalog.defaultSigningIdentityId = draft.catalog.defaultSigningIdentityId)
    (same : later.catalog.signingIdentities = draft.catalog.signingIdentities) :
    Redrafts primitives existing draft later where
  default := default
  kept := fun row member => ⟨row, same ▸ member, .refl row⟩
  only := fun row member => .inl ⟨row, same ▸ member, .refl row⟩

theorem Redrafts.refl (draft : CatalogDraft) : Redrafts primitives existing draft draft :=
  .of_rows rfl rfl

theorem KeptDamaged.of_same (damaged : KeptDamaged primitives existing row)
    (same : SameButReference row other) :
    KeptDamaged primitives existing other := by
  obtain ⟨catalog, read, old, member, first, reason⟩ := damaged
  exact ⟨catalog, read, old, member, first.trans same, reason⟩

theorem Redrafts.trans {one two three : CatalogDraft}
    (first : Redrafts primitives existing one two)
    (second : Redrafts primitives existing two three) : Redrafts primitives existing one three where
  default := second.default.trans first.default
  kept := by
    intro row member
    obtain ⟨middle, inside, one⟩ := first.kept row member
    obtain ⟨last, found, two⟩ := second.kept middle inside
    exact ⟨last, found, one.trans two⟩
  only := by
    intro last member
    rcases second.only last member with ⟨middle, inside, two⟩ | damaged
    · rcases first.only middle inside with ⟨row, found, one⟩ | damaged
      · exact .inl ⟨row, found, one.trans two⟩
      · exact .inr (damaged.of_same two)
    · exact .inr damaged

/-- The rows after a reference is replaced. -/
theorem redrafts_replaceSigningRef {fresh reused : Text}
    (default : later.catalog.defaultSigningIdentityId = draft.catalog.defaultSigningIdentityId)
    (rows : later.catalog.signingIdentities =
      replaceSigningRef fresh reused draft.catalog.signingIdentities) :
    Redrafts primitives existing draft later where
  default := default
  kept := by
    intro row member
    rw [rows]
    refine ⟨_, List.mem_map_of_mem member, ?_⟩
    split_ifs <;> rfl
  only := by
    intro other member
    rw [rows] at member
    obtain ⟨row, inside, rfl⟩ := List.mem_map.mp member
    refine .inl ⟨row, inside, ?_⟩
    split_ifs <;> rfl

theorem redrafts_reuseSigning (draft : CatalogDraft) (keyId reused : Text) :
    Redrafts primitives existing draft (draft.reuseSigning keyId reused) := by
  unfold CatalogDraft.reuseSigning
  cases draft.signingRefs keyId with
  | none => exact .of_rows rfl rfl
  | some fresh => exact redrafts_replaceSigningRef rfl rfl

theorem redrafts_keepDamaged (draft : CatalogDraft)
    (damaged : KeptDamaged primitives existing row) :
    Redrafts primitives existing draft (draft.keepDamaged row) := by
  unfold CatalogDraft.keepDamaged
  split_ifs
  · exact .refl draft
  · refine ⟨rfl, fun other member => ⟨other, List.mem_append_left _ member, .refl other⟩, ?_⟩
    intro other member
    rcases List.mem_append.mp member with inside | added
    · exact .inl ⟨other, inside, .refl other⟩
    · rw [List.mem_singleton.mp added]
      exact .inr damaged

theorem redrafts_of_reuseSigningRow {catalog : Catalog} (member : row ∈ catalog.signingIdentities)
    (ended : (reuseSigningRow primitives inventory row draft).Ends
      (Vault.effect primitives client) before (.ok later) after) :
    after.catalog = before.catalog ∧ Redrafts primitives (some catalog) draft later := by
  unfold reuseSigningRow at ended
  split at ended
  · rename_i reason damaged
    obtain ⟨same, rfl⟩ := ended
    cases same
    refine ⟨rfl, redrafts_keepDamaged draft ⟨catalog, rfl, row, member, .refl row, ?_⟩⟩
    unfold PublicSigningIdentity.publicKey at damaged
    split at damaged
    · cases damaged
    · cases identity : row.certificateKeyIdentity primitives with
      | error found => exact ⟨found, rfl⟩
      | ok found =>
        rw [identity] at damaged
        cases damaged
  · rename_i publicKey _
    split at ended
    · obtain ⟨same, rfl⟩ := ended
      cases same
      exact ⟨rfl, .refl _⟩
    · rename_i key _
      split at ended
      · obtain ⟨same, rfl⟩ := ended
        cases same
        exact ⟨rfl, .refl _⟩
      · obtain ⟨answer, middle, taken, rest⟩ := ended
        obtain ⟨material, -, checked⟩ := ends_orFail rest
        obtain ⟨_, -, last⟩ := ends_orFail checked
        have frame := catalog_of_effect taken nofun
        split at last
        · cases last.1
        · obtain ⟨same, rfl⟩ := last
          cases same
          exact ⟨frame, redrafts_reuseSigning _ _ _⟩

theorem redrafts_of_reuseSigningRows {catalog : Catalog} {rows : List PublicSigningIdentity}
    (members : rows ⊆ catalog.signingIdentities)
    (ended : (reuseSigningRows primitives inventory rows draft).Ends
      (Vault.effect primitives client) before (.ok later) after) :
    after.catalog = before.catalog ∧ Redrafts primitives (some catalog) draft later := by
  induction rows generalizing draft before with
  | nil =>
    obtain ⟨same, rfl⟩ := ended
    cases same
    exact ⟨rfl, .refl _⟩
  | cons row rest ih =>
    obtain ⟨_, middle, one, reused⟩ := Program.ends_bind.mp ended
    obtain ⟨next, rfl, others⟩ := ends_orFail reused
    obtain ⟨frame, first⟩ := redrafts_of_reuseSigningRow (members List.mem_cons_self) one
    obtain ⟨frameRest, second⟩ := ih (List.subset_of_cons_subset members) others
    exact ⟨frameRest.trans frame, first.trans second⟩

theorem redrafts_of_reuseRecipientRows {rows : List PublicRecipientKey}
    (ended : (reuseRecipientRows primitives inventory rows draft).Ends
      (Vault.effect primitives client) before (.ok later) after) :
    after.catalog = before.catalog ∧ Redrafts primitives existing draft later := by
  induction rows generalizing draft before with
  | nil =>
    obtain ⟨same, rfl⟩ := ended
    cases same
    exact ⟨rfl, .refl _⟩
  | cons row rest ih =>
    obtain ⟨_, middle, one, reused⟩ := Program.ends_bind.mp ended
    obtain ⟨next, rfl, others⟩ := ends_orFail reused
    obtain ⟨frameRest, second⟩ := ih others
    have first : middle.catalog = before.catalog ∧ Redrafts primitives existing draft next := by
      unfold reuseRecipientRow at one
      split at one
      · obtain ⟨answer, world, taken, checked⟩ := one
        obtain ⟨material, -, checked⟩ := ends_orFail checked
        obtain ⟨_, -, same, rfl⟩ := ends_orFail checked
        cases same
        exact ⟨catalog_of_effect taken nofun, .of_rows rfl rfl⟩
      · obtain ⟨same, rfl⟩ := one
        cases same
        exact ⟨rfl, .refl _⟩
    exact ⟨frameRest.trans first.1, first.2.trans second⟩

theorem redrafts_of_reuseReferences
    (ended : (reuseReferences primitives inventory draft existing).Ends
      (Vault.effect primitives client) before (.ok later) after) :
    after.catalog = before.catalog ∧ Redrafts primitives existing draft later := by
  cases existing with
  | none =>
    obtain ⟨same, rfl⟩ := ended
    cases same
    exact ⟨rfl, .refl _⟩
  | some catalog =>
    obtain ⟨_, middle, one, signing⟩ := Program.ends_bind.mp ended
    obtain ⟨next, rfl, recipients⟩ := ends_orFail signing
    obtain ⟨frame, first⟩ := redrafts_of_reuseSigningRows (List.Subset.refl _) one
    obtain ⟨frameRest, second⟩ := redrafts_of_reuseRecipientRows recipients
    exact ⟨frameRest.trans frame, first.trans second⟩

/-! ## Writing and publishing -/

theorem catalog_of_deleteSecrets {secrets : List SecretId}
    (ended : (deleteSecrets secrets).Ends (Vault.effect primitives client) before () after) :
    after.catalog = before.catalog := by
  induction secrets generalizing before with
  | nil => rw [ended.2]
  | cons secret rest ih =>
    obtain ⟨answer, middle, taken, rest⟩ := ended
    rw [ih rest, catalog_of_effect taken nofun]

/-- A publication that is reported as made. -/
theorem published_of_writeAndPublish {written : List SecretId}
    (ended : (writeAndPublish inventory existing draft).Ends (Vault.effect primitives client)
      before (.ok (), written) after) :
    after.catalog = some { draft.catalog with revision := nextRevision existing } ∧
      Catalog.validate primitives { draft.catalog with revision := nextRevision existing } =
        .ok () := by
  obtain ⟨⟨signed, first⟩, middle, -, signing⟩ := Program.ends_bind.mp ended
  cases signed with
  | error reason => cases signing.1
  | ok _ =>
    obtain ⟨⟨received, second⟩, later, -, recipient⟩ := Program.ends_bind.mp signing
    cases received with
    | error reason => cases recipient.1
    | ok _ =>
      obtain ⟨answer, last, taken, same, rfl⟩ := recipient
      cases same
      rcases taken with ⟨-, valid, rfl, -⟩ | ⟨-, reason, failed⟩
      · exact ⟨rfl, valid⟩
      · cases failed

end

/-! ## What is published -/

/-- The rows of a catalog saved from an inventory over a published one, and how its
default was chosen. -/
structure Saved (primitives : CatalogPrimitives) (inventory : Inventory)
    (existing : Option Catalog) (next : Catalog) : Prop where
  valid : next.validate primitives = .ok ()
  distinct : (inventory.enrolledCertificates.map (·.certificateId)).Nodup
  rows : ∀ certificate ∈ inventory.enrolledCertificates,
    ∃ row ∈ next.signingIdentities, IsRowOf certificate row
  active : ∀ row ∈ next.signingIdentities,
    row.lifecycle = LocalCertificateState.active.asStr →
      (∃ certificate ∈ inventory.enrolledCertificates, IsRowOf certificate row) ∨
        KeptDamaged primitives existing row
  default : ∃ draft : Catalog, draft.signingIdentities = next.signingIdentities ∧
    draft.defaultSigningIdentityId = inventory.firstActive.map (·.certificateId) ∧
    next.defaultSigningIdentityId =
      (preserveDefaultSigningIdentity primitives existing draft).defaultSigningIdentityId

section

variable {primitives : CatalogPrimitives} {client : Nat} {before after : Vault}
  {inventory : Inventory} {existing : Option Catalog} {next : Catalog}

/-- A call that succeeds, alone with its stores, has saved the inventory over the
catalog that was published before. -/
theorem exists_saved_of_ends {order : IterationOrder} {catalogId : Text}
    (ended : (storeInventoryAsCatalog primitives order inventory catalogId).Ends
      (Vault.effect primitives client) before (.ok ()) after) :
    ∃ next, after.catalog = some next ∧ Saved primitives inventory before.catalog next := by
  obtain ⟨_, built, building, rest⟩ := Program.ends_bind.mp ended
  obtain ⟨draft, rfl, loading⟩ := ends_orFail rest
  obtain ⟨frame, made⟩ := built_of_ends building
  obtain ⟨answer, loaded, taken, reading⟩ := loading
  obtain ⟨existing, read, reusing⟩ := ends_orFail reading
  obtain ⟨rfl, known⟩ := taken
  have current : before.catalog = existing := by
    rcases known with known | ⟨reason, failed⟩
    · rw [known] at read
      exact frame.symm.trans (Except.ok.inj read)
    · rw [failed] at read
      cases read
  obtain ⟨_, reused, references, drafted⟩ := Program.ends_bind.mp reusing
  obtain ⟨later, rfl, writing⟩ := ends_orFail drafted
  obtain ⟨-, redrafts⟩ := redrafts_of_reuseReferences references
  obtain ⟨⟨outcome, written⟩, published, publishing, finishing⟩ := Program.ends_bind.mp writing
  cases outcome with
  | error reason =>
    obtain ⟨_, _, -, failed⟩ := Program.ends_bind.mp finishing
    cases failed.1
  | ok _ =>
    obtain ⟨_, last, deleting, -, rfl⟩ := Program.ends_bind.mp finishing
    obtain ⟨shown, valid⟩ := published_of_writeAndPublish publishing
    refine ⟨_, (catalog_of_deleteSecrets deleting).trans shown, ?_⟩
    obtain ⟨certified, uncertified, rows, each, pending, distinct, default⟩ :=
      buildCatalog_rows made
    rw [current]
    refine ⟨valid, distinct, ?_, ?_, later.catalog, ?_, redrafts.default.trans default, rfl⟩
    · intro certificate member
      obtain ⟨row, inside, isRow⟩ := forall₂_exists_of_mem_left each member
      obtain ⟨other, found, same⟩ :=
        redrafts.kept row (rows ▸ List.mem_append_left uncertified inside)
      refine ⟨other, ?_, isRow.of_same same⟩
      change other ∈ (preserveDefaultSigningIdentity primitives existing
        later.catalog).signingIdentities
      rw [(preserveDefaultSigningIdentity_rows primitives existing later.catalog).1]
      exact found
    · intro other member active
      change other ∈ (preserveDefaultSigningIdentity primitives existing
        later.catalog).signingIdentities at member
      rw [(preserveDefaultSigningIdentity_rows primitives existing later.catalog).1] at member
      rcases redrafts.only other member with ⟨row, inside, same⟩ | damaged
      · rw [rows] at inside
        rcases List.mem_append.mp inside with certifiedRow | keyRow
        · obtain ⟨certificate, found, isRow⟩ := forall₂_exists_of_mem_right each certifiedRow
          exact .inl ⟨certificate, found, isRow.of_same same⟩
        · rw [same] at active
          exact absurd active (pending row keyRow)
      · exact .inr damaged
    · exact (preserveDefaultSigningIdentity_rows primitives existing later.catalog).1.symm

end

end ZManager.Identity
