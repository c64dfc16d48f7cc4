import ZManager.Foundation.Program
import ZManager.Identity.Catalog

/-! # Storing an inventory as a catalog

`store_inventory_as_catalog` builds the catalog of an inventory, takes over the
references of keys that the published catalog has already, writes the secrets,
and then publishes the catalog with the revision it has read. A failed write or
publication is followed by the removal of the new secrets, a successful one by
the removal of those that are no longer named. It is written here as a program
over the operations of a catalog store and a secret store.
-/

namespace ZManager.Identity

/-- The public key that a reference is generated for. -/
inductive KeyMark where
  | signing (fingerprint : Text)
  | recipient (publicKeyDer : List UInt8)

/-- The operations of the two stores, and the generation of a reference. The key that a
reference is generated for is noted for the proofs only. -/
inductive VaultOp where
  | generate (mark : KeyMark)
  | loadCatalog
  | saveCatalog (expectedRevision : Option Nat) (catalog : Catalog)
  | resolve (secret : SecretId)
  | putAt (secret : SecretId) (material : List UInt8)
  | delete (secret : SecretId)

def VaultAnswer : VaultOp → Type
  | .generate _ => Text
  | .loadCatalog => Except CatalogError (Option Catalog)
  | .saveCatalog _ _ => Except CatalogError Unit
  | .resolve _ => Except SecretError (List UInt8)
  | .putAt _ _ => Except SecretError Unit
  | .delete _ => Except SecretError Unit

/-- Programs on the vault. -/
abbrev VaultProgram (α : Type) : Type := Program VaultOp VaultAnswer α

/-- The order in which a hash set of secrets is gone through. -/
structure IterationOrder where
  order : List SecretId → List SecretId
  perm : ∀ secrets, (order secrets).Perm secrets

/-- The catalog to be, and the references of its keys. -/
structure CatalogDraft where
  catalog : Catalog
  signingRefs : SecretRefMap
  recipientRefs : SecretRefMap
  reusedKeys : List Text

section

variable (primitives : CatalogPrimitives)

/-- What follows a success; a failure ends the call. -/
def orFail {α β ε : Type} (result : Except ε α) (next : α → VaultProgram (Except ε β)) :
    VaultProgram (Except ε β) :=
  match result with
  | .error reason => .done (.error reason)
  | .ok value => next value

/-- A reference for each signing key whose private material has its fingerprint. -/
def generateSigningRefs :
    List DeviceSigningKey → SecretRefMap → VaultProgram (Except CatalogError SecretRefMap)
  | [], references => .done (.ok references)
  | key :: rest, references =>
    orFail (verifyPrivateMatchesFingerprint primitives key.privateKeyDer key.publicKeyFingerprint)
      fun _ => .ask (.generate (.signing key.publicKeyFingerprint)) fun reference =>
        generateSigningRefs rest (references.insert key.keyId reference)

def generateRecipientRefs :
    List RecipientEncryptionKey → SecretRefMap → VaultProgram (Except CatalogError SecretRefMap)
  | [], references => .done (.ok references)
  | key :: rest, references =>
    orFail (verifyPrivateMatchesPublicKey primitives key.privateKeyDer key.publicKeyDer)
      fun _ => .ask (.generate (.recipient key.publicKeyDer)) fun reference =>
        generateRecipientRefs rest (references.insert key.keyId reference)

/-- `build_catalog_from_inventory`. -/
def buildCatalogFromInventory (inventory : Inventory) (catalogId : Text) :
    VaultProgram (Except CatalogError CatalogDraft) := do
  let signing ← generateSigningRefs primitives inventory.deviceSigningKeys .empty
  orFail signing fun signingRefs => do
    let recipient ← generateRecipientRefs primitives inventory.recipientEncryptionKeys .empty
    orFail recipient fun recipientRefs =>
      orFail (buildCatalog primitives inventory catalogId signingRefs recipientRefs) fun catalog =>
        .done (.ok ⟨catalog, signingRefs, recipientRefs, []⟩)

/-- The public key of a row with a certificate; a row without one has none. -/
def PublicSigningIdentity.publicKey (row : PublicSigningIdentity) :
    Except CatalogError (Option SigningKeyIdentity) :=
  match row.certificateId with
  | none => .ok none
  | some _ => some <$> row.certificateKeyIdentity primitives

/-- The first key of the inventory that an existing row stands for. -/
def matchesIdentity (row : PublicSigningIdentity) (publicKey : Option SigningKeyIdentity)
    (key : DeviceSigningKey) : Bool :=
  row.inventoryKeyId == some key.keyId ||
    (publicKey.any fun identity => identity.publicKeyFingerprint == key.publicKeyFingerprint) ||
    (row.certificateId.isNone && row.id == key.keyId)

def replaceSigningRef (fresh existing : Text) (rows : List PublicSigningIdentity) :
    List PublicSigningIdentity :=
  rows.map fun row =>
    if row.signingKeyRef = fresh then { row with signingKeyRef := existing } else row

def replaceRecipientRef (fresh existing : Text) (rows : List PublicRecipientKey) :
    List PublicRecipientKey :=
  rows.map fun row =>
    if row.privateKeyRef = fresh then { row with privateKeyRef := existing } else row

/-- A damaged row stays unless the new catalog has a row with its id. -/
def CatalogDraft.keepDamaged (draft : CatalogDraft) (row : PublicSigningIdentity) : CatalogDraft :=
  if draft.catalog.signingIdentities.any fun other => other.id == row.id then draft
  else { draft with catalog := { draft.catalog with
    signingIdentities := draft.catalog.signingIdentities ++ [row] } }

/-- The key takes over the reference of the existing row. -/
def CatalogDraft.reuseSigning (draft : CatalogDraft) (keyId existing : Text) : CatalogDraft :=
  let noted := { draft with reusedKeys := keyId :: draft.reusedKeys }
  match draft.signingRefs keyId with
  | none => noted
  | some fresh => { noted with
      catalog := { draft.catalog with
        signingIdentities := replaceSigningRef fresh existing draft.catalog.signingIdentities }
      signingRefs := draft.signingRefs.insert keyId existing }

def CatalogDraft.reuseRecipient (draft : CatalogDraft) (keyId fresh existing : Text) :
    CatalogDraft :=
  { draft with
    catalog := { draft.catalog with
      recipientKeys := replaceRecipientRef fresh existing draft.catalog.recipientKeys }
    recipientRefs := draft.recipientRefs.insert keyId existing }

/-- What one signing row of the published catalog does to the draft. -/
def reuseSigningRow (inventory : Inventory) (row : PublicSigningIdentity) (draft : CatalogDraft) :
    VaultProgram (Except CatalogError CatalogDraft) :=
  match row.publicKey primitives with
  | .error _ => .done (.ok (draft.keepDamaged row))
  | .ok publicKey =>
    match inventory.deviceSigningKeys.find? (matchesIdentity row publicKey) with
    | none => .done (.ok draft)
    | some key =>
      if key.keyId ∈ draft.reusedKeys then .done (.ok draft)
      else .ask (.resolve ⟨.signingKey, row.signingKeyRef⟩) fun answer =>
        orFail (answer.mapError CatalogError.secret) fun material =>
          orFail (verifyPrivateMatchesFingerprint primitives material key.publicKeyFingerprint)
            fun _ =>
              if publicKey.any fun identity =>
                  identity.publicKeyFingerprint != key.publicKeyFingerprint then
                .done (.error (.invalidCatalog "certificate_public_key_match"))
              else .done (.ok (draft.reuseSigning key.keyId row.signingKeyRef))

def reuseSigningRows (inventory : Inventory) :
    List PublicSigningIdentity → CatalogDraft → VaultProgram (Except CatalogError CatalogDraft)
  | [], draft => .done (.ok draft)
  | row :: rest, draft => do
      let reused ← reuseSigningRow primitives inventory row draft
      orFail reused fun draft => reuseSigningRows inventory rest draft

def reuseRecipientRow (inventory : Inventory) (row : PublicRecipientKey) (draft : CatalogDraft) :
    VaultProgram (Except CatalogError CatalogDraft) :=
  match draft.recipientRefs row.id,
      inventory.recipientEncryptionKeys.find? fun key => key.keyId == row.id with
  | some fresh, some key =>
    .ask (.resolve ⟨.recipientKey, row.privateKeyRef⟩) fun answer =>
      orFail (answer.mapError CatalogError.secret) fun material =>
        orFail (verifyPrivateMatchesPublicKey primitives material key.publicKeyDer) fun _ =>
          .done (.ok (draft.reuseRecipient row.id fresh row.privateKeyRef))
  | _, _ => .done (.ok draft)

def reuseRecipientRows (inventory : Inventory) :
    List PublicRecipientKey → CatalogDraft → VaultProgram (Except CatalogError CatalogDraft)
  | [], draft => .done (.ok draft)
  | row :: rest, draft => do
      let reused ← reuseRecipientRow primitives inventory row draft
      orFail reused fun draft => reuseRecipientRows inventory rest draft

/-- The references of the published catalog are taken over. -/
def reuseReferences (inventory : Inventory) (draft : CatalogDraft) :
    Option Catalog → VaultProgram (Except CatalogError CatalogDraft)
  | none => .done (.ok draft)
  | some existing => do
      let signing ← reuseSigningRows primitives inventory existing.signingIdentities draft
      orFail signing fun draft =>
        reuseRecipientRows primitives inventory existing.recipientKeys draft

/-- `None` comes before every value. -/
def optionBefore {α : Type} (before : α → α → Bool) : Option α → Option α → Bool
  | none, some _ => true
  | some one, some two => before one two
  | _, none => false

/-- The order by which the replacement of a default is chosen. -/
def defaultBefore (one two : PublicSigningIdentity) : Bool :=
  if optionBefore (fun a b :
      Nat => a < b) one.notBeforeUnixSeconds two.notBeforeUnixSeconds then true
  else if one.notBeforeUnixSeconds ≠ two.notBeforeUnixSeconds then false
  else if optionBefore (fun a b :
      Text => a < b) one.certificateSha256 two.certificateSha256 then true
  else if one.certificateSha256 ≠ two.certificateSha256 then false
  else one.id < two.id

/-- `max_by_key`: the last of the largest. -/
def latestDefault : List PublicSigningIdentity → Option PublicSigningIdentity :=
  List.foldl (fun best candidate =>
    match best with
    | none => some candidate
    | some best => if defaultBefore candidate best then some best else some candidate) none

/-- The default of the published catalog is kept, or follows its key to a renewal. -/
def preserveDefaultSigningIdentity (existing : Option Catalog) (next : Catalog) : Catalog :=
  match existing with
  | none => next
  | some existing =>
    match existing.defaultSigningIdentityId with
    | none => next
    | some defaultId =>
      let active := LocalCertificateState.active.asStr
      if next.signingIdentities.any fun row => row.id == defaultId && row.lifecycle == active then
        { next with defaultSigningIdentityId := some defaultId }
      else
        match existing.signingIdentities.find? fun row => row.id == defaultId with
        | none => { next with defaultSigningIdentityId := none }
        | some previous =>
          let candidates := next.signingIdentities.filter fun candidate =>
            candidate.id != defaultId && candidate.lifecycle == active &&
              (match candidate.certificateKeyIdentity primitives,
                  previous.certificateKeyIdentity primitives with
                | .ok one, .ok two => one == two
                | _, _ => false)
          { next with defaultSigningIdentityId := (latestDefault candidates).map (·.id) }

/-- The references of the published catalog that the new one does not name. -/
def obsoleteSecrets (existing : Option Catalog) (next : Catalog) : List SecretId :=
  match existing with
  | none => []
  | some existing =>
    ((existing.signingIdentities.map (·.signingKeyRef)).filter fun reference =>
      !next.signingIdentities.any fun row => row.signingKeyRef == reference).map
        (SecretId.mk .signingKey) ++
    ((existing.recipientKeys.map (·.privateKeyRef)).filter fun reference =>
      !next.recipientKeys.any fun row => row.privateKeyRef == reference).map
        (SecretId.mk .recipientKey)

/-- The field that a key without a reference is reported for. -/
def missingReference : SecretPurpose → String
  | .signingKey => "facade.signing_refs"
  | _ => "facade.recipient_refs"

/-- The secrets of the keys are written; the ones that are new are remembered. -/
def storeSecrets (purpose : SecretPurpose) (references : SecretRefMap) (existing : List SecretId) :
    List (Text × List UInt8) → List SecretId →
        VaultProgram (Except CatalogError Unit × List SecretId)
  | [], written => .done (.ok (), written)
  | (keyId, material) :: rest, written =>
    match references keyId with
    | none => .done (.error (.invalidCatalog (missingReference purpose)), written)
    | some reference =>
      let secret : SecretId := ⟨purpose, reference⟩
      .ask (.putAt secret material) fun answer =>
        match answer with
        | .error reason => .done (.error (.secret reason), written)
        | .ok _ =>
          storeSecrets purpose references existing rest
            (if secret ∈ existing ∨ secret ∈ written then written else written ++ [secret])

/-- `u64::saturating_add` of one. -/
def nextRevision (existing : Option Catalog) : Nat :=
  match existing with
  | none => 1
  | some existing => min (existing.revision + 1) (2 ^ 64 - 1)

/-- The secrets, then the catalog: the outcome and the new secrets. -/
def writeAndPublish (inventory : Inventory) (existing : Option Catalog) (draft : CatalogDraft) :
    VaultProgram (Except CatalogError Unit × List SecretId) := do
  let known := (existing.map Catalog.secretReferences).getD []
  let signing ← storeSecrets .signingKey draft.signingRefs known
    (inventory.deviceSigningKeys.map fun key => (key.keyId, key.privateKeyDer)) []
  match signing with
  | (.error reason, written) => .done (.error reason, written)
  | (.ok _, written) => do
      let recipient ← storeSecrets .recipientKey draft.recipientRefs known
        (inventory.recipientEncryptionKeys.map fun key => (key.keyId, key.privateKeyDer)) written
      match recipient with
      | (.error reason, written) => .done (.error reason, written)
      | (.ok _, written) =>
        .ask (.saveCatalog (existing.map (·.revision))
          { draft.catalog with revision := nextRevision existing }) fun answer =>
            .done (answer, written)

/-- Failures to delete are passed over. -/
def deleteSecrets : List SecretId → VaultProgram Unit
  | [] => .done ()
  | secret :: rest => .ask (.delete secret) fun _ => deleteSecrets rest

/-- After a failure the new secrets go that are not published. -/
def removeNewSecrets (order : IterationOrder) (written : List SecretId) : VaultProgram Unit :=
  .ask .loadCatalog fun answer =>
    match answer with
    | .error _ => .done ()
    | .ok current =>
      let published := (current.map Catalog.secretReferences).getD []
      deleteSecrets ((order.order written).filter fun secret => secret ∉ published)

/-- Saves the inventory as a catalog. -/
def storeInventoryAsCatalog (order : IterationOrder) (inventory : Inventory) (catalogId : Text) :
    VaultProgram (Except CatalogError Unit) := do
  let built ← buildCatalogFromInventory primitives inventory catalogId
  orFail built fun draft =>
    .ask .loadCatalog fun loaded => orFail loaded fun existing => do
      let reused ← reuseReferences primitives inventory draft existing
      orFail reused fun draft => do
        let next := { draft with
          catalog := preserveDefaultSigningIdentity primitives existing draft.catalog }
        let outcome ← writeAndPublish inventory existing next
        match outcome with
        | (.error reason, written) => do
            removeNewSecrets order written
            return .error reason
        | (.ok _, _) => do
            deleteSecrets (obsoleteSecrets existing draft.catalog)
            return .ok ()

end

end ZManager.Identity
