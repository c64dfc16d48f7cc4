import ZManager.Identity.VaultProtocol

/-! # Operations that succeed

Runs of one client against the two stores are evaluated with operations that do
not fail; each of them is one of the operations that the stores allow.
-/

namespace ZManager.Identity

section

variable (primitives : CatalogPrimitives)

/-- The fingerprint of the key of a certificate, when its chain parses. -/
def EnrolledCertificate.leafFingerprint (certificate : EnrolledCertificate) : Option Text :=
  if (certificate.leafCertificateDer :: certificate.intermediateChainDer).all
      primitives.certificateParses then
    (primitives.certificateKey certificate.leafCertificateDer).map
      (sha256Identifier primitives.toPrimitives)
  else none

end

namespace Vault

variable {primitives : CatalogPrimitives} {client : Nat} {before after : Vault}

/-- The steps in which no revision is used up. -/
def CountingEffect (primitives : CatalogPrimitives) (client : Nat) (before : Vault) (op : VaultOp)
    (answer : VaultAnswer op) (after : Vault) : Prop :=
  effect primitives client before op answer after ∧ Counts op

/-- Keys and certificates are single bytes; a key is its own public key. -/
def bytePrimitives : CatalogPrimitives where
  digest := fun bytes => List.Vector.replicate 32 (bytes.headD 0)
  base64Decode := fun _ => none
  base64Encode := fun _ => []
  certificateParses := fun _ => true
  rawSerial := fun _ => []
  authorityKeyIdentifier := fun _ => none
  subjectKeyIdentifier := fun _ => none
  certificateValidity := fun _ => none
  certificateKey := some
  publicKeyOf := some
  requestKey := fun _ => none
  encodeBinding := fun _ => []
  sign := fun _ _ => none

/-- A hash set that is gone through in the order of its entries. -/
def inOrder : IterationOrder := ⟨id, fun _ => List.Perm.refl _⟩

/-- Operations that succeed, with references in a fixed order. -/
def serve (primitives : CatalogPrimitives) (client : Nat) (vault : Vault) :
    (op : VaultOp) → Option (VaultAnswer op × Vault)
  | .generate mark =>
    let free := ["first".toList, "second".toList].find? fun reference =>
      (vault.issued reference).isNone
    free.map fun reference => (reference, { vault with
      issued := Function.update vault.issued reference (some (client, mark)) })
  | .loadCatalog => some (Except.ok vault.catalog, vault)
  | .saveCatalog expectedRevision catalog =>
    if vault.catalog.map (·.revision) = expectedRevision ∧
        (catalog.validate primitives).isOk ∧ expectedRevision.all (· < 2 ^ 64 - 1) then
      some (Except.ok (), vault.publish catalog)
    else none
  | .resolve secret =>
    (vault.secrets secret).map fun material => (Except.ok material, vault)
  | .putAt secret material =>
    if material = [] then none else some (Except.ok (), vault.setSecret secret (some material))
  | .delete secret => some (Except.ok (), vault.setSecret secret none)

theorem serve_sound {op : VaultOp} {answer : VaultAnswer op}
    (served : serve primitives client before op = some (answer, after)) :
    CountingEffect primitives client before op answer after := by
  cases op with
  | generate mark =>
    obtain ⟨reference, free, same⟩ := Option.map_eq_some_iff.mp served
    cases same
    exact ⟨⟨by simpa using List.find?_some free, rfl⟩, trivial⟩
  | loadCatalog =>
    cases served
    exact ⟨⟨rfl, .inl rfl⟩, trivial⟩
  | saveCatalog expectedRevision catalog =>
    simp only [serve] at served
    split_ifs at served with allowed
    cases served
    obtain ⟨current, valid, counts⟩ := allowed
    refine ⟨.inl ⟨current, ?_, rfl, .inl rfl⟩, ?_⟩
    · cases checked : catalog.validate primitives with
      | error reason => simp [checked, Except.isOk, Except.toBool] at valid
      | ok value => rfl
    · intro revision read
      rw [Option.mem_def] at read
      simpa [read] using counts
  | resolve secret =>
    obtain ⟨material, present, same⟩ := Option.map_eq_some_iff.mp served
    cases same
    exact ⟨⟨rfl, .inl ⟨material, present, rfl⟩⟩, trivial⟩
  | putAt secret material =>
    simp only [serve] at served
    split_ifs at served with empty
    cases served
    exact ⟨.inl ⟨empty, rfl, rfl⟩, trivial⟩
  | delete secret =>
    cases served
    exact ⟨.inl ⟨rfl, rfl⟩, trivial⟩

end Vault

end ZManager.Identity
