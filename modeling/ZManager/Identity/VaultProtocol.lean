import ZManager.Foundation.Step
import ZManager.Identity.Vault

/-! # The two stores

The catalog is published by compare-and-swap on its revision; secrets are written
and deleted one at a time. Any operation may fail.
-/

namespace ZManager.Identity

variable (primitives : CatalogPrimitives)

/-- The two stores. Who generated a reference, for which key, and all the catalogs that
were published, the last one first, are recorded for the proofs. -/
structure Vault where
  catalog : Option Catalog
  secrets : SecretId → Option (List UInt8)
  issued : Text → Option (Nat × KeyMark)
  history : List Catalog

namespace Vault

/-- The stores before anything is saved. -/
def empty : Vault := ⟨none, fun _ => none, fun _ => none, []⟩

def publish (vault : Vault) (catalog : Catalog) : Vault :=
  { vault with catalog := some catalog, history := catalog :: vault.history }

def setSecret (vault : Vault) (secret : SecretId) (material : Option (List UInt8)) : Vault :=
  { vault with secrets := Function.update vault.secrets secret material }

/-- What an operation may answer and do. A failed operation has no effect, except that a
publication may be made and reported as failed. -/
def effect (client : Nat) (before : Vault) : (op : VaultOp) → VaultAnswer op → Vault → Prop
  | .generate mark, reference, after => before.issued reference = none ∧
      after = { before with
        issued := Function.update before.issued reference (some (client, mark)) }
  | .loadCatalog, answer, after => after = before ∧
      (answer = Except.ok before.catalog ∨ ∃ reason, answer = Except.error reason)
  | .saveCatalog expectedRevision catalog, answer, after =>
    (before.catalog.map (·.revision) = expectedRevision ∧
      catalog.validate primitives = .ok () ∧ after = before.publish catalog ∧
      (answer = Except.ok () ∨ ∃ reason, answer = Except.error reason)) ∨
    (after = before ∧ ∃ reason, answer = Except.error reason)
  | .resolve secret, answer, after => after = before ∧
      ((∃ material, before.secrets secret = some material ∧ answer = Except.ok material) ∨
        ∃ reason, answer = Except.error reason)
  | .putAt secret material, answer, after =>
    (material ≠ [] ∧ after = before.setSecret secret (some material) ∧ answer = Except.ok ()) ∨
    (after = before ∧ ∃ reason, answer = Except.error reason)
  | .delete secret, answer, after =>
    (after = before.setSecret secret none ∧ answer = Except.ok ()) ∨
    (after = before ∧ ∃ reason, answer = Except.error reason)

/-- A publication is asked for on a revision that can still grow. -/
def Counts : VaultOp → Prop
  | .saveCatalog expectedRevision _ => ∀ revision ∈ expectedRevision, revision < 2 ^ 64 - 1
  | _ => True

end Vault

end ZManager.Identity
