import Mathlib.Data.List.Basic
import ZManager.Identity.Inventory

/-! # Contact snapshots

A snapshot lists the live contacts of a device and the tombstones of the ones
it removed. Two snapshots are merged by the later of acceptance and removal; a
snapshot is built from an inventory and applied to one. B-tree maps keep their
keys in text order.
-/

namespace ZManager.Identity

/-- `BTreeMap<String, V>`. -/
abbrev TextMap (α : Type) := Std.TreeMap Text α

def contactSnapshotFormatPlain : Text := "plain".toList

def contactSnapshotSchemaVersion : Nat := 1

/-- Tombstones are pruned after a year. -/
def tombstoneRetentionSeconds : Nat := 365 * 24 * 3600

/-- A contact as a snapshot carries it. -/
structure ContactSnapshotEntry where
  contactId : Option Text
  card : Json
  localAlias : Option Text
  acceptedAt : Nat

/-- The contacts and the removals of one device. -/
structure ContactSnapshot where
  format : Text
  version : Nat
  contacts : List ContactSnapshotEntry
  removed : List ContactTombstone

/-- Failures of reading or applying a snapshot. -/
inductive ContactSnapshotError where
  | invalidFormat (expected actual : Text)
  | invalidSnapshot (reason : String)
  | store (error : StoreError)

/-- The id that a card's payload gives: its fingerprint, or the digest of its key. -/
def cardContactId (primitives : Primitives) (card : Json) : Except ContactSnapshotError Text :=
  let payload := (card.get "payload".toList).getD card
  let fingerprint := (payload.get "recipient_key_fingerprint".toList).bind Json.asStr
  let publicKey := (payload.get "recipient_public_key".toList).bind Json.asStr
  match fingerprint.filter fun text => !text.trim.isEmpty with
  | some text => .ok text.trim
  | none =>
    match publicKey.bind primitives.base64Decode with
    | some der => .ok (sha256Identifier primitives der)
    | none => .error (.invalidSnapshot "contact entry card missing recipient key fingerprint")

/-- The id of an entry: the explicit one unless it is blank, else the card's. -/
def ContactSnapshotEntry.resolvedContactId (primitives : Primitives) (entry :
    ContactSnapshotEntry) :
    Except ContactSnapshotError Text :=
  match entry.contactId.filter fun text => !text.trim.isEmpty with
  | some text => .ok text.trim
  | none => cardContactId primitives entry.card

/-- A tombstone is kept while it is at most a year old. -/
def isRetained (nowUnixSeconds removedAt : Nat) : Bool :=
  nowUnixSeconds - removedAt ≤ tombstoneRetentionSeconds

/-- Keeps the newest removal of a contact. -/
def recordTombstone (tombstones : TextMap Nat) (tombstone : ContactTombstone) : TextMap Nat :=
  tombstones.alter tombstone.contactId fun
    | some existing => some (max existing tombstone.removedAt)
    | none => some tombstone.removedAt

def tombstoneList (tombstones : TextMap Nat) : List ContactTombstone :=
  tombstones.toList.map fun pair => ⟨pair.1, pair.2⟩

/-- The entries of a map in the order of their ids. -/
def entryList (live : TextMap ContactSnapshotEntry) : List ContactSnapshotEntry :=
  live.toList.map (·.2)

/-! ## Merging -/

/-- The entry that two entries of one contact leave: the later acceptance, and
at equal times the first with the alias of the second, if that has one. -/
def laterEntry (existing entry : ContactSnapshotEntry) : ContactSnapshotEntry :=
  if entry.acceptedAt > existing.acceptedAt then entry
  else if entry.acceptedAt = existing.acceptedAt ∧ entry.localAlias.isSome then
    { existing with localAlias := entry.localAlias }
  else existing

/-- Takes an entry, with its id filled in, into the live contacts. -/
def recordEntry (primitives : Primitives) (live : TextMap ContactSnapshotEntry)
    (entry : ContactSnapshotEntry) : Except ContactSnapshotError (TextMap ContactSnapshotEntry) :=
        do
  let contactId ← entry.resolvedContactId primitives
  let filled := { entry with contactId := some (entry.contactId.getD contactId) }
  return live.alter contactId fun
    | some existing => some (laterEntry existing filled)
    | none => some filled

/-- Lets a live contact win over an older tombstone and lose to any other. -/
def resolveConflict (state : TextMap Nat × TextMap ContactSnapshotEntry)
    (live : Text × ContactSnapshotEntry) : TextMap Nat × TextMap ContactSnapshotEntry :=
  match state.1[live.1]? with
  | some removedAt =>
    if live.2.acceptedAt > removedAt then
      (state.1.erase live.1, state.2.insert live.1 live.2)
    else state
  | none => (state.1, state.2.insert live.1 live.2)

def requirePlain (snapshot : ContactSnapshot) : Except ContactSnapshotError Unit :=
  if snapshot.format ≠ contactSnapshotFormatPlain then
    .error (.invalidFormat contactSnapshotFormatPlain snapshot.format)
  else .ok ()

/-- Joins the snapshots of two devices. -/
def mergeContactSnapshots (primitives : Primitives) (base incoming : ContactSnapshot)
    (nowUnixSeconds : Nat) : Except ContactSnapshotError ContactSnapshot := do
  requirePlain base
  requirePlain incoming
  let tombstones := (base.removed ++ incoming.removed).foldl recordTombstone ∅
  let live ← (base.contacts ++ incoming.contacts).foldlM (recordEntry primitives) ∅
  let resolved := live.toList.foldl resolveConflict (tombstones, ∅)
  return {
    format := contactSnapshotFormatPlain
    version := max base.version incoming.version
    contacts := entryList resolved.2
    removed := (tombstoneList resolved.1).filter fun tombstone =>
      isRetained nowUnixSeconds tombstone.removedAt }

/-! ## Building -/

/-- The card that a contact is exported with. -/
def snapshotCard (contact : ContactRecord) : Json :=
  match contact.card with
  | some card => card
  | none =>
    if (contact.contactCardPayload.get "payload".toList).isSome then contact.contactCardPayload
    else .object [("version".toList, .number "1".toList),
      ("payload".toList, contact.contactCardPayload),
      ("signature_algorithm".toList, .string "ECDSA-P256-SHA256".toList),
      ("signature".toList, .string [])]

def snapshotEntry (contact : ContactRecord) : ContactSnapshotEntry :=
  ⟨some contact.contactId, snapshotCard contact, contact.localAlias, contact.acceptedAtUnixSeconds⟩

/-- Exports a contact that no tombstone covers; a contact that is newer than its
tombstone drops it. -/
def exportContact (state : TextMap Nat × TextMap ContactSnapshotEntry) (contact : ContactRecord) :
    TextMap Nat × TextMap ContactSnapshotEntry :=
  if contact.trustAnchorType = .untrusted then state
  else
    match state.1[contact.contactId]? with
    | some removedAt =>
      if removedAt ≥ contact.acceptedAtUnixSeconds then state
      else (state.1.erase contact.contactId,
        state.2.insert contact.contactId (snapshotEntry contact))
    | none => (state.1, state.2.insert contact.contactId (snapshotEntry contact))

/-- The newest removals that are still retained. -/
def retainedTombstones (tombstones : List ContactTombstone) (nowUnixSeconds : Nat) : TextMap Nat :=
  (tombstones.filter fun tombstone => isRetained nowUnixSeconds tombstone.removedAt).foldl
    recordTombstone ∅

/-- The snapshot of an inventory. -/
def buildContactSnapshot (inventory : Inventory) (tombstones : List ContactTombstone)
    (nowUnixSeconds : Nat) : ContactSnapshot :=
  let state := inventory.contacts.foldl exportContact
    (retainedTombstones tombstones nowUnixSeconds, ∅)
  { format := contactSnapshotFormatPlain
    version := contactSnapshotSchemaVersion
    contacts := entryList state.2
    removed := tombstoneList state.1 }

/-! ## Applying -/

/-- What the verification of a card reports. -/
structure VerifiedContactCard where
  payload : Json
  trustAnchorType : TrustAnchorType
  verificationState : VerificationState
  missingStatusCaveat : Bool
  signingCertificateSha256 : Text
  recipientPublicKeyFingerprint : Text
  displayName : Text

/-- A contact that could not be restored. -/
structure RestoreFailure where
  contactId : Text
  displayName : Option Text
  error : String

/-- What applying a snapshot changed. -/
structure ApplyReport where
  restoredContacts : List ContactRecord
  failedContacts : List RestoreFailure
  removedContactIds : List Text

/-- The contact that a verified card of an entry is restored as. -/
def restoredContact (entry : ContactSnapshotEntry) (verified : VerifiedContactCard) :
    ContactRecord :=
  { contactId := verified.recipientPublicKeyFingerprint
    displayName := verified.displayName
    signingCertificateSha256 := verified.signingCertificateSha256
    recipientPublicKeyFingerprint := verified.recipientPublicKeyFingerprint
    trustAnchorType := verified.trustAnchorType
    source := []
    verificationState := verified.verificationState
    missingStatusCaveat := verified.missingStatusCaveat
    contactCardPayload := verified.payload
    acceptedAtUnixSeconds := entry.acceptedAt
    localAlias := entry.localAlias
    card := some entry.card }

/-- A tombstone at or after the acceptance covers a contact. -/
def isCovered (tombstones : TextMap Nat) (contactId : Text) (acceptedAt : Nat) : Bool :=
  match tombstones[contactId]? with
  | some removedAt => acceptedAt ≤ removedAt
  | none => false

/-- The local contact stays when it is newer, or as old with an alias that the
entry lacks. -/
def localStays (contacts : List ContactRecord) (contactId : Text) (entry : ContactSnapshotEntry) :
    Bool :=
  match contacts.find? fun contact => contact.contactId == contactId with
  | some existing =>
    entry.acceptedAt < existing.acceptedAtUnixSeconds ||
      (existing.acceptedAtUnixSeconds == entry.acceptedAt &&
        existing.localAlias.isSome && entry.localAlias.isNone)
  | none => false

variable (primitives : Primitives) (verify : Json → Except String VerifiedContactCard)

/-- Verifies the card of an entry and restores its contact, or reports why not. -/
def restoreVerified (contactId : Text) (entry : ContactSnapshotEntry)
    (state : List ContactRecord × ApplyReport) : List ContactRecord × ApplyReport :=
  match verify entry.card with
  | .error error =>
    let displayName := ((entry.card.get "payload".toList).bind
      (Json.get "display_name".toList)).bind Json.asStr
    (state.1, { state.2 with
      failedContacts := state.2.failedContacts ++ [⟨contactId, displayName, error⟩] })
  | .ok verified =>
    if verified.recipientPublicKeyFingerprint ≠ contactId then
      (state.1, { state.2 with
        failedContacts := state.2.failedContacts ++ [⟨contactId, some verified.displayName,
          "snapshot contact_id does not match the verified recipient key"⟩] })
    else
      let record := restoredContact entry verified
      ((state.1.filter fun contact => contact.contactId ≠ record.contactId) ++ [record],
        { state.2 with restoredContacts := state.2.restoredContacts ++ [record] })

/-- Restores one entry of a snapshot. -/
def restoreEntry (tombstones : TextMap Nat) (state : List ContactRecord × ApplyReport)
    (entry : ContactSnapshotEntry) : List ContactRecord × ApplyReport :=
  match entry.resolvedContactId primitives with
  | .error _ =>
    (state.1, { state.2 with failedContacts := state.2.failedContacts ++ [⟨"unknown".toList, none,
      "invalid contact snapshot: contact entry card missing recipient key fingerprint"⟩] })
  | .ok contactId =>
    if isCovered tombstones contactId entry.acceptedAt then state
    else if localStays state.1 contactId entry then state
    else restoreVerified verify contactId entry state

/-- Applies a snapshot to the inventory of an account; the result is what the
store keeps, which has to pass the store's check. -/
def applyContactSnapshot (inventory : Inventory) (snapshot : ContactSnapshot)
    (nowUnixSeconds : Nat) : Except ContactSnapshotError (Inventory × ApplyReport) := do
  requirePlain snapshot
  let tombstones := retainedTombstones (inventory.removedContacts ++
      snapshot.removed) nowUnixSeconds
  let covered := fun contact : ContactRecord =>
    isCovered tombstones contact.contactId contact.acceptedAtUnixSeconds
  let report : ApplyReport := ⟨[], [], (inventory.contacts.filter covered).map (·.contactId)⟩
  let state := snapshot.contacts.foldl (restoreEntry primitives verify tombstones)
    (inventory.contacts.filter (!covered ·), report)
  let next := { inventory with
    contacts := state.1
    removedContacts := tombstoneList tombstones }
  match next.validate primitives with
  | .error error => .error (.store error)
  | .ok () => .ok (next, state.2)

end ZManager.Identity
