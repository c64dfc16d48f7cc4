import ZManager.Identity.ContactMerge

/-! # Applying a snapshot compared with merging it

Building a snapshot from an inventory gives each contact its later event, with
the removals past retention left out. Applying a snapshot first and building
then, and building first and merging then, leave out different removals: an
expired tombstone of the snapshot takes part in a merge and not in an apply.
The two agree exactly when no such tombstone decides about a live contact.
-/

namespace ZManager.Identity

open ContactEvent

/-- The acceptances of a contact in a list of contacts. -/
def acceptedEvents (contacts : List ContactRecord) (contactId : Text) : List ContactEvent :=
  (contacts.filter (·.contactId = contactId)).map fun contact => .live contact.acceptedAtUnixSeconds

/-- The removals of a contact in a list of tombstones. -/
def removalEvents (tombstones : List ContactTombstone) (contactId : Text) : List ContactEvent :=
  (tombstones.filter (·.contactId = contactId)).map fun tombstone => .removed tombstone.removedAt

/-- The tombstones that are not past retention. -/
def retainedOnly (nowUnixSeconds : Nat) (tombstones : List ContactTombstone) :
    List ContactTombstone :=
  tombstones.filter fun tombstone => isRetained nowUnixSeconds tombstone.removedAt

/-- Contacts that a snapshot exports under their own id. -/
structure ContactRecord.Exportable (contact : ContactRecord) : Prop where
  trusted : contact.trustAnchorType ≠ .untrusted
  trimmed : contact.contactId.trim = contact.contactId
  named : contact.contactId ≠ []

/-! ## The built snapshot -/

section Build

variable {primitives : Primitives}

variable {contact : ContactRecord} {contacts : List ContactRecord}
  {tombstones : List ContactTombstone}

theorem resolvedContactId_snapshotEntry (exportable : contact.Exportable) :
    (snapshotEntry contact).resolvedContactId primitives = .ok contact.contactId := by
  have kept : Option.filter (fun text : Text => !text.trim.isEmpty) (some contact.contactId) =
      some contact.contactId := by
    simp [Option.filter, exportable.trimmed, exportable.named]
  simp [ContactSnapshotEntry.resolvedContactId, snapshotEntry, kept, exportable.trimmed]

/-- Exporting a trusted contact resolves it against its tombstone. -/
theorem exportContact_eq (exportable : contact.Exportable)
    (state : TextMap Nat × TextMap ContactSnapshotEntry) :
    exportContact state contact =
        resolveConflict state (contact.contactId, snapshotEntry contact) := by
  unfold exportContact resolveConflict
  rw [if_neg exportable.trusted]
  dsimp only
  cases state.1[contact.contactId]? with
  | none => rfl
  | some removedAt =>
    change (if removedAt ≥ contact.acceptedAtUnixSeconds then _ else _) =
      if contact.acceptedAtUnixSeconds > removedAt then _ else _
    by_cases covered : contact.acceptedAtUnixSeconds ≤ removedAt
    · rw [if_pos covered, if_neg (not_lt.mpr covered)]
    · rw [if_neg covered, if_pos (not_le.mp covered)]

/-- The pairs that a build resolves. -/
def exportPairs (contacts : List ContactRecord) : List (Text × ContactSnapshotEntry) :=
  contacts.map fun contact => (contact.contactId, snapshotEntry contact)

theorem foldl_exportContact (exportable : ∀ contact ∈ contacts, contact.Exportable)
    (state : TextMap Nat × TextMap ContactSnapshotEntry) :
    contacts.foldl exportContact state = (exportPairs contacts).foldl resolveConflict state := by
  induction contacts generalizing state with
  | nil => rfl
  | cons contact rest ih =>
    rw [List.foldl_cons, exportContact_eq (exportable contact (List.mem_cons_self ..)),
      ih fun other member => exportable other (List.mem_cons_of_mem _ member)]
    rfl

/-- With distinct ids a contact is exported at most once. -/
theorem filter_exportPairs (distinct : (contacts.map (·.contactId)).Nodup) (contactId : Text) :
    ∃ held : Option ContactSnapshotEntry,
      (exportPairs contacts).filter (·.1 = contactId) =
        held.toList.map (fun entry => (contactId, entry)) ∧
      acceptance held = (acceptedEvents contacts contactId).maximum := by
  have pairs : (exportPairs contacts).filter (·.1 = contactId) =
      exportPairs (contacts.filter (·.contactId = contactId)) := by
    rw [exportPairs, exportPairs, List.filter_map]
    rfl
  rw [pairs]
  unfold acceptedEvents
  rcases KeyedFold.filter_key_cases distinct contactId with
    ⟨empty, _⟩ | ⟨contact, _, rfl, one⟩
  · rw [empty]
    exact ⟨none, rfl, rfl⟩
  · rw [one]
    exact ⟨some (snapshotEntry contact), rfl, rfl⟩

theorem OwnIds.foldl_resolveConflict {pairs : List (Text × ContactSnapshotEntry)}
    {state : TextMap Nat × TextMap ContactSnapshotEntry} (own : OwnIds primitives state.2)
    (resolved : ∀ pair ∈ pairs, pair.2.resolvedContactId primitives = .ok pair.1) :
    OwnIds primitives (pairs.foldl resolveConflict state).2 := by
  induction pairs generalizing state with
  | nil => exact own
  | cons pair rest ih =>
    have first := resolved pair (List.mem_cons_self ..)
    refine ih ?_ fun other member => resolved other (List.mem_cons_of_mem _ member)
    have inserted : OwnIds primitives (state.2.insert pair.1 pair.2) := by
      intro contactId entry held
      rw [Std.TreeMap.getElem?_insert] at held
      by_cases same : pair.1 = contactId
      · subst same
        obtain rfl : pair.2 = entry := by simpa using held
        exact first
      · exact own contactId entry (by simpa [same] using held)
    unfold resolveConflict
    split
    · split_ifs
      · exact inserted
      · exact own
    · exact inserted

theorem removedView_retainedTombstones (tombstones : List ContactTombstone) (nowUnixSeconds : Nat)
    (contactId : Text) :
    removedView (retainedTombstones tombstones nowUnixSeconds) contactId =
      (removalEvents (retainedOnly nowUnixSeconds tombstones) contactId).maximum :=
  removedView_foldl _ contactId

theorem built_own {contacts : List ContactRecord}
    (exportable : ∀ contact ∈ contacts, contact.Exportable) (tombstones : List ContactTombstone)
    (nowUnixSeconds : Nat) :
    OwnIds primitives (contacts.foldl exportContact
      (retainedTombstones tombstones nowUnixSeconds, ∅)).2 := by
  rw [foldl_exportContact exportable]
  apply OwnIds.foldl_resolveConflict
  · intro contactId entry held
    simp at held
  · intro pair member
    obtain ⟨contact, inside, rfl⟩ := List.mem_map.mp member
    exact resolvedContactId_snapshotEntry (exportable contact inside)

/-- The built snapshot records of each contact its later event, removals past
retention aside. -/
theorem mem_events_built {inventory : Inventory} {nowUnixSeconds : Nat}
    (distinct : (inventory.contacts.map (·.contactId)).Nodup)
    (exportable : ∀ contact ∈ inventory.contacts, contact.Exportable) (contactId : Text)
    (event : ContactEvent) :
    event ∈ (buildContactSnapshot inventory tombstones nowUnixSeconds).events primitives contactId ↔
      max (acceptedEvents inventory.contacts contactId).maximum
        (removalEvents (retainedOnly nowUnixSeconds tombstones) contactId).maximum = event := by
  obtain ⟨held, once, accepted⟩ := filter_exportPairs distinct contactId
  have own := @built_own primitives _ exportable tombstones nowUnixSeconds
  unfold buildContactSnapshot
  rw [foldl_exportContact exportable] at own ⊢
  rw [← accepted, ← removedView_retainedTombstones]
  simp only [ContactSnapshot.events, ContactSnapshot.liveEvents, ContactSnapshot.removedEvents,
    List.mem_append, mem_entryList_events own, mem_tombstoneList_events]
  rcases settled_cases once rfl with ⟨gone, same, later⟩ | ⟨same, gone, later⟩
  · rw [max_eq_left later, removedView_of_none gone, liveView, same]
    exact or_iff_left fun seen => WithBot.coe_ne_bot seen.symm
  · rw [max_eq_right later, liveView_of_none gone, removedView_congr same]
    exact or_iff_right fun seen => WithBot.coe_ne_bot seen.symm

theorem view_built {inventory : Inventory} {nowUnixSeconds : Nat}
    (distinct : (inventory.contacts.map (·.contactId)).Nodup)
    (exportable : ∀ contact ∈ inventory.contacts, contact.Exportable) (contactId : Text) :
    (buildContactSnapshot inventory tombstones nowUnixSeconds).view primitives contactId =
      max (acceptedEvents inventory.contacts contactId).maximum
        (removalEvents (retainedOnly nowUnixSeconds tombstones) contactId).maximum := by
  apply KeyedFold.maximum_eq_of_mem_iff
  intro event
  rw [mem_events_built distinct exportable, eq_comm]

theorem built_wellFormed {inventory : Inventory} {tombstones : List ContactTombstone}
    {nowUnixSeconds : Nat} (exportable : ∀ contact ∈ inventory.contacts, contact.Exportable) :
    (buildContactSnapshot inventory tombstones nowUnixSeconds).WellFormed primitives := by
  refine ⟨rfl, fun entry member => ?_⟩
  have own := @built_own primitives _ exportable tombstones nowUnixSeconds
  obtain ⟨contactId, held⟩ := mem_entryList.mp member
  exact ⟨contactId, own contactId entry held⟩

end Build

/-! ## The applied snapshot -/

section Apply

variable {primitives : Primitives} {verify : Json → Except String VerifiedContactCard}

variable {contacts : List ContactRecord} {entry : ContactSnapshotEntry}

/-- What a card that passes verification reports: a chain to an official or a
configured root, well-formed digests, an object as its payload, a name. -/
structure VerifierSound (verify : Json → Except String VerifiedContactCard) : Prop where
  anchored : ∀ {card verified}, verify card = .ok verified → verified.trustAnchorType ≠ .untrusted
  intact : ∀ {card verified}, verify card = .ok verified → verified.verificationState ≠ .invalid
  payload : ∀ {card verified}, verify card = .ok verified → verified.payload.isObject = true
  name : ∀ {card verified}, verify card = .ok verified → verified.displayName ≠ []
  certificate : ∀ {card verified}, verify card = .ok verified →
    isValidSha256Identifier verified.signingCertificateSha256 = true
  fingerprint : ∀ {card verified}, verify card = .ok verified →
    isValidSha256Identifier verified.recipientPublicKeyFingerprint = true

/-- The entry's card verifies, for the recipient key that the entry is held under. -/
def ContactSnapshotEntry.Verified (primitives : Primitives)
    (verify : Json → Except String VerifiedContactCard) (entry : ContactSnapshotEntry) : Prop :=
  ∃ verified, verify entry.card = .ok verified ∧
    entry.resolvedContactId primitives = .ok verified.recipientPublicKeyFingerprint

/-- The contacts of an inventory that a store accepts and a build exports. -/
structure Kept (contacts : List ContactRecord) : Prop where
  distinct : (contacts.map (·.contactId)).Nodup
  exportable : ∀ contact ∈ contacts, contact.Exportable
  valid : ∀ contact ∈ contacts, contact.validate = .ok ()

theorem Kept.filter (kept : Kept contacts) (keep : ContactRecord → Bool) :
    Kept (contacts.filter keep) where
  distinct := kept.distinct.sublist (List.filter_sublist.map _)
  exportable := fun contact member => kept.exportable contact (List.mem_of_mem_filter member)
  valid := fun contact member => kept.valid contact (List.mem_of_mem_filter member)

theorem resolvedContactId_trim {contactId : Text}
    (resolved : entry.resolvedContactId primitives = .ok contactId) :
    contactId.trim = contactId ∧ contactId ≠ [] := by
  unfold ContactSnapshotEntry.resolvedContactId at resolved
  split at resolved
  · rename_i text explicit
    obtain rfl := Except.ok.inj resolved
    have given := (Option.filter_eq_some_iff.mp explicit).2
    exact ⟨Text.trim_trim text, by simpa using given⟩
  · exact cardContactId_trim resolved

/-- A restored contact is one that a store accepts and a build exports. -/
theorem Kept.restore (kept : Kept contacts) (sound : VerifierSound verify)
    {verified : VerifiedContactCard} (passed : verify entry.card = .ok verified)
    (resolved : entry.resolvedContactId primitives = .ok verified.recipientPublicKeyFingerprint) :
    Kept ((contacts.filter fun contact =>
      contact.contactId ≠ (restoredContact entry verified).contactId) ++
        [restoredContact entry verified]) := by
  obtain ⟨trimmed, named⟩ := resolvedContactId_trim resolved
  have others := kept.filter fun contact =>
    contact.contactId ≠ (restoredContact entry verified).contactId
  have valid : (restoredContact entry verified).validate = .ok () := by
    simp only [ContactRecord.validate, check_then_eq_ok, validateNonEmptyId_eq_ok,
      validateSha256_eq_ok, requireField_eq_ok]
    exact ⟨named, sound.name passed, sound.certificate passed, sound.fingerprint passed,
      by simpa [restoredContact] using sound.intact passed, sound.payload passed⟩
  refine ⟨?_, ?_, ?_⟩
  · rw [List.map_append, List.nodup_append']
    refine ⟨others.distinct, List.nodup_singleton _, ?_⟩
    intro contactId inside same
    obtain ⟨contact, member, rfl⟩ := List.mem_map.mp inside
    have differ := of_decide_eq_true (List.mem_filter.mp member).2
    exact differ (List.mem_singleton.mp same)
  · intro contact member
    rcases List.mem_append.mp member with inside | inside
    · exact others.exportable contact inside
    · obtain rfl := List.mem_singleton.mp inside
      exact ⟨sound.anchored passed, trimmed, named⟩
  · intro contact member
    rcases List.mem_append.mp member with inside | inside
    · exact others.valid contact inside
    · obtain rfl := List.mem_singleton.mp inside
      exact valid

/-- The local contact stays only when it was accepted at least as late. -/
theorem localStays_cases (kept : Kept contacts) (contactId : Text) (entry : ContactSnapshotEntry) :
    (localStays contacts contactId entry = true →
      (ContactEvent.live entry.acceptedAt : WithBot ContactEvent) ≤
        (acceptedEvents contacts contactId).maximum) ∧
    (localStays contacts contactId entry = false →
      (acceptedEvents contacts contactId).maximum ≤ ContactEvent.live entry.acceptedAt) := by
  have first : contacts.find? (fun contact => contact.contactId == contactId) =
      (contacts.filter (·.contactId = contactId)).head? := by
    rw [List.head?_filter]
    simp only [beq_eq_decide]
  unfold localStays acceptedEvents
  rw [first]
  rcases KeyedFold.filter_key_cases kept.distinct contactId with
    ⟨empty, _⟩ | ⟨contact, _, _, one⟩
  · simp [empty]
  · rw [one]
    simp only [List.head?_cons, List.map_cons, List.map_nil, List.maximum_singleton,
      WithBot.coe_le_coe, live_le_live, Bool.or_eq_true, Bool.and_eq_true, decide_eq_true_eq,
      beq_iff_eq, Bool.or_eq_false_iff, decide_eq_false_iff_not]
    omega

/-- The contacts after one is replaced, seen at that contact and at the others. -/
theorem acceptedEvents_replace (contacts : List ContactRecord) (record : ContactRecord)
    (contactId : Text) :
    acceptedEvents ((contacts.filter fun contact => contact.contactId ≠ record.contactId) ++
        [record])
        contactId =
      if record.contactId = contactId then [.live record.acceptedAtUnixSeconds]
      else acceptedEvents contacts contactId := by
  unfold acceptedEvents
  rw [List.filter_append, List.filter_filter]
  by_cases same : record.contactId = contactId
  · have gone : contacts.filter (fun contact => decide (contact.contactId = contactId) &&
        decide (contact.contactId ≠ record.contactId)) = [] := by
      apply List.filter_eq_nil_iff.mpr
      simp [same]
    rw [gone]
    simp [same]
  · have stays : contacts.filter (fun contact => decide (contact.contactId = contactId) &&
        decide (contact.contactId ≠ record.contactId)) =
        contacts.filter (·.contactId = contactId) := by
      apply List.filter_congr
      intro contact _
      by_cases other : contact.contactId = contactId
      · simp [other, Ne.symm same]
      · simp [other]
    rw [stays]
    simp [same]

/-- Restoring an entry takes its acceptance into its contact, unless a tombstone
covers it. -/
theorem restoreEntry_spec {tombstones : TextMap Nat} {state : List ContactRecord × ApplyReport}
    {entry : ContactSnapshotEntry} (kept : Kept state.1) (sound : VerifierSound verify)
    (verified : entry.Verified primitives verify) :
    Kept (restoreEntry primitives verify tombstones state entry).1 ∧
    ∀ contactId, (acceptedEvents (restoreEntry primitives verify tombstones state entry).1
        contactId).maximum =
      if entry.resolvesTo primitives contactId ∧
          isCovered tombstones contactId entry.acceptedAt = false then
        max (acceptedEvents state.1 contactId).maximum (ContactEvent.live entry.acceptedAt)
      else (acceptedEvents state.1 contactId).maximum := by
  obtain ⟨card, passed, resolved⟩ := verified
  have resolvesTo : ∀ contactId, entry.resolvesTo primitives contactId = true ↔
      card.recipientPublicKeyFingerprint = contactId := by
    intro contactId
    rw [resolvesTo_iff, resolved]
    exact ⟨Except.ok.inj, congrArg _⟩
  simp only [resolvesTo]
  unfold restoreEntry
  rw [resolved]
  dsimp only
  by_cases covered : isCovered tombstones card.recipientPublicKeyFingerprint entry.acceptedAt = true
  · rw [if_pos covered]
    refine ⟨kept, fun contactId => ?_⟩
    rw [if_neg]
    rintro ⟨rfl, uncovered⟩
    rw [covered] at uncovered
    cases uncovered
  rw [if_neg covered]
  have uncovered := Bool.eq_false_iff.mpr covered
  obtain ⟨stays, leaves⟩ := localStays_cases kept card.recipientPublicKeyFingerprint entry
  by_cases newer : localStays state.1 card.recipientPublicKeyFingerprint entry = true
  · rw [if_pos newer]
    refine ⟨kept, fun contactId => ?_⟩
    split_ifs with about
    · obtain ⟨rfl, _⟩ := about
      exact (max_eq_left (stays newer)).symm
    · rfl
  · rw [if_neg newer]
    unfold restoreVerified
    rw [passed]
    dsimp only
    rw [if_neg (not_not.mpr rfl)]
    refine ⟨kept.restore sound passed resolved, fun contactId => ?_⟩
    have replaced := acceptedEvents_replace state.1 (restoredContact entry card) contactId
    change _ = if card.recipientPublicKeyFingerprint = contactId then [live entry.acceptedAt]
      else _ at replaced
    rw [replaced]
    by_cases same : card.recipientPublicKeyFingerprint = contactId
    · subst same
      simp only [uncovered, and_self, ↓reduceIte, List.maximum_singleton]
      exact (max_eq_right (leaves (Bool.eq_false_iff.mpr newer))).symm
    · simp only [same, false_and, ↓reduceIte]

/-- The contacts after all entries of a snapshot are restored. -/
theorem foldl_restoreEntry_spec {tombstones : TextMap Nat} {entries : List ContactSnapshotEntry}
    {state : List ContactRecord × ApplyReport} (kept : Kept state.1) (sound : VerifierSound verify)
    (verified : ∀ entry ∈ entries, entry.Verified primitives verify) :
    Kept (entries.foldl (restoreEntry primitives verify tombstones) state).1 ∧
    ∀ contactId, (acceptedEvents
        (entries.foldl (restoreEntry primitives verify tombstones) state).1 contactId).maximum =
      max (acceptedEvents state.1 contactId).maximum
        ((entries.filter fun entry => entry.resolvesTo primitives contactId &&
          !isCovered tombstones contactId entry.acceptedAt).map fun entry =>
            ContactEvent.live entry.acceptedAt).maximum := by
  induction entries generalizing state with
  | nil => exact ⟨kept, fun contactId => by simp⟩
  | cons entry rest ih =>
    obtain ⟨next, seen⟩ := @restoreEntry_spec primitives verify tombstones state
      entry kept sound (verified entry (List.mem_cons_self ..))
    obtain ⟨last, rest⟩ :=
        ih next fun other member => verified other (List.mem_cons_of_mem _ member)
    refine ⟨last, fun contactId => ?_⟩
    rw [List.foldl_cons, rest, seen]
    by_cases about : entry.resolvesTo primitives contactId ∧
        isCovered tombstones contactId entry.acceptedAt = false
    · simp only [about, and_self, ↓reduceIte, List.filter_cons, Bool.not_false, Bool.and_self,
        List.map_cons, List.maximum_cons, max_assoc]
    · have dropped : ¬(entry.resolvesTo primitives contactId &&
          !isCovered tombstones contactId entry.acceptedAt) = true := by
        simpa using about
      rw [if_neg about, List.filter_cons, if_neg dropped]

/-- An acceptance that the tombstones do not cover. -/
def isUncovered (tombstones : TextMap Nat) (contactId : Text) : ContactEvent → Bool
  | .live acceptedAt => !isCovered tombstones contactId acceptedAt
  | .removed _ => true

/-- What the tombstones cover is no later than they are. -/
theorem le_removedView_of_covered {tombstones : TextMap Nat} {contactId : Text}
    {event : ContactEvent} (covered : isUncovered tombstones contactId event = false) :
    (event : WithBot ContactEvent) ≤ removedView tombstones contactId := by
  cases event with
  | removed removedAt => cases covered
  | live acceptedAt =>
    have covered : isCovered tombstones contactId acceptedAt = true := by
      simpa [isUncovered] using covered
    unfold isCovered at covered
    unfold removedView
    cases held : tombstones[contactId]? with
    | none => simp [held] at covered
    | some removedAt =>
      rw [held] at covered
      exact WithBot.coe_le_coe.mpr (live_le_removed.mpr (of_decide_eq_true covered))

theorem acceptedEvents_uncovered (contacts : List ContactRecord) (tombstones : TextMap Nat)
    (contactId : Text) :
    acceptedEvents (contacts.filter fun contact =>
        !isCovered tombstones contact.contactId contact.acceptedAtUnixSeconds) contactId =
      (acceptedEvents contacts contactId).filter (isUncovered tombstones contactId) := by
  unfold acceptedEvents
  rw [List.filter_map, List.filter_filter, List.filter_filter]
  congr 1
  apply List.filter_congr
  intro contact _
  by_cases same : contact.contactId = contactId
  · simp [same, isUncovered]
  · simp [same]

theorem liveEvents_uncovered (snapshot : ContactSnapshot) (tombstones : TextMap Nat)
    (contactId : Text) :
    ((snapshot.contacts.filter fun entry => entry.resolvesTo primitives contactId &&
        !isCovered tombstones contactId entry.acceptedAt).map fun entry =>
          ContactEvent.live entry.acceptedAt) =
      (snapshot.liveEvents primitives contactId).filter (isUncovered tombstones contactId) := by
  unfold ContactSnapshot.liveEvents
  rw [List.filter_map, List.filter_filter]
  congr 1
  apply List.filter_congr
  intro entry _
  exact Bool.and_comm _ _

/-- The removals that an apply keeps are all still retained when it is built again. -/
theorem removalEvents_tombstoneList (tombstones : List ContactTombstone) (nowUnixSeconds : Nat)
    (contactId : Text) :
    (removalEvents (retainedOnly nowUnixSeconds
        (tombstoneList (retainedTombstones tombstones nowUnixSeconds))) contactId).maximum =
      (removalEvents (retainedOnly nowUnixSeconds tombstones) contactId).maximum := by
  rw [← removedView_retainedTombstones tombstones]
  apply KeyedFold.maximum_eq_of_mem_iff
  intro event
  refine mem_retained_events.trans ?_
  rw [removedView_retainedTombstones tombstones, eq_comm]
  refine and_iff_left_of_imp fun seen => ?_
  obtain ⟨tombstone, member, rfl⟩ := List.mem_map.mp (List.maximum_mem seen.symm)
  have retained := (List.mem_filter.mp (List.mem_filter.mp member).1).2
  simp [ContactEvent.isForgotten, retained]

/-- Applying a snapshot of verified entries succeeds, and the inventory it leaves
gives each contact the latest of all acceptances and of the removals that are not
past retention. -/
theorem apply_spec {inventory : Inventory} {snapshot : ContactSnapshot} (nowUnixSeconds : Nat)
    (valid : inventory.validate primitives = .ok ())
    (exportable : ∀ contact ∈ inventory.contacts, contact.Exportable)
    (plain : snapshot.format = contactSnapshotFormatPlain) (sound : VerifierSound verify)
    (verified : ∀ entry ∈ snapshot.contacts, entry.Verified primitives verify) :
    ∃ next report, applyContactSnapshot primitives verify inventory snapshot nowUnixSeconds =
        .ok (next, report) ∧
      ∀ contactId, (buildContactSnapshot next next.removedContacts nowUnixSeconds).view primitives
          contactId =
        max (max (acceptedEvents inventory.contacts contactId).maximum
            (snapshot.liveEvents primitives contactId).maximum)
          (removalEvents (retainedOnly nowUnixSeconds
            (inventory.removedContacts ++ snapshot.removed)) contactId).maximum := by
  obtain ⟨uniqueIds, keys, recipients, certificates, cache, blocklist, contacts, operations⟩ :=
    Inventory.validate_eq_ok_iff.mp valid
  obtain ⟨keyIds, recipientIds, hashes, contactIds, operationIds, operationKeys⟩ :=
    Inventory.validateUniqueIds_eq_ok_iff.mp uniqueIds
  have start : Kept inventory.contacts := ⟨contactIds, exportable, contacts⟩
  unfold applyContactSnapshot
  simp only [requirePlain, plain, ne_eq, not_true_eq_false, ↓reduceIte]
  generalize collected :
    retainedTombstones (inventory.removedContacts ++ snapshot.removed) nowUnixSeconds = tombstones
  generalize fresh : (ApplyReport.mk [] [] ((inventory.contacts.filter fun contact =>
    isCovered tombstones contact.contactId contact.acceptedAtUnixSeconds).map (·.contactId))) =
        report
  obtain ⟨kept, seen⟩ := @foldl_restoreEntry_spec primitives verify tombstones snapshot.contacts
    (inventory.contacts.filter fun contact =>
      !isCovered tombstones contact.contactId contact.acceptedAtUnixSeconds, report)
    (start.filter _) sound verified
  generalize snapshot.contacts.foldl (restoreEntry primitives verify tombstones) _ = state
    at kept seen
  have accepted : Inventory.validate primitives { inventory with
      contacts := state.1, removedContacts := tombstoneList tombstones } = .ok () := by
    apply Inventory.validate_eq_ok_iff.mpr
    refine ⟨Inventory.validateUniqueIds_eq_ok_iff.mpr ?_, keys, recipients, certificates, cache,
      blocklist, kept.valid, operations⟩
    exact ⟨keyIds, recipientIds, hashes, kept.distinct, operationIds, operationKeys⟩
  refine ⟨{ inventory with contacts := state.1, removedContacts := tombstoneList tombstones },
    state.2, ?_, fun contactId => ?_⟩
  · rw [accepted]
    rfl
  · have covers : removedView tombstones contactId = (removalEvents (retainedOnly nowUnixSeconds
        (inventory.removedContacts ++ snapshot.removed)) contactId).maximum := by
      rw [← collected, removedView_retainedTombstones]
    rw [view_built kept.distinct kept.exportable, seen, acceptedEvents_uncovered,
      liveEvents_uncovered, ← collected, removalEvents_tombstoneList, collected, ← covers]
    calc max (max _ _) (removedView tombstones contactId)
        = max ((acceptedEvents inventory.contacts contactId).filter
              (isUncovered tombstones contactId)).maximum
            (max ((snapshot.liveEvents primitives contactId).filter
              (isUncovered tombstones contactId)).maximum
              (removedView tombstones contactId)) := max_assoc _ _ _
      _ = _ := by
        rw [KeyedFold.max_maximum_filter fun event _ => le_removedView_of_covered,
          max_left_comm, KeyedFold.max_maximum_filter fun event _ => le_removedView_of_covered,
          max_left_comm, max_assoc]

end Apply

/-! ## When the two agree -/

section Agreement

variable {primitives : Primitives} {inventory : Inventory} {snapshot : ContactSnapshot}
  {nowUnixSeconds : Nat}

variable {event : ContactEvent} {contactId : Text}

/-- The acceptances of a contact that the inventory or the snapshot holds. -/
def acceptances (primitives : Primitives) (inventory : Inventory) (snapshot : ContactSnapshot)
    (contactId : Text) : List ContactEvent :=
  acceptedEvents inventory.contacts contactId ++ snapshot.liveEvents primitives contactId

/-- A contact that is live somewhere and whose only removals are past retention,
one of them in the snapshot and no older than any acceptance. -/
def ExpiredRemovalDecides (primitives : Primitives) (inventory : Inventory)
    (snapshot : ContactSnapshot) (nowUnixSeconds : Nat) (contactId : Text) : Prop :=
  acceptances primitives inventory snapshot contactId ≠ [] ∧
  (∀ tombstone ∈ inventory.removedContacts ++ snapshot.removed, tombstone.contactId = contactId →
    isRetained nowUnixSeconds tombstone.removedAt = false) ∧
  ∃ tombstone ∈ snapshot.removed, tombstone.contactId = contactId ∧
    ∀ event ∈ acceptances primitives inventory snapshot contactId,
      event ≤ .removed tombstone.removedAt

/-- The events that decide about a contact in a merge. -/
def mergedEvents (primitives : Primitives) (inventory : Inventory) (snapshot : ContactSnapshot)
    (nowUnixSeconds : Nat) (contactId : Text) : List ContactEvent :=
  acceptances primitives inventory snapshot contactId ++
    (removalEvents (retainedOnly nowUnixSeconds inventory.removedContacts) contactId ++
      snapshot.removedEvents contactId)

/-- Retention is a matter of age: what is no later than a forgotten removal and
is a removal is forgotten too. -/
theorem forgotten_of_le {removedAt : Nat} (old : isRetained nowUnixSeconds removedAt = false)
    (lower : event ≤ .removed removedAt) (kept : event.isForgotten nowUnixSeconds = false) :
    ∃ acceptedAt, event = .live acceptedAt := by
  cases event with
  | live acceptedAt => exact ⟨acceptedAt, rfl⟩
  | removed other =>
    have earlier := removed_le_removed.mp lower
    simp only [ContactEvent.isForgotten, isRetained, Bool.not_eq_false', decide_eq_true_eq,
      decide_eq_false_iff_not] at old kept
    omega

theorem mem_removalEvents {tombstones : List ContactTombstone} :
    event ∈ removalEvents tombstones contactId ↔ ∃ tombstone ∈ tombstones,
      tombstone.contactId = contactId ∧ event = .removed tombstone.removedAt := by
  simp only [removalEvents, List.mem_map, List.mem_filter, decide_eq_true_eq]
  constructor
  · rintro ⟨tombstone, ⟨member, same⟩, rfl⟩
    exact ⟨tombstone, member, same, rfl⟩
  · rintro ⟨tombstone, member, same, rfl⟩
    exact ⟨tombstone, ⟨member, same⟩, rfl⟩

theorem exists_live_of_mem_acceptances
    (member : event ∈ acceptances primitives inventory snapshot contactId) :
    ∃ acceptedAt, event = .live acceptedAt := by
  rcases List.mem_append.mp member with mine | incoming
  · obtain ⟨contact, _, rfl⟩ := List.mem_map.mp mine
    exact ⟨_, rfl⟩
  · obtain ⟨entry, _, rfl⟩ := List.mem_map.mp incoming
    exact ⟨_, rfl⟩

/-- The events that decide in an apply are the ones of a merge that are not forgotten. -/
theorem mem_filter_mergedEvents :
    event ∈ (mergedEvents primitives inventory snapshot nowUnixSeconds contactId).filter
        (fun event => !event.isForgotten nowUnixSeconds) ↔
      event ∈ acceptances primitives inventory snapshot contactId ++ removalEvents
        (retainedOnly nowUnixSeconds (inventory.removedContacts ++ snapshot.removed)) contactId :=
            by
  have removed : snapshot.removedEvents contactId = removalEvents snapshot.removed contactId := rfl
  rw [List.mem_filter, mergedEvents, removed, List.mem_append, List.mem_append, List.mem_append,
    mem_removalEvents, mem_removalEvents, mem_removalEvents, Bool.not_eq_true']
  constructor
  · rintro ⟨accepted | ⟨tombstone, member, same, rfl⟩ | ⟨tombstone, member, same, rfl⟩, remembered⟩
    · exact .inl accepted
    · obtain ⟨member, kept⟩ := List.mem_filter.mp member
      exact .inr ⟨tombstone, List.mem_filter.mpr ⟨List.mem_append_left _ member, kept⟩, same, rfl⟩
    · have kept : isRetained nowUnixSeconds tombstone.removedAt = true := by
        simpa [ContactEvent.isForgotten] using remembered
      exact .inr ⟨tombstone, List.mem_filter.mpr ⟨List.mem_append_right _ member, kept⟩, same, rfl⟩
  · rintro (accepted | ⟨tombstone, member, same, rfl⟩)
    · obtain ⟨acceptedAt, rfl⟩ := exists_live_of_mem_acceptances accepted
      exact ⟨.inl accepted, rfl⟩
    · obtain ⟨member, kept⟩ := List.mem_filter.mp member
      refine ⟨.inr ?_, by simp [ContactEvent.isForgotten, kept]⟩
      rcases List.mem_append.mp member with inside | inside
      · exact .inl ⟨tombstone, List.mem_filter.mpr ⟨inside, kept⟩, same, rfl⟩
      · exact .inr ⟨tombstone, inside, same, rfl⟩

/-- An expired removal decides exactly when the latest event of a merge is
forgotten while another one is not. -/
theorem expiredRemovalDecides_iff :
    ExpiredRemovalDecides primitives inventory snapshot nowUnixSeconds contactId ↔
      (∃ latest : ContactEvent,
        (mergedEvents primitives inventory snapshot nowUnixSeconds contactId).maximum = latest ∧
        latest.isForgotten nowUnixSeconds = true) ∧
      (mergedEvents primitives inventory snapshot nowUnixSeconds contactId).filter
        (fun event => !event.isForgotten nowUnixSeconds) ≠ [] := by
  constructor
  · rintro ⟨live, old, tombstone, member, same, above⟩
    obtain ⟨event, accepted⟩ := List.exists_mem_of_ne_nil _ live
    obtain ⟨acceptedAt, rfl⟩ := exists_live_of_mem_acceptances accepted
    have inside : ContactEvent.live acceptedAt ∈
        mergedEvents primitives inventory snapshot nowUnixSeconds contactId :=
      List.mem_append_left _ accepted
    have buried : ContactEvent.removed tombstone.removedAt ∈
        mergedEvents primitives inventory snapshot nowUnixSeconds contactId := by
      refine List.mem_append_right _ (List.mem_append_right _ ?_)
      exact mem_removalEvents.mpr ⟨tombstone, member, same, rfl⟩
    refine ⟨?_, List.ne_nil_of_mem (List.mem_filter.mpr ⟨inside, rfl⟩)⟩
    obtain ⟨latest, isLatest⟩ := WithBot.ne_bot_iff_exists.mp
      (List.maximum_ne_bot_of_ne_nil (List.ne_nil_of_mem inside))
    refine ⟨latest, isLatest.symm, ?_⟩
    by_contra remembered
    have kept := mem_filter_mergedEvents.mp (List.mem_filter.mpr
      ⟨List.maximum_mem isLatest.symm, by simpa using remembered⟩)
    rcases List.mem_append.mp kept with accepted' | retained
    · -- an acceptance is older than the tombstone, which is in the list too
      obtain ⟨time, rfl⟩ := exists_live_of_mem_acceptances accepted'
      have lower := live_le_removed.mp (above _ accepted')
      have upper := removed_le_live.mp (WithBot.coe_le_coe.mp
        (isLatest.symm ▸ List.le_maximum_of_mem' buried))
      omega
    · obtain ⟨other, inOther, sameOther, rfl⟩ := mem_removalEvents.mp retained
      obtain ⟨inOther, isKept⟩ := List.mem_filter.mp inOther
      rw [old other inOther sameOther] at isKept
      cases isKept
  · rintro ⟨⟨latest, isLatest, forgotten⟩, other⟩
    obtain ⟨event, remembered⟩ := List.exists_mem_of_ne_nil _ other
    have known := List.maximum_mem isLatest
    have bound : ∀ event ∈ mergedEvents primitives inventory snapshot nowUnixSeconds contactId,
        event ≤ latest := (List.maximum_eq_coe_iff.mp isLatest).2
    cases latest with
    | live acceptedAt => cases forgotten
    | removed removedAt =>
      have old : isRetained nowUnixSeconds removedAt = false := by
        simpa [ContactEvent.isForgotten] using forgotten
      have above : ∀ event, event ∈ (mergedEvents primitives inventory snapshot nowUnixSeconds
          contactId).filter (fun event => !event.isForgotten nowUnixSeconds) →
          ∃ acceptedAt, event = .live acceptedAt := by
        intro event remembered
        obtain ⟨inside, kept⟩ := List.mem_filter.mp remembered
        exact forgotten_of_le old (bound event inside) (by simpa using kept)
      refine ⟨?_, ?_, ?_⟩
      · obtain ⟨acceptedAt, rfl⟩ := above event remembered
        rcases List.mem_append.mp (mem_filter_mergedEvents.mp remembered) with inside | inside
        · exact List.ne_nil_of_mem inside
        · obtain ⟨_, _, _, same⟩ := mem_removalEvents.mp inside
          cases same
      · intro tombstone member same
        by_contra kept
        have retained : ContactEvent.removed tombstone.removedAt ∈ removalEvents (retainedOnly
            nowUnixSeconds (inventory.removedContacts ++ snapshot.removed)) contactId :=
          mem_removalEvents.mpr ⟨tombstone,
            List.mem_filter.mpr ⟨member, Bool.not_eq_false _ ▸ kept⟩, same, rfl⟩
        obtain ⟨_, impossible⟩ := above _
          (mem_filter_mergedEvents.mpr (List.mem_append_right _ retained))
        cases impossible
      · rcases List.mem_append.mp known with accepted | removal
        · obtain ⟨_, impossible⟩ := exists_live_of_mem_acceptances accepted
          cases impossible
        rcases List.mem_append.mp removal with inside | inside
        · obtain ⟨tombstone, member, _, same⟩ := mem_removalEvents.mp inside
          cases same
          rw [(List.mem_filter.mp member).2] at old
          cases old
        · obtain ⟨tombstone, member, same, equal⟩ := mem_removalEvents.mp inside
          cases equal
          exact ⟨tombstone, member, same, fun event accepted =>
            bound event (List.mem_append_left _ accepted)⟩

/-- The latest remembered event is the one that a merge reports, unless a removal
past retention decides. -/
theorem maximum_remembered_eq_iff {merged : ContactSnapshot}
    (recorded : ∀ event, event ∈ merged.events primitives contactId ↔
      (mergedEvents primitives inventory snapshot nowUnixSeconds contactId).maximum = event ∧
        event.isForgotten nowUnixSeconds = false) :
    ((mergedEvents primitives inventory snapshot nowUnixSeconds contactId).filter
        fun event => !event.isForgotten nowUnixSeconds).maximum = merged.view primitives contactId ↔
      ¬ExpiredRemovalDecides primitives inventory snapshot nowUnixSeconds contactId := by
  rw [expiredRemovalDecides_iff]
  generalize mergedEvents primitives inventory snapshot nowUnixSeconds contactId = all at recorded ⊢
  cases isLatest : all.maximum with
  | bot =>
    rw [isLatest] at recorded
    have empty : merged.view primitives contactId = ⊥ :=
      KeyedFold.maximum_eq_of_mem_iff fun event => (recorded event).trans (by simp)
    rw [List.maximum_eq_bot] at isLatest
    simp [isLatest, empty]
  | coe latest =>
    rw [isLatest] at recorded
    cases forgotten : latest.isForgotten nowUnixSeconds with
    | false =>
      have reported : merged.view primitives contactId = latest := by
        apply KeyedFold.maximum_eq_of_mem_iff
        intro event
        rw [recorded, eq_comm]
        exact and_iff_left_of_imp fun same => WithBot.coe_injective same ▸ forgotten
      have remembered : (all.filter fun event => !event.isForgotten nowUnixSeconds).maximum =
          latest := by
        obtain ⟨member, bound⟩ := List.maximum_eq_coe_iff.mp isLatest
        exact List.maximum_eq_coe_iff.mpr ⟨List.mem_filter.mpr ⟨member, by simp [forgotten]⟩,
          fun event inside => bound event (List.mem_of_mem_filter inside)⟩
      simp [reported, remembered, forgotten]
    | true =>
      have reported : merged.view primitives contactId = ⊥ := by
        apply List.maximum_eq_bot.mpr
        apply List.eq_nil_iff_forall_not_mem.mpr
        intro event member
        obtain ⟨same, remembered⟩ := (recorded event).mp member
        rw [← WithBot.coe_injective same, forgotten] at remembered
        cases remembered
      rw [reported, List.maximum_eq_bot, not_and, not_not]
      exact ⟨fun empty _ => empty, fun none => none ⟨latest, rfl, forgotten⟩⟩

end Agreement

/-- Applying a snapshot and building again gives every contact the event that
merging it into the built snapshot gives. -/
def ApplyAgrees (primitives : Primitives) (verify : Json → Except String VerifiedContactCard)
    (inventory : Inventory) (snapshot : ContactSnapshot) (nowUnixSeconds : Nat) : Prop :=
  ∃ next report merged,
    applyContactSnapshot primitives verify inventory snapshot nowUnixSeconds = .ok (next, report) ∧
    mergeContactSnapshots primitives
      (buildContactSnapshot inventory inventory.removedContacts nowUnixSeconds) snapshot
      nowUnixSeconds = .ok merged ∧
    (buildContactSnapshot next next.removedContacts nowUnixSeconds).view primitives =
      merged.view primitives

/-- Inventories and snapshots that applying and merging are compared on. -/
structure Comparable (primitives : Primitives) (verify : Json → Except String VerifiedContactCard)
    (inventory : Inventory) (snapshot : ContactSnapshot) : Prop where
  sound : VerifierSound verify
  valid : inventory.validate primitives = .ok ()
  trusted : ∀ contact ∈ inventory.contacts, contact.trustAnchorType ≠ .untrusted
  trimmed : ∀ contact ∈ inventory.contacts, contact.contactId.trim = contact.contactId
  plain : snapshot.format = contactSnapshotFormatPlain
  verified : ∀ entry ∈ snapshot.contacts, entry.Verified primitives verify

theorem Comparable.exportable {primitives : Primitives}
    {verify : Json → Except String VerifiedContactCard} {inventory : Inventory}
    {snapshot : ContactSnapshot} (comparable : Comparable primitives verify inventory snapshot) :
    ∀ contact ∈ inventory.contacts, contact.Exportable := by
  intro contact member
  have valid := (Inventory.validate_eq_ok_iff.mp comparable.valid).2.2.2.2.2.2.1 contact member
  simp only [ContactRecord.validate, check_then_eq_ok, validateNonEmptyId_eq_ok] at valid
  exact ⟨comparable.trusted contact member, comparable.trimmed contact member, valid.1⟩

/-- Applying and merging succeed, and the two views are those of the remembered and
of the reported events. -/
theorem apply_merge_views {primitives : Primitives}
    {verify : Json → Except String VerifiedContactCard} {inventory : Inventory}
    {snapshot : ContactSnapshot} (comparable : Comparable primitives verify inventory snapshot)
    (nowUnixSeconds : Nat) :
    ∃ next report merged,
      applyContactSnapshot primitives verify inventory snapshot nowUnixSeconds =
          .ok (next, report) ∧
      mergeContactSnapshots primitives
        (buildContactSnapshot inventory inventory.removedContacts nowUnixSeconds) snapshot
        nowUnixSeconds = .ok merged ∧
      ∀ contactId,
        ((buildContactSnapshot next next.removedContacts nowUnixSeconds).view primitives contactId =
            merged.view primitives contactId ↔
          ¬ExpiredRemovalDecides primitives inventory snapshot nowUnixSeconds contactId) := by
  have exportable := comparable.exportable
  have distinct := (Inventory.validateUniqueIds_eq_ok_iff.mp
    (Inventory.validate_eq_ok_iff.mp comparable.valid).1).2.2.2.1
  obtain ⟨next, report, applied, seen⟩ := apply_spec nowUnixSeconds comparable.valid exportable
    comparable.plain comparable.sound comparable.verified
  have resolves : snapshot.WellFormed primitives := by
    refine ⟨comparable.plain, fun entry member => ?_⟩
    obtain ⟨card, _, resolved⟩ := comparable.verified entry member
    exact ⟨_, resolved⟩
  have built := @built_wellFormed primitives inventory inventory.removedContacts nowUnixSeconds
    exportable
  obtain ⟨merged, result, _⟩ := merge_mergeable nowUnixSeconds built resolves
  refine ⟨next, report, merged, applied, result, fun contactId => ?_⟩
  have latest : max ((buildContactSnapshot inventory inventory.removedContacts
        nowUnixSeconds).view primitives contactId) (snapshot.view primitives contactId) =
      (mergedEvents primitives inventory snapshot nowUnixSeconds contactId).maximum := by
    rw [view_built distinct exportable]
    simp only [ContactSnapshot.view, ContactSnapshot.events, mergedEvents, acceptances,
      List.maximum_append]
    exact sup_sup_sup_comm _ _ _ _
  have remembered : (acceptances primitives inventory snapshot contactId ++ removalEvents
        (retainedOnly nowUnixSeconds (inventory.removedContacts ++ snapshot.removed))
          contactId).maximum =
      ((mergedEvents primitives inventory snapshot nowUnixSeconds contactId).filter
        fun event => !event.isForgotten nowUnixSeconds).maximum :=
    le_antisymm (List.maximum_mono fun event => mem_filter_mergedEvents.mpr)
      (List.maximum_mono fun event => mem_filter_mergedEvents.mp)
  rw [List.maximum_append, acceptances, List.maximum_append] at remembered
  rw [seen, remembered]
  apply maximum_remembered_eq_iff
  intro event
  rw [← latest]
  exact mem_events_merged built resolves result contactId event

theorem ApplyAgrees.not_decided {primitives : Primitives}
    {verify : Json → Except String VerifiedContactCard} {inventory : Inventory}
    {snapshot : ContactSnapshot} {nowUnixSeconds : Nat}
    (agrees : ApplyAgrees primitives verify inventory snapshot nowUnixSeconds)
    (comparable : Comparable primitives verify inventory snapshot) (contactId : Text) :
    ¬ExpiredRemovalDecides primitives inventory snapshot nowUnixSeconds contactId := by
  obtain ⟨next, report, merged, applied, result, views⟩ :=
    apply_merge_views comparable nowUnixSeconds
  obtain ⟨next', report', merged', applied', result', same⟩ := agrees
  obtain ⟨rfl, rfl⟩ : next = next' ∧ report = report' :=
    Prod.mk.inj (Except.ok.inj (applied.symm.trans applied'))
  obtain rfl : merged = merged' := Except.ok.inj (result.symm.trans result')
  exact (views contactId).mp (congrFun same contactId)

/-- **Applying agrees with merging** exactly when no contact that is live in the
inventory or the snapshot is decided by a tombstone of the snapshot that is past
retention. -/
theorem apply_agrees_iff (primitives : Primitives)
    (verify : Json → Except String VerifiedContactCard) (inventory : Inventory)
    (snapshot : ContactSnapshot) (nowUnixSeconds : Nat)
    (comparable : Comparable primitives verify inventory snapshot) :
    ApplyAgrees primitives verify inventory snapshot nowUnixSeconds ↔
      ∀ contactId,
        ¬ExpiredRemovalDecides primitives inventory snapshot nowUnixSeconds contactId := by
  constructor
  · intro agrees contactId
    exact agrees.not_decided comparable contactId
  · intro decided
    obtain ⟨next, report, merged, applied, result, views⟩ :=
      apply_merge_views comparable nowUnixSeconds
    exact ⟨next, report, merged, applied, result, funext fun contactId =>
      (views contactId).mpr (decided contactId)⟩

/-! ## A contact removed on another device -/

/-- A verification that checks the fields of a card and takes its signature and
chain as good. -/
def verifyFields (card : Json) : Except String VerifiedContactCard :=
  match card.get "payload".toList with
  | none => .error "payload"
  | some payload =>
    let field := fun name : String => ((payload.get name.toList).bind Json.asStr).getD []
    let fingerprint := field "recipient_key_fingerprint"
    let certificate := field "signing_certificate_sha256"
    let displayName := field "display_name"
    if payload.isObject && isValidSha256Identifier fingerprint &&
        isValidSha256Identifier certificate && !displayName.isEmpty then
      .ok ⟨payload, .officialTzap, .cryptographicallyIntactOffline, true, certificate, fingerprint,
        displayName⟩
    else .error "payload"

theorem verifyFields_sound : VerifierSound verifyFields := by
  have facts : ∀ {card verified}, verifyFields card = .ok verified →
      verified.trustAnchorType = .officialTzap ∧
      verified.verificationState = .cryptographicallyIntactOffline ∧
      verified.payload.isObject = true ∧ verified.displayName ≠ [] ∧
      isValidSha256Identifier verified.signingCertificateSha256 = true ∧
      isValidSha256Identifier verified.recipientPublicKeyFingerprint = true := by
    intro card verified passed
    unfold verifyFields at passed
    split at passed
    · cases passed
    · dsimp only at passed
      split_ifs at passed with checks
      obtain rfl := Except.ok.inj passed
      simp only [Bool.and_eq_true, Bool.not_eq_true', List.isEmpty_eq_false_iff] at checks
      exact ⟨rfl, rfl, checks.1.1.1, checks.2, checks.1.2, checks.1.1.2⟩
  exact ⟨fun passed => by simp [(facts passed).1], fun passed => by simp [(facts passed).2.1],
    fun passed => (facts passed).2.2.1, fun passed => (facts passed).2.2.2.1,
    fun passed => (facts passed).2.2.2.2.1, fun passed => (facts passed).2.2.2.2.2⟩

def aliceId : Text := "sha256:".toList ++ List.replicate 64 'a'

def bobId : Text := "sha256:".toList ++ List.replicate 64 'b'

/-- Alice, accepted at time 10. -/
def aliceContact : ContactRecord :=
  ⟨aliceId, "Alice".toList, aliceId, aliceId, .officialTzap, [], .cryptographicallyIntactOffline,
    true, .object [], 10, none, none⟩

def aliceInventory : Inventory := { Inventory.empty with contacts := [aliceContact] }

/-- Another device accepted Bob at time 30 and removed Alice at time 20. -/
def remoteSnapshot : ContactSnapshot :=
  ⟨"plain".toList, 1,
    [⟨none, .object [("payload".toList, .object
      [("recipient_key_fingerprint".toList, .string bobId),
        ("signing_certificate_sha256".toList, .string bobId),
        ("display_name".toList, .string "Bob".toList)])], none, 30⟩],
    [⟨aliceId, 20⟩]⟩

theorem alice_comparable :
    Comparable plainPrimitives verifyFields aliceInventory remoteSnapshot where
  sound := verifyFields_sound
  valid := by decide +kernel
  trusted := by
    intro contact member
    obtain rfl := List.mem_singleton.mp member
    decide
  trimmed := by
    intro contact member
    obtain rfl := List.mem_singleton.mp member
    decide +kernel
  plain := rfl
  verified := by
    intro entry member
    obtain rfl := List.mem_singleton.mp member
    refine ⟨_, rfl, ?_⟩
    rfl

/-- Within the retention of the removal both ways remove Alice. -/
theorem apply_agrees_within_year :
    Comparable plainPrimitives verifyFields aliceInventory remoteSnapshot ∧
      ApplyAgrees plainPrimitives verifyFields aliceInventory remoteSnapshot 100 := by
  refine ⟨alice_comparable, (apply_agrees_iff _ _ _ _ _ alice_comparable).mpr ?_⟩
  rintro contactId ⟨_, old, tombstone, member, same, _⟩
  have expired := old tombstone (List.mem_append_right _ member) same
  obtain rfl := List.mem_singleton.mp member
  revert expired
  decide

/-- A year and a second after the removal the merge still removes Alice, and
applying keeps her. -/
theorem expired_removal_disagrees :
    Comparable plainPrimitives verifyFields aliceInventory remoteSnapshot ∧
      ¬ApplyAgrees plainPrimitives verifyFields aliceInventory remoteSnapshot 31536021 := by
  refine ⟨alice_comparable, fun agrees => agrees.not_decided alice_comparable aliceId ?_⟩
  refine ⟨List.cons_ne_nil _ _, ?_, ⟨aliceId, 20⟩, List.mem_singleton.mpr rfl, rfl, ?_⟩
  · intro tombstone member _
    obtain rfl := List.mem_singleton.mp member
    decide
  · have only : acceptances plainPrimitives aliceInventory remoteSnapshot aliceId = [.live 10] := by
      decide +kernel
    rw [only]
    intro event member
    obtain rfl := List.mem_singleton.mp member
    exact ContactEvent.live_le_removed.mpr (by decide)

end ZManager.Identity
