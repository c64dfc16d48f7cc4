import Mathlib.Data.Prod.Lex
import ZManager.Foundation.KeyedFold
import ZManager.Identity.ContactSnapshot

/-! # What merged contact snapshots say

The view of a snapshot gives for each contact id the latest event that it
records: an acceptance or a removal, a removal being later than an acceptance
of the same time. Merging computes the later view of each contact and then
forgets removals that are past retention.
-/

namespace ZManager.Identity

/-- What is known of a contact: accepted at a time, or removed at a time. -/
inductive ContactEvent where
  | live (acceptedAt : Nat)
  | removed (removedAt : Nat)
  deriving DecidableEq

namespace ContactEvent

/-- Events are ordered by their time; a removal wins a tie. -/
def rank : ContactEvent → Nat ×ₗ Bool
  | live acceptedAt => toLex (acceptedAt, false)
  | removed removedAt => toLex (removedAt, true)

theorem rank_injective : Function.Injective rank := by
  intro first second same
  cases first <;> cases second <;> simp_all [rank]

instance : LinearOrder ContactEvent := LinearOrder.lift' rank rank_injective

theorem le_iff_rank {first second : ContactEvent} : first ≤ second ↔ rank first ≤ rank second :=
  Iff.rfl

@[simp] theorem live_le_live {first second : Nat} : live first ≤ live second ↔ first ≤ second := by
  simp [le_iff_rank, rank, Prod.Lex.toLex_le_toLex]
  omega

@[simp] theorem removed_le_removed {first second : Nat} :
    removed first ≤ removed second ↔ first ≤ second := by
  simp [le_iff_rank, rank, Prod.Lex.toLex_le_toLex]
  omega

@[simp] theorem live_le_removed {acceptedAt removedAt : Nat} :
    live acceptedAt ≤ removed removedAt ↔ acceptedAt ≤ removedAt := by
  simp [le_iff_rank, rank, Prod.Lex.toLex_le_toLex]
  omega

@[simp] theorem removed_le_live {removedAt acceptedAt : Nat} :
    removed removedAt ≤ live acceptedAt ↔ removedAt < acceptedAt := by
  simp [le_iff_rank, rank, Prod.Lex.toLex_le_toLex]

theorem live_max (first second : Nat) : live (max first second) =
    max (live first) (live second) := by
  rcases le_total first second with lower | lower
  · rw [max_eq_right lower, max_eq_right (live_le_live.mpr lower)]
  · rw [max_eq_left lower, max_eq_left (live_le_live.mpr lower)]

theorem removed_max (first second : Nat) :
    removed (max first second) = max (removed first) (removed second) := by
  rcases le_total first second with lower | lower
  · rw [max_eq_right lower, max_eq_right (removed_le_removed.mpr lower)]
  · rw [max_eq_left lower, max_eq_left (removed_le_removed.mpr lower)]

end ContactEvent

def ContactSnapshotEntry.resolvesTo (primitives : Primitives) (contactId : Text)
    (entry : ContactSnapshotEntry) : Bool :=
  match entry.resolvedContactId primitives with
  | .ok found => found = contactId
  | .error _ => false

namespace ContactSnapshot

variable (primitives : Primitives)

def liveEvents (snapshot : ContactSnapshot) (contactId : Text) : List ContactEvent :=
  (snapshot.contacts.filter (·.resolvesTo primitives contactId)).map fun entry =>
    .live entry.acceptedAt

def removedEvents (snapshot : ContactSnapshot) (contactId : Text) : List ContactEvent :=
  (snapshot.removed.filter (·.contactId = contactId)).map fun tombstone =>
    .removed tombstone.removedAt

/-- Everything that a snapshot records of a contact. -/
def events (snapshot : ContactSnapshot) (contactId : Text) : List ContactEvent :=
  snapshot.liveEvents primitives contactId ++ snapshot.removedEvents contactId

/-- The latest event of each contact; none for a contact the snapshot does not know. -/
def view (snapshot : ContactSnapshot) (contactId : Text) : WithBot ContactEvent :=
  (snapshot.events primitives contactId).maximum

end ContactSnapshot

/-! ## The maps of a merge -/

/-- The removal that a map holds for a contact. -/
def removedView (tombstones : TextMap Nat) (contactId : Text) : WithBot ContactEvent :=
  match tombstones[contactId]? with
  | some removedAt => (ContactEvent.removed removedAt : WithBot ContactEvent)
  | none => ⊥

/-- The acceptance that an entry stands for. -/
def acceptance : Option ContactSnapshotEntry → WithBot ContactEvent
  | some entry => (ContactEvent.live entry.acceptedAt : WithBot ContactEvent)
  | none => ⊥

/-- The acceptance that a map holds for a contact. -/
def liveView (live : TextMap ContactSnapshotEntry) (contactId : Text) : WithBot ContactEvent :=
  acceptance live[contactId]?

theorem removedView_recordTombstone (tombstones : TextMap Nat) (tombstone : ContactTombstone)
    (contactId : Text) :
    removedView (recordTombstone tombstones tombstone) contactId =
      if tombstone.contactId = contactId then
        max (removedView tombstones contactId) (ContactEvent.removed tombstone.removedAt)
      else removedView tombstones contactId := by
  unfold removedView recordTombstone
  rw [Std.TreeMap.getElem?_alter]
  by_cases same : tombstone.contactId = contactId
  · subst same
    cases held : tombstones[tombstone.contactId]? with
    | none => simp
    | some existing => simp [ContactEvent.removed_max]
  · simp [same]

/-- The tombstones of a merge: the latest removal of each contact. -/
theorem removedView_foldl (tombstones : List ContactTombstone) (contactId : Text) :
    removedView (tombstones.foldl recordTombstone ∅) contactId =
      ((tombstones.filter (·.contactId = contactId)).map fun tombstone =>
        ContactEvent.removed tombstone.removedAt).maximum := by
  rw [KeyedFold.foldl_keyed_latest removedView_recordTombstone]
  simp [removedView]

theorem acceptedAt_laterEntry (existing entry : ContactSnapshotEntry) :
    (laterEntry existing entry).acceptedAt = max existing.acceptedAt entry.acceptedAt := by
  unfold laterEntry
  split_ifs with later same
  · omega
  · change existing.acceptedAt = _
    omega
  · omega

section Live

variable (primitives : Primitives)

variable {entry : ContactSnapshotEntry} {contactId : Text} {entries : List ContactSnapshotEntry}

/-- The id of an entry; only read of entries that resolve. -/
def contactIdOf (entry : ContactSnapshotEntry) : Text :=
  (entry.resolvedContactId primitives).toOption.getD []

/-- `recordEntry` for an entry that resolves. -/
def recordResolved (live : TextMap ContactSnapshotEntry) (entry : ContactSnapshotEntry) :
    TextMap ContactSnapshotEntry :=
  let filled := { entry with
    contactId := some (entry.contactId.getD (contactIdOf primitives entry)) }
  live.alter (contactIdOf primitives entry) fun
    | some existing => some (laterEntry existing filled)
    | none => some filled

/-- Every entry of the list has an id. -/
def Resolve (entries : List ContactSnapshotEntry) : Prop :=
  ∀ entry ∈ entries, ∃ contactId, entry.resolvedContactId primitives = .ok contactId

variable {primitives}

theorem contactIdOf_eq (resolved : entry.resolvedContactId primitives = .ok contactId) :
    contactIdOf primitives entry = contactId := by
  simp [contactIdOf, resolved, Except.toOption]

theorem resolvesTo_iff :
    entry.resolvesTo primitives contactId = true ↔
      entry.resolvedContactId primitives = .ok contactId := by
  unfold ContactSnapshotEntry.resolvesTo
  cases entry.resolvedContactId primitives <;> simp

theorem foldlM_recordEntry (resolve : Resolve primitives entries)
    (live : TextMap ContactSnapshotEntry) :
    entries.foldlM (recordEntry primitives) live =
      .ok (entries.foldl (recordResolved primitives) live) := by
  induction entries generalizing live with
  | nil => rfl
  | cons entry rest ih =>
    obtain ⟨contactId, resolved⟩ := resolve entry (List.mem_cons_self ..)
    have step : recordEntry primitives live entry =
        .ok (recordResolved primitives live entry) := by
      unfold recordEntry recordResolved
      rw [resolved, contactIdOf_eq resolved]
      rfl
    rw [List.foldlM_cons, step, List.foldl_cons]
    exact ih (fun other member => resolve other (List.mem_cons_of_mem _ member)) _

theorem liveView_recordResolved (live : TextMap ContactSnapshotEntry)
    (entry : ContactSnapshotEntry) (contactId : Text) :
    liveView (recordResolved primitives live entry) contactId =
      if contactIdOf primitives entry = contactId then
        max (liveView live contactId) (ContactEvent.live entry.acceptedAt)
      else liveView live contactId := by
  unfold liveView recordResolved
  rw [Std.TreeMap.getElem?_alter]
  by_cases same : contactIdOf primitives entry = contactId
  · subst same
    cases held : live[contactIdOf primitives entry]? with
    | none => simp [acceptance]
    | some existing => simp [acceptance, acceptedAt_laterEntry, ContactEvent.live_max]
  · simp [same]

/-- The id that a card gives is not blank and has no space around it. -/
theorem cardContactId_trim {card : Json} (found : cardContactId primitives card = .ok contactId) :
    contactId.trim = contactId ∧ contactId ≠ [] := by
  unfold cardContactId at found
  dsimp only at found
  split at found
  · rename_i text fingerprint
    obtain rfl := Except.ok.inj found
    have given := (Option.filter_eq_some_iff.mp fingerprint).2
    exact ⟨Text.trim_trim text, by simpa using given⟩
  · split at found
    · obtain rfl := Except.ok.inj found
      exact ⟨trim_sha256Identifier _ _, sha256Identifier_ne_nil _ _⟩
    · cases found

/-- Filling in the id of an entry does not change it. -/
theorem resolvedContactId_filled (resolved : entry.resolvedContactId primitives = .ok contactId) :
    { entry with contactId := some (entry.contactId.getD contactId) }.resolvedContactId primitives =
      .ok contactId := by
  cases explicit : entry.contactId with
  | some text =>
    rw [← resolved]
    simp [ContactSnapshotEntry.resolvedContactId, explicit]
  | none =>
    have card : cardContactId primitives entry.card = .ok contactId := by
      simpa [ContactSnapshotEntry.resolvedContactId, explicit] using resolved
    obtain ⟨trimmed, given⟩ := cardContactId_trim card
    have kept : Option.filter (fun text : Text => !text.trim.isEmpty) (some contactId) =
        some contactId := by
      simp [Option.filter, trimmed, given]
    simp [ContactSnapshotEntry.resolvedContactId, kept, trimmed]

theorem resolvedContactId_laterEntry {existing : ContactSnapshotEntry}
    (first : existing.resolvedContactId primitives = .ok contactId)
    (second : entry.resolvedContactId primitives = .ok contactId) :
    (laterEntry existing entry).resolvedContactId primitives = .ok contactId := by
  unfold laterEntry
  split_ifs
  · exact second
  · exact first
  · exact first

/-- Each entry of the map resolves to the id it is held under. -/
def OwnIds (primitives : Primitives) (live : TextMap ContactSnapshotEntry) : Prop :=
  ∀ (contactId : Text) (entry : ContactSnapshotEntry), live[contactId]? = some entry →
    entry.resolvedContactId primitives = .ok contactId

theorem OwnIds.recordResolved {live : TextMap ContactSnapshotEntry} (own : OwnIds primitives live)
    (resolved : entry.resolvedContactId primitives = .ok contactId) :
    OwnIds primitives (recordResolved primitives live entry) := by
  intro wanted found held
  unfold Identity.recordResolved at held
  rw [contactIdOf_eq resolved, Std.TreeMap.getElem?_alter] at held
  by_cases same : contactId = wanted
  · subst same
    have filled := resolvedContactId_filled resolved
    cases known : live[contactId]? with
    | none =>
      obtain rfl : _ = found := by simpa [known] using held
      exact filled
    | some existing =>
      obtain rfl : _ = found := by simpa [known] using held
      exact resolvedContactId_laterEntry (own contactId existing known) filled
  · exact own wanted found (by simpa [same] using held)

theorem OwnIds.foldl {live : TextMap ContactSnapshotEntry} (own : OwnIds primitives live)
    (resolve : Resolve primitives entries) :
    OwnIds primitives (entries.foldl (Identity.recordResolved primitives) live) := by
  induction entries generalizing live with
  | nil => exact own
  | cons entry rest ih =>
    obtain ⟨contactId, resolved⟩ := resolve entry (List.mem_cons_self ..)
    exact ih (own.recordResolved resolved)
      fun other member => resolve other (List.mem_cons_of_mem _ member)

/-- The live contacts of a merge: the latest acceptance of each contact. -/
theorem liveView_foldl (resolve : Resolve primitives entries) (contactId : Text) :
    liveView (entries.foldl (recordResolved primitives) ∅) contactId =
      ((entries.filter (·.resolvesTo primitives contactId)).map fun entry =>
        ContactEvent.live entry.acceptedAt).maximum := by
  have same : entries.filter (fun entry => contactIdOf primitives entry = contactId) =
      entries.filter (·.resolvesTo primitives contactId) := by
    apply List.filter_congr
    intro entry member
    obtain ⟨found, resolved⟩ := resolve entry member
    rw [Bool.eq_iff_iff, resolvesTo_iff, contactIdOf_eq resolved, resolved]
    simp
  rw [KeyedFold.foldl_keyed_latest liveView_recordResolved, same]
  simp [liveView, acceptance]

end Live

/-! ## Conflicts -/

/-- What `resolveConflict` does at the contact it is about. -/
def settle (state : Option Nat × Option ContactSnapshotEntry)
    (live : Text × ContactSnapshotEntry) : Option Nat × Option ContactSnapshotEntry :=
  match state.1 with
  | some removedAt => if live.2.acceptedAt > removedAt then (none, some live.2) else state
  | none => (none, some live.2)

/-- The two maps of a merge at one contact. -/
def observe (state : TextMap Nat × TextMap ContactSnapshotEntry) (contactId : Text) :
    Option Nat × Option ContactSnapshotEntry :=
  (state.1[contactId]?, state.2[contactId]?)

theorem observe_resolveConflict (state : TextMap Nat × TextMap ContactSnapshotEntry)
    (live : Text × ContactSnapshotEntry) (contactId : Text) :
    observe (resolveConflict state live) contactId =
      if live.1 = contactId then settle (observe state contactId) live
      else observe state contactId := by
  by_cases same : live.1 = contactId
  · subst same
    rw [if_pos rfl]
    unfold resolveConflict settle observe
    cases held : state.1[live.1]? with
    | none => simp [held]
    | some removedAt =>
      dsimp only
      split_ifs <;> simp [held]
  · unfold resolveConflict observe
    split
    · split_ifs <;> simp [same, Std.TreeMap.getElem?_erase, Std.TreeMap.getElem?_insert]
    · simp [same, Std.TreeMap.getElem?_insert]

/-- A loop over live contacts that has at most one entry of a contact leaves it in
at most one of the two maps, with its later event. -/
theorem settled_cases {pairs : List (Text × ContactSnapshotEntry)} {tombstones : TextMap Nat}
    {contactId : Text} {held : Option ContactSnapshotEntry}
    (once : pairs.filter (·.1 = contactId) = held.toList.map fun entry => (contactId, entry))
    {state : TextMap Nat × TextMap ContactSnapshotEntry}
    (result : pairs.foldl resolveConflict (tombstones, ∅) = state) :
    (state.1[contactId]? = none ∧ state.2[contactId]? = held ∧
      removedView tombstones contactId ≤ acceptance held) ∨
    (state.1[contactId]? = tombstones[contactId]? ∧ state.2[contactId]? = none ∧
      acceptance held ≤ removedView tombstones contactId) := by
  have seen := KeyedFold.foldl_keyed observe_resolveConflict pairs (tombstones, ∅) contactId
  rw [result, once] at seen
  unfold removedView
  cases held with
  | none =>
    obtain ⟨first, second⟩ := Prod.mk.inj seen
    exact .inr ⟨first, by simpa using second, bot_le⟩
  | some entry =>
    simp only [Option.toList_some, List.map_cons, List.map_nil, List.foldl_cons, List.foldl_nil,
      settle, observe] at seen
    cases removed : tombstones[contactId]? with
    | none =>
      rw [removed] at seen
      obtain ⟨first, second⟩ := Prod.mk.inj seen
      exact .inl ⟨first, second, bot_le⟩
    | some removedAt =>
      rw [removed] at seen
      dsimp only at seen
      split_ifs at seen with later
      · obtain ⟨first, second⟩ := Prod.mk.inj seen
        refine .inl ⟨first, second, WithBot.coe_le_coe.mpr ?_⟩
        exact ContactEvent.removed_le_live.mpr later
      · obtain ⟨first, second⟩ := Prod.mk.inj seen
        refine .inr ⟨first, by simpa using second, WithBot.coe_le_coe.mpr ?_⟩
        exact ContactEvent.live_le_removed.mpr (not_lt.mp later)

/-- The two maps of a merge at one contact. -/
theorem resolved_cases (tombstones : TextMap Nat) (live : TextMap ContactSnapshotEntry)
    (contactId : Text) (state : TextMap Nat × TextMap ContactSnapshotEntry)
    (result : live.toList.foldl resolveConflict (tombstones, ∅) = state) :
    (state.1[contactId]? = none ∧ state.2[contactId]? = live[contactId]? ∧
      removedView tombstones contactId ≤ liveView live contactId) ∨
    (state.1[contactId]? = tombstones[contactId]? ∧ state.2[contactId]? = none ∧
      liveView live contactId ≤ removedView tombstones contactId) :=
  settled_cases (KeyedFold.filter_toList live contactId) result

/-! ## The merged snapshot -/

section Merge

variable {primitives : Primitives}

variable {contactId : Text} {event : ContactEvent} {tombstones : TextMap Nat} {nowUnixSeconds : Nat}
  {base incoming merged snapshot : ContactSnapshot}

/-- A removal past retention is forgotten. -/
def ContactEvent.isForgotten (nowUnixSeconds : Nat) : ContactEvent → Bool
  | live _ => false
  | removed removedAt => !isRetained nowUnixSeconds removedAt

/-- Snapshots that merging accepts. -/
structure ContactSnapshot.WellFormed (primitives : Primitives) (snapshot : ContactSnapshot) :
    Prop where
  plain : snapshot.format = contactSnapshotFormatPlain
  resolve : Resolve primitives snapshot.contacts

theorem liveView_eq_coe {live : TextMap ContactSnapshotEntry} :
    liveView live contactId = event ↔
      ∃ entry, live[contactId]? = some entry ∧ event = .live entry.acceptedAt := by
  unfold liveView
  cases live[contactId]? with
  | none => simp [acceptance]
  | some entry =>
    simp only [acceptance, WithBot.coe_inj, Option.some.injEq, exists_eq_left']
    exact eq_comm

theorem removedView_eq_coe :
    removedView tombstones contactId = event ↔
      ∃ removedAt, tombstones[contactId]? = some removedAt ∧ event = .removed removedAt := by
  unfold removedView
  cases tombstones[contactId]? with
  | none => simp
  | some removedAt =>
    simp only [WithBot.coe_inj, Option.some.injEq, exists_eq_left']
    exact eq_comm

theorem mem_entryList {live : TextMap ContactSnapshotEntry} {entry : ContactSnapshotEntry} :
    entry ∈ entryList live ↔ ∃ contactId : Text, live[contactId]? = some entry :=
  KeyedFold.mem_map_snd_toList

theorem mem_entryList_events {live : TextMap ContactSnapshotEntry} (own : OwnIds primitives live) :
    (event ∈ ((entryList live).filter (·.resolvesTo primitives contactId)).map fun entry =>
        ContactEvent.live entry.acceptedAt) ↔ liveView live contactId = event := by
  rw [liveView_eq_coe]
  simp only [List.mem_map, List.mem_filter, mem_entryList, resolvesTo_iff]
  constructor
  · rintro ⟨entry, ⟨⟨key, held⟩, resolved⟩, rfl⟩
    obtain rfl : key = contactId := by
      have found := own key entry held
      rw [resolved] at found
      exact (Except.ok.inj found).symm
    exact ⟨entry, held, rfl⟩
  · rintro ⟨entry, held, rfl⟩
    exact ⟨entry, ⟨⟨contactId, held⟩, own contactId entry held⟩, rfl⟩

theorem mem_tombstoneList {tombstone : ContactTombstone} :
    tombstone ∈ tombstoneList tombstones ↔
      tombstones[tombstone.contactId]? = some tombstone.removedAt := by
  obtain ⟨contactId, removedAt⟩ := tombstone
  simp only [tombstoneList, List.mem_map, Prod.exists,
    Std.TreeMap.mem_toList_iff_getElem?_eq_some, ContactTombstone.mk.injEq]
  constructor
  · rintro ⟨key, value, held, rfl, rfl⟩
    exact held
  · intro held
    exact ⟨contactId, removedAt, held, rfl, rfl⟩

theorem mem_tombstoneList_events :
    (event ∈ ((tombstoneList tombstones).filter (·.contactId = contactId)).map fun tombstone =>
        ContactEvent.removed tombstone.removedAt) ↔ removedView tombstones contactId = event := by
  rw [removedView_eq_coe]
  simp only [List.mem_map, List.mem_filter, mem_tombstoneList, decide_eq_true_eq]
  constructor
  · rintro ⟨tombstone, ⟨held, rfl⟩, rfl⟩
    exact ⟨tombstone.removedAt, held, rfl⟩
  · rintro ⟨removedAt, held, rfl⟩
    exact ⟨⟨contactId, removedAt⟩, ⟨held, rfl⟩, rfl⟩

theorem mem_retained_events :
    (event ∈ (((tombstoneList tombstones).filter fun tombstone =>
        isRetained nowUnixSeconds tombstone.removedAt).filter (·.contactId = contactId)).map
          fun tombstone => ContactEvent.removed tombstone.removedAt) ↔
      removedView tombstones contactId = event ∧ event.isForgotten nowUnixSeconds = false := by
  rw [← mem_tombstoneList_events]
  simp only [List.mem_map, List.mem_filter]
  constructor
  · rintro ⟨tombstone, ⟨⟨member, retained⟩, same⟩, rfl⟩
    exact ⟨⟨tombstone, ⟨member, same⟩, rfl⟩, by simp [ContactEvent.isForgotten, retained]⟩
  · rintro ⟨⟨tombstone, ⟨member, same⟩, rfl⟩, retained⟩
    exact ⟨tombstone, ⟨⟨member, by simpa [ContactEvent.isForgotten] using retained⟩, same⟩, rfl⟩

theorem liveView_of_none {live : TextMap ContactSnapshotEntry} (none : live[contactId]? = none) :
    liveView live contactId = ⊥ := by
  rw [liveView, none]
  rfl

theorem removedView_of_none (none : tombstones[contactId]? = none) :
    removedView tombstones contactId = ⊥ := by
  rw [removedView, none]

theorem liveView_congr {live live' : TextMap ContactSnapshotEntry}
    (same : live[contactId]? = live'[contactId]?) :
    liveView live contactId = liveView live' contactId := by
  rw [liveView, liveView, same]

theorem removedView_congr {tombstones' : TextMap Nat}
    (same : tombstones[contactId]? = tombstones'[contactId]?) :
    removedView tombstones contactId = removedView tombstones' contactId := by
  rw [removedView, removedView, same]

/-- The two maps of a merge after its conflicts are resolved. -/
def resolvedMaps (primitives : Primitives) (base incoming : ContactSnapshot) :
    TextMap Nat × TextMap ContactSnapshotEntry :=
  ((base.contacts ++ incoming.contacts).foldl (recordResolved primitives) ∅).toList.foldl
    resolveConflict ((base.removed ++ incoming.removed).foldl recordTombstone ∅, ∅)

theorem Resolve.append {left right : List ContactSnapshotEntry} (first : Resolve primitives left)
    (second : Resolve primitives right) : Resolve primitives (left ++ right) := by
  intro entry member
  rcases List.mem_append.mp member with inside | inside
  · exact first entry inside
  · exact second entry inside

section

variable (first : base.WellFormed primitives) (second : incoming.WellFormed primitives)
include first second

theorem mergeContactSnapshots_eq (nowUnixSeconds : Nat) :
    mergeContactSnapshots primitives base incoming nowUnixSeconds = .ok {
      format := contactSnapshotFormatPlain
      version := max base.version incoming.version
      contacts := entryList (resolvedMaps primitives base incoming).2
      removed := (tombstoneList (resolvedMaps primitives base incoming).1).filter fun tombstone =>
        isRetained nowUnixSeconds tombstone.removedAt } := by
  unfold mergeContactSnapshots
  rw [foldlM_recordEntry (first.resolve.append second.resolve)]
  simp only [requirePlain, first.plain, second.plain, ne_eq, not_true_eq_false, ↓reduceIte]
  rfl

theorem resolvedMaps_own :
    OwnIds primitives (resolvedMaps primitives base incoming).2 := by
  have none : OwnIds primitives (∅ : TextMap ContactSnapshotEntry) := by
    intro contactId entry held
    simp at held
  have own := none.foldl (first.resolve.append second.resolve)
  intro contactId entry held
  rcases resolved_cases _ _ contactId _ (Eq.refl (resolvedMaps primitives base incoming)) with
    ⟨_, same, _⟩ | ⟨_, absent, _⟩
  · exact own contactId entry (same ▸ held)
  · rw [absent] at held
    cases held

/-- The later of the two inputs' views is the live or the removed event of the
collected maps. -/
theorem view_max_eq (contactId : Text) :
    max (base.view primitives contactId) (incoming.view primitives contactId) =
      max (liveView ((base.contacts ++ incoming.contacts).foldl (recordResolved primitives) ∅)
          contactId)
        (removedView ((base.removed ++ incoming.removed).foldl recordTombstone ∅) contactId) := by
  rw [liveView_foldl (first.resolve.append second.resolve), removedView_foldl]
  simp only [ContactSnapshot.view, ContactSnapshot.events, ContactSnapshot.liveEvents,
    ContactSnapshot.removedEvents, List.filter_append, List.map_append, List.maximum_append]
  exact sup_sup_sup_comm _ _ _ _

/-- The merged snapshot records of each contact the latest event of its inputs,
unless that is a removal past retention. -/
theorem mem_events_merged
    (result : mergeContactSnapshots primitives base incoming nowUnixSeconds = .ok merged)
    (contactId : Text) (event : ContactEvent) :
    event ∈ merged.events primitives contactId ↔
      max (base.view primitives contactId) (incoming.view primitives contactId) = event ∧
        event.isForgotten nowUnixSeconds = false := by
  rw [mergeContactSnapshots_eq first second] at result
  obtain rfl := Except.ok.inj result
  simp only [ContactSnapshot.events, ContactSnapshot.liveEvents, ContactSnapshot.removedEvents,
    List.mem_append, mem_entryList_events (resolvedMaps_own first second), mem_retained_events]
  rw [view_max_eq first second]
  -- one of the two maps holds the later event, the other nothing
  rcases resolved_cases _ _ contactId _ (Eq.refl (resolvedMaps primitives base incoming)) with
    ⟨none, same, later⟩ | ⟨same, none, later⟩
  · rw [max_eq_left later, removedView_of_none none, liveView_congr same]
    constructor
    · rintro (seen | ⟨seen, _⟩)
      · obtain ⟨entry, _, rfl⟩ := liveView_eq_coe.mp seen
        exact ⟨seen, rfl⟩
      · exact absurd seen.symm WithBot.coe_ne_bot
    · exact fun seen => .inl seen.1
  · rw [max_eq_right later, liveView_of_none none, removedView_congr same]
    constructor
    · rintro (seen | seen)
      · exact absurd seen.symm WithBot.coe_ne_bot
      · exact seen
    · exact .inr

end

/-- The contact ids of a snapshot, one for each entry and each tombstone. -/
def ContactSnapshot.ids (primitives : Primitives) (snapshot : ContactSnapshot) : List Text :=
  snapshot.contacts.filterMap (fun entry => (entry.resolvedContactId primitives).toOption) ++
    snapshot.removed.map (·.contactId)

/-- A snapshot knows a contact exactly when it has an event of it. -/
theorem mem_ids_iff :
    contactId ∈ snapshot.ids primitives ↔ snapshot.view primitives contactId ≠ ⊥ := by
  unfold ContactSnapshot.view
  rw [ne_eq, List.maximum_eq_bot, List.eq_nil_iff_forall_not_mem, not_forall_not]
  simp only [ContactSnapshot.ids, ContactSnapshot.events, ContactSnapshot.liveEvents,
    ContactSnapshot.removedEvents, List.mem_append, List.mem_filterMap, List.mem_map,
    List.mem_filter, resolvesTo_iff, decide_eq_true_eq, Except.toOption_eq_some]
  constructor
  · rintro (⟨entry, member, resolved⟩ | ⟨tombstone, member, same⟩)
    · exact ⟨_, .inl ⟨entry, ⟨member, resolved⟩, rfl⟩⟩
    · exact ⟨_, .inr ⟨tombstone, ⟨member, same⟩, rfl⟩⟩
  · rintro ⟨event, ⟨entry, ⟨member, resolved⟩, _⟩ | ⟨tombstone, ⟨member, same⟩, _⟩⟩
    · exact .inl ⟨entry, member, resolved⟩
    · exact .inr ⟨tombstone, member, same⟩

theorem nodup_keys {α : Type} (map : TextMap α) : (map.toList.map (·.1)).Nodup := by
  refine List.pairwise_map.mpr (Std.TreeMap.distinct_keys_toList.imp ?_)
  intro first second differ same
  exact differ (by rw [same]; exact Std.compare_self)

theorem filterMap_entryList {live : TextMap ContactSnapshotEntry} (own : OwnIds primitives live) :
    (entryList live).filterMap (fun entry => (entry.resolvedContactId primitives).toOption) =
      live.toList.map (·.1) := by
  have resolved : ∀ pair ∈ live.toList,
      (pair.2.resolvedContactId primitives).toOption = some pair.1 := by
    intro pair member
    rw [own pair.1 pair.2 (Std.TreeMap.mem_toList_iff_getElem?_eq_some.mp member)]
    rfl
  unfold entryList
  rw [List.filterMap_map, ← List.filterMap_eq_map]
  exact List.filterMap_congr resolved

/-- The merged snapshot lists each contact once, as live or as removed. -/
theorem ids_merged_nodup (first : base.WellFormed primitives)
    (second : incoming.WellFormed primitives)
    (result : mergeContactSnapshots primitives base incoming nowUnixSeconds = .ok merged) :
    (merged.ids primitives).Nodup := by
  rw [mergeContactSnapshots_eq first second] at result
  obtain rfl := Except.ok.inj result
  unfold ContactSnapshot.ids
  dsimp only
  rw [filterMap_entryList (resolvedMaps_own first second)]
  refine List.nodup_append'.mpr ⟨nodup_keys _, ?_, ?_⟩
  · have kept : (((tombstoneList (resolvedMaps primitives base incoming).1).filter fun tombstone =>
        isRetained nowUnixSeconds tombstone.removedAt).map (·.contactId)).Sublist
        ((tombstoneList (resolvedMaps primitives base incoming).1).map (·.contactId)) :=
      List.filter_sublist.map _
    refine List.Nodup.sublist kept ?_
    rw [tombstoneList, List.map_map]
    exact nodup_keys _
  · intro contactId live removed
    obtain ⟨⟨_, entry⟩, member, rfl⟩ := List.mem_map.mp live
    obtain ⟨tombstone, inside, same⟩ := List.mem_map.mp removed
    have held := Std.TreeMap.mem_toList_iff_getElem?_eq_some.mp member
    have buried := mem_tombstoneList.mp (List.mem_filter.mp inside).1
    rw [same] at buried
    rcases resolved_cases _ _ _ _ (Eq.refl (resolvedMaps primitives base incoming)) with
      ⟨none, _⟩ | ⟨_, none, _⟩
    · rw [none] at buried
      cases buried
    · rw [none] at held
      cases held

/-- Snapshots that merging accepts and that have no removal past retention. -/
structure ContactSnapshot.Mergeable (primitives : Primitives) (nowUnixSeconds : Nat)
    (snapshot : ContactSnapshot) : Prop extends snapshot.WellFormed primitives where
  retained : ∀ tombstone ∈ snapshot.removed, isRetained nowUnixSeconds tombstone.removedAt = true

/-- A merge that is possible leaves a snapshot that can be merged again. -/
theorem merge_mergeable (nowUnixSeconds : Nat) (first : base.WellFormed primitives)
    (second : incoming.WellFormed primitives) :
    ∃ merged, mergeContactSnapshots primitives base incoming nowUnixSeconds = .ok merged ∧
      merged.Mergeable primitives nowUnixSeconds := by
  refine ⟨_, mergeContactSnapshots_eq first second nowUnixSeconds, ⟨rfl, ?_⟩, ?_⟩
  · intro entry member
    obtain ⟨contactId, held⟩ := mem_entryList.mp member
    exact ⟨contactId, resolvedMaps_own first second contactId entry held⟩
  · intro tombstone member
    exact (List.mem_filter.mp member).2

/-- A view holds no forgotten removal when the snapshot has none. -/
theorem ContactSnapshot.Mergeable.not_forgotten
    (mergeable : snapshot.Mergeable primitives nowUnixSeconds)
    (seen : snapshot.view primitives contactId = event) :
    event.isForgotten nowUnixSeconds = false := by
  have member := List.maximum_mem seen
  rcases List.mem_append.mp member with inside | inside
  · obtain ⟨entry, _, rfl⟩ := List.mem_map.mp inside
    rfl
  · obtain ⟨tombstone, removed, rfl⟩ := List.mem_map.mp inside
    simp [ContactEvent.isForgotten, mergeable.retained tombstone (List.mem_filter.mp removed).1]

theorem view_merged (first : base.Mergeable primitives nowUnixSeconds)
    (second : incoming.Mergeable primitives nowUnixSeconds)
    (result : mergeContactSnapshots primitives base incoming nowUnixSeconds = .ok merged)
    (contactId : Text) :
    merged.view primitives contactId =
      max (base.view primitives contactId) (incoming.view primitives contactId) := by
  apply KeyedFold.maximum_eq_of_mem_iff
  intro event
  rw [mem_events_merged first.toWellFormed second.toWellFormed result, eq_comm]
  refine and_iff_left_of_imp fun seen => ?_
  rcases max_choice (base.view primitives contactId) (incoming.view primitives contactId) with
    same | same
  · exact first.not_forgotten (same ▸ seen.symm)
  · exact second.not_forgotten (same ▸ seen.symm)

end Merge

/-- What devices that merge their snapshots in any order rely on: every merge
succeeds; the views commute, associate and are idempotent; each contact gets
the latest event of the inputs; and the result lists every contact of the
inputs once. -/
def MergeConverges (primitives : Primitives) (nowUnixSeconds : Nat)
    (first second third : ContactSnapshot) : Prop :=
  ∃ forth back rest left right twice : ContactSnapshot,
    mergeContactSnapshots primitives first second nowUnixSeconds = .ok forth ∧
    mergeContactSnapshots primitives second first nowUnixSeconds = .ok back ∧
    mergeContactSnapshots primitives second third nowUnixSeconds = .ok rest ∧
    mergeContactSnapshots primitives forth third nowUnixSeconds = .ok left ∧
    mergeContactSnapshots primitives first rest nowUnixSeconds = .ok right ∧
    mergeContactSnapshots primitives first first nowUnixSeconds = .ok twice ∧
    forth.Mergeable primitives nowUnixSeconds ∧
    forth.view primitives = back.view primitives ∧
    left.view primitives = right.view primitives ∧
    twice.view primitives = first.view primitives ∧
    (∀ contactId, forth.view primitives contactId =
      (first.events primitives contactId ++ second.events primitives contactId).maximum) ∧
    (∀ contactId ∈ first.ids primitives ++ second.ids primitives,
      contactId ∈ forth.ids primitives) ∧
    (forth.ids primitives).Nodup

/-- **Contact merge converges.** Merging plain snapshots whose entries resolve,
at a time when none of their tombstones is past retention, succeeds and joins
their views. -/
theorem contact_merge_converges (primitives : Primitives) (nowUnixSeconds : Nat)
    (first second third : ContactSnapshot)
    (mergeable : first.Mergeable primitives nowUnixSeconds)
    (mergeable' : second.Mergeable primitives nowUnixSeconds)
    (mergeable'' : third.Mergeable primitives nowUnixSeconds) :
    MergeConverges primitives nowUnixSeconds first second third := by
  obtain ⟨forth, isForth, again⟩ := merge_mergeable nowUnixSeconds
    mergeable.toWellFormed mergeable'.toWellFormed
  obtain ⟨back, isBack, _⟩ := merge_mergeable nowUnixSeconds
    mergeable'.toWellFormed mergeable.toWellFormed
  obtain ⟨rest, isRest, restAgain⟩ := merge_mergeable nowUnixSeconds
    mergeable'.toWellFormed mergeable''.toWellFormed
  obtain ⟨left, isLeft, _⟩ := merge_mergeable nowUnixSeconds
    again.toWellFormed mergeable''.toWellFormed
  obtain ⟨right, isRight, _⟩ := merge_mergeable nowUnixSeconds
    mergeable.toWellFormed restAgain.toWellFormed
  obtain ⟨twice, isTwice, _⟩ := merge_mergeable nowUnixSeconds
    mergeable.toWellFormed mergeable.toWellFormed
  have joined := view_merged mergeable mergeable' isForth
  refine ⟨forth, back, rest, left, right, twice, isForth, isBack, isRest, isLeft, isRight, isTwice,
    again, ?_, ?_, ?_, ?_, ?_, ids_merged_nodup mergeable.toWellFormed mergeable'.toWellFormed isForth⟩
  · funext contactId
    rw [joined, view_merged mergeable' mergeable isBack, max_comm]
  · funext contactId
    rw [view_merged again mergeable'' isLeft, view_merged mergeable restAgain isRight, joined,
      view_merged mergeable' mergeable'' isRest, max_assoc]
  · funext contactId
    rw [view_merged mergeable mergeable isTwice, max_self]
  · intro contactId
    rw [joined, List.maximum_append]
    rfl
  · intro contactId known
    rw [mem_ids_iff, joined, ne_eq, max_eq_bot, not_and_or]
    exact (List.mem_append.mp known).imp mem_ids_iff.mp mem_ids_iff.mp

/-- Primitives for concrete snapshots, whose entries name their contacts. -/
def plainPrimitives : Primitives where
  digest := fun _ => List.Vector.replicate 32 0
  base64Decode := fun _ => none
  base64Encode := fun _ => []

def phoneSnapshot : ContactSnapshot :=
  ⟨"plain".toList, 1, [⟨some "alice".toList, .null, none, 10⟩, ⟨some "carol".toList, .null, none, 7⟩],
    [⟨"bob".toList, 20⟩]⟩

def laptopSnapshot : ContactSnapshot :=
  ⟨"plain".toList, 1, [⟨some " bob ".toList, .null, some "Bob".toList, 15⟩],
    [⟨"alice".toList, 10⟩]⟩

/-- A phone and a laptop that disagree about two contacts. -/
theorem contact_merge_phone_laptop :
    phoneSnapshot.Mergeable plainPrimitives 100 ∧ laptopSnapshot.Mergeable plainPrimitives 100 ∧
      MergeConverges plainPrimitives 100 phoneSnapshot laptopSnapshot phoneSnapshot := by
  have phone : phoneSnapshot.Mergeable plainPrimitives 100 := by
    refine ⟨⟨rfl, ?_⟩, by decide⟩
    intro entry member
    rcases List.mem_pair.mp member with rfl | rfl
    · exact ⟨"alice".toList, rfl⟩
    · exact ⟨"carol".toList, rfl⟩
  have laptop : laptopSnapshot.Mergeable plainPrimitives 100 := by
    refine ⟨⟨rfl, ?_⟩, by decide⟩
    intro entry member
    obtain rfl := List.mem_singleton.mp member
    exact ⟨"bob".toList, rfl⟩
  exact ⟨phone, laptop, contact_merge_converges _ _ _ _ _ phone laptop phone⟩

end ZManager.Identity
