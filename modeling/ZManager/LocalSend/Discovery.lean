import ZManager.Foundation.Run
import ZManager.Foundation.Text

/-! # Peers that have confirmed themselves

A peer says when it is there, and not when it leaves. Peers register with a server at any time, a
discovery adds those that it has found, drops the ones that have not confirmed themselves for two
minutes, and reports the others. The sections are under one lock and come in any order.
-/

namespace ZManager

namespace LocalSend

/-- `CONFIRMED_DEVICE_TTL`, in nanoseconds. -/
def confirmedDeviceTtl : Nat := 120 * 10 ^ 9

/-- A device as it announces itself. -/
structure PeerDevice where
  deviceAlias : Text
  fingerprint : Text
  port : Nat
  protocol : Text
  ip : Option Text
  deviceModel : Option Text
  deriving DecidableEq

/-- A device that has answered. -/
structure ConfirmedDevice extends PeerDevice where
  /-- By the monotonic clock. -/
  lastSeen : Nat
  lastSeenUnixSeconds : Nat
  deriving DecidableEq

/-- The devices seen so far. -/
structure PeerStore where
  announcedFingerprints : List Text := []
  confirmedDevices : List ConfirmedDevice := []

/-- A number of an IPv4 address, which has no leading zeros. -/
def octet (text : Text) : Option Nat :=
  if text = [] ∨ 3 < text.length ∨ !text.all Char.isDigit ∨
      text.head? = some '0' ∧ text ≠ ['0'] then none
  else if Nat.ofDigitChars 10 text 0 < 256 then some (Nat.ofDigitChars 10 text 0)
  else none

def deviceIsLoopback (device : PeerDevice) : Bool :=
  match device.ip.map fun ip => (ip.splitOn '.').map octet with
  | some [some 127, some _, some _, some _] => true
  | _ => false

def isOwnIdentity (fingerprint : Text) (own : Option Text) (announced : List Text) : Bool :=
  own == some fingerprint || announced.contains fingerprint

def excludeSelfDevices (found : List ConfirmedDevice) (own : Option Text) : List ConfirmedDevice :=
  found.filter fun confirmed => own != some confirmed.fingerprint

namespace PeerStore

/-- `insert` under the fingerprint. -/
def confirm (store : PeerStore) (confirmed : ConfirmedDevice) : PeerStore :=
  { store with
    confirmedDevices := confirmed ::
      store.confirmedDevices.filter fun other => other.fingerprint != confirmed.fingerprint }

/-- `retain` -/
def dropStale (store : PeerStore) (now : Nat) : PeerStore :=
  { store with
    confirmedDevices := store.confirmedDevices.filter fun confirmed =>
      decide (now - confirmed.lastSeen < confirmedDeviceTtl) }

/-- The last section of a discovery, which saw each of the found peers at its own time. -/
def endSweep (store : PeerStore) (own : Option Text) (found : List ConfirmedDevice)
    (loopbackOnly : Bool) (now : Nat) : List ConfirmedDevice × PeerStore :=
  let kept := ((excludeSelfDevices found own).foldl confirm store).dropStale now
  (kept.confirmedDevices.filter fun confirmed =>
    (!loopbackOnly || deviceIsLoopback confirmed.toPeerDevice) &&
      !isOwnIdentity confirmed.fingerprint own store.announcedFingerprints, kept)

end PeerStore

/-! ## Runs -/

/-- The store with all confirmations, the latest one first, and the time of the last discovery. -/
structure Sightings where
  store : PeerStore := {}
  confirmations : List ConfirmedDevice := []
  clock : Nat := 0

/-- A call that changes the store. -/
inductive PeerAction where
  | announce (fingerprint : Text)
  | register (confirmed : ConfirmedDevice)
  | endSweep (own : Option Text) (found : List ConfirmedDevice) (loopbackOnly : Bool) (now : Nat)

namespace Sightings

def Fresh (sightings : Sightings) : Prop := sightings = {}

/-- One call that the store sees. -/
def step (sightings : Sightings) : PeerAction → Option Sightings
  | .announce fingerprint =>
    some { sightings with
      store.announcedFingerprints := fingerprint :: sightings.store.announcedFingerprints }
  | .register confirmed =>
    some { sightings with
      store := sightings.store.confirm confirmed
      confirmations := confirmed :: sightings.confirmations }
  | .endSweep own found loopbackOnly now =>
    some {
      store := (sightings.store.endSweep own found loopbackOnly now).2
      confirmations := (excludeSelfDevices found own).reverse ++ sightings.confirmations
      clock := now }

/-- The clock of the discoveries does not go back. -/
def InTime (sightings : Sightings) : PeerAction → Prop
  | .endSweep _ _ _ now => sightings.clock ≤ now
  | _ => True

end Sightings

/-- The latest confirmation under a fingerprint. -/
def latest (confirmations : List ConfirmedDevice) (fingerprint : Text) : Option ConfirmedDevice :=
  confirmations.find? (·.fingerprint == fingerprint)

theorem latest_cons (confirmed : ConfirmedDevice) (confirmations : List ConfirmedDevice)
    (fingerprint : Text) : latest (confirmed :: confirmations) fingerprint =
      if confirmed.fingerprint = fingerprint then some confirmed
      else latest confirmations fingerprint := by
  unfold latest
  rw [List.find?_cons]
  split <;> simp_all

/-- The store has the latest confirmations, without some that were too old at a time. -/
structure Retains (store : PeerStore) (confirmations : List ConfirmedDevice) (clock : Nat) :
    Prop where
  apart : (store.confirmedDevices.map (·.fingerprint)).Nodup
  known : ∀ confirmed ∈ store.confirmedDevices,
    latest confirmations confirmed.fingerprint = some confirmed
  kept : ∀ confirmed, latest confirmations confirmed.fingerprint = some confirmed →
    confirmed ∈ store.confirmedDevices ∨ confirmedDeviceTtl ≤ clock - confirmed.lastSeen

namespace Retains

variable {store : PeerStore} {confirmations : List ConfirmedDevice} {clock now : Nat}

theorem confirm (retains : Retains store confirmations clock) (confirmed : ConfirmedDevice) :
    Retains (store.confirm confirmed) (confirmed :: confirmations) clock where
  apart := by
    refine List.nodup_cons.mpr ⟨fun member => ?_, retains.apart.sublist (List.filter_sublist.map _)⟩
    obtain ⟨other, inside, same⟩ := List.mem_map.mp member
    exact bne_iff_ne.mp (List.mem_filter.mp inside).2 same
  known other member := by
    rcases List.mem_cons.mp member with rfl | old
    · rw [latest_cons, if_pos rfl]
    · obtain ⟨before, different⟩ := List.mem_filter.mp old
      rw [latest_cons, if_neg (Ne.symm (bne_iff_ne.mp different))]
      exact retains.known other before
  kept other last := by
    rw [latest_cons] at last
    split at last
    · cases last
      exact .inl List.mem_cons_self
    next same =>
      refine (retains.kept other last).imp_left fun before => List.mem_cons_of_mem _ ?_
      exact List.mem_filter.mpr ⟨before, bne_iff_ne.mpr (Ne.symm same)⟩

theorem confirmAll (retains : Retains store confirmations clock) (found : List ConfirmedDevice) :
    Retains (found.foldl PeerStore.confirm store) (found.reverse ++ confirmations) clock := by
  induction found generalizing store confirmations with
  | nil => exact retains
  | cons confirmed rest ih =>
    rw [List.reverse_cons, List.append_assoc]
    exact ih (retains.confirm confirmed)

theorem dropStale (retains : Retains store confirmations clock) (later : clock ≤ now) :
    Retains (store.dropStale now) confirmations now where
  apart := retains.apart.sublist (List.filter_sublist.map _)
  known confirmed member := retains.known confirmed (List.mem_filter.mp member).1
  kept confirmed last := by
    by_cases recent : now - confirmed.lastSeen < confirmedDeviceTtl
    · rcases retains.kept confirmed last with inside | old
      · exact .inl (List.mem_filter.mpr ⟨inside, decide_eq_true recent⟩)
      · omega
    · exact .inr (Nat.le_of_not_lt recent)

end Retains

theorem retains_of_reaches {sightings : Sightings}
    (reached : Reaches Sightings.step Sightings.InTime Sightings.Fresh sightings) :
    Retains sightings.store sightings.confirmations sightings.clock := by
  induction reached with
  | start initial =>
    cases initial
    exact ⟨List.nodup_nil, fun _ member => absurd member List.not_mem_nil,
      fun _ last => by cases last⟩
  | @step state next action before may taken retains =>
    cases action with
    | announce fingerprint =>
      cases taken
      exact ⟨retains.apart, retains.known, retains.kept⟩
    | register confirmed =>
      cases taken
      exact retains.confirm confirmed
    | endSweep own found loopbackOnly now =>
      cases taken
      exact (retains.confirmAll _).dropStale may

/-- **A discovery reports the live peers.** Whatever came before, the peers it reports are those
whose latest confirmation, by whichever way it came, is less than two minutes old, that are not this
device under any identity it announced, and that are in scope; each of them once. -/
theorem discovery_reports_live_peers {sightings : Sightings}
    (reached : Reaches Sightings.step Sightings.InTime Sightings.Fresh sightings)
    (own : Option Text) (found : List ConfirmedDevice) (loopbackOnly : Bool) {now : Nat}
    (later : sightings.clock ≤ now) :
    (∀ confirmed, confirmed ∈ (sightings.store.endSweep own found loopbackOnly now).1 ↔
      latest ((excludeSelfDevices found own).reverse ++ sightings.confirmations)
          confirmed.fingerprint = some confirmed ∧
        now - confirmed.lastSeen < confirmedDeviceTtl ∧
        (loopbackOnly → deviceIsLoopback confirmed.toPeerDevice) ∧
        isOwnIdentity confirmed.fingerprint own sightings.store.announcedFingerprints = false) ∧
    ((sightings.store.endSweep own found loopbackOnly now).1.map (·.fingerprint)).Nodup := by
  have retains := ((retains_of_reaches reached).confirmAll
    (excludeSelfDevices found own)).dropStale later
  refine ⟨fun confirmed => ?_, retains.apart.sublist (List.filter_sublist.map _)⟩
  unfold PeerStore.endSweep
  rw [List.mem_filter, Bool.and_eq_true, Bool.or_eq_true, Bool.not_eq_true', Bool.not_eq_true']
  constructor
  · rintro ⟨inside, scope, other⟩
    have recent := of_decide_eq_true (List.mem_filter.mp inside).2
    refine ⟨retains.known confirmed inside, recent, fun only => ?_, other⟩
    exact scope.resolve_left (by rw [only]; exact Bool.noConfusion)
  · rintro ⟨last, recent, scope, other⟩
    refine ⟨(retains.kept confirmed last).resolve_right (by omega), ?_, other⟩
    cases loopbackOnly with
    | false => exact .inl rfl
    | true => exact .inr (scope rfl)

/-- A peer that registers while no discovery runs. -/
def phonePeer : ConfirmedDevice where
  deviceAlias := "Phone".toList
  fingerprint := "ab".toList
  port := 53317
  protocol := "http".toList
  ip := some "192.168.0.2".toList
  deviceModel := none
  lastSeen := 5
  lastSeenUnixSeconds := 0

theorem discovery_reports_phone : ∃ sightings : Sightings,
    phonePeer ∈ (sightings.store.endSweep none [] false 10).1 := by
  have fresh : Reaches Sightings.step Sightings.InTime Sightings.Fresh {} := .start rfl
  have registered := fresh.take (.register phonePeer) trivial rfl
  have reports := discovery_reports_live_peers registered none [] false (Nat.zero_le 10)
  exact ⟨_, (reports.1 phonePeer).mpr (by decide)⟩

end LocalSend

end ZManager
