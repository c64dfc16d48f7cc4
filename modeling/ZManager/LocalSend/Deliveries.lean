import ZManager.LocalSend.Requests

/-! # What the caller is told and answers

A poll returns the last 512 of the events since the last one. A request is answered at most once,
and what is answered is what came under that id, whatever starts, stops, discoveries and pumps come
between.
-/

namespace ZManager

namespace LocalSend

/-- A system with what came in and what went out. -/
structure Ledger where
  system : System := {}
  /-- The events pushed since the last poll. -/
  pushed : List QueuedEvent := []
  /-- The requests that came. -/
  issued : List PendingRequest := []
  /-- The requests that `respond_to_transfer` has found, with their ids. -/
  answered : List (Text × PendingRequest) := []

namespace Ledger

def Fresh (ledger : Ledger) : Prop := ledger = {}

/-- What an action adds to the ledger. -/
def record (ledger : Ledger) (next : System) : Action → Ledger
  | .absorbEvent _ _ (.transferRequest pending) =>
    { ledger with system := next, issued := ledger.issued ++ [pending] }
  | .pushEvent call =>
    match ledger.system.calls call with
    | some (.queueing event) => { ledger with system := next, pushed := ledger.pushed ++ [event] }
    | _ => { ledger with system := next }
  | .pollEvents => { ledger with system := next, pushed := [] }
  | .respondToTransfer id =>
    match (ledger.system.registry.takeRequest id).1 with
    | .ok pending => { ledger with system := next, answered := (id, pending) :: ledger.answered }
    | .error _ => { ledger with system := next }
  | _ => { ledger with system := next }

/-- A step that the ledger records. -/
def step (process : Nat) (ledger : Ledger) (action : Action) : Option Ledger :=
  (LocalSend.step process ledger.system action).map fun next => ledger.record next action

/-- The counter is not at its end when a request comes. -/
def Counts (ledger : Ledger) : Action → Prop
  | .absorbEvent _ _ (.transferRequest _) => ledger.system.registry.nextRequestId < 2 ^ 64 - 1
  | _ => True

/-- The request came under the id. Ids count from one. -/
def Came (process : Nat) (ledger : Ledger) (id : Text) (pending : PendingRequest) : Prop :=
  ∃ number, id = requestId process (number + 1) ∧ ledger.issued[number]? = some pending

/-- What the caller relies on. -/
structure Balanced (process : Nat) (ledger : Ledger) : Prop where
  queue : ledger.system.registry.events =
    ledger.pushed.drop (ledger.pushed.length - maxQueuedEvents)
  own : ∀ request ∈ ledger.answered, ledger.Came process request.1 request.2
  once : (ledger.answered.map Prod.fst).Nodup

/-- What every step keeps of the ledger. -/
structure Keeps (process : Nat) (ledger : Ledger) : Prop extends ledger.Balanced process where
  number : ledger.system.registry.nextRequestId = ledger.issued.length
  pending : ∀ id pending, ledger.system.registry.pendingRequests id = some pending →
    ledger.Came process id pending ∧ ∀ request ∈ ledger.answered, request.1 ≠ id

namespace Keeps

variable {process : Nat} {ledger : Ledger} {next : System}

/-- A step that leaves the queue alone and adds no request. -/
theorem onward (kept : ledger.Keeps process)
    (fewer : ∀ id pending, next.registry.pendingRequests id = some pending →
      ledger.system.registry.pendingRequests id = some pending)
    (number : next.registry.nextRequestId = ledger.system.registry.nextRequestId)
    (events : next.registry.events = ledger.system.registry.events) :
    ({ ledger with system := next } : Ledger).Keeps process where
  queue := events.trans kept.queue
  own := kept.own
  once := kept.once
  number := number.trans kept.number
  pending id pending found := kept.pending id pending (fewer id pending found)

/-- The queue after a push is what is left of all that was pushed. -/
theorem events_pushEvent (kept : ledger.Keeps process) (event : QueuedEvent) :
    (ledger.system.registry.pushEvent event).events =
      (ledger.pushed ++ [event]).drop ((ledger.pushed ++ [event]).length - maxQueuedEvents) := by
  change (if maxQueuedEvents ≤ ledger.system.registry.events.length then
    ledger.system.registry.events.drop 1 else ledger.system.registry.events) ++ [event] = _
  rw [kept.queue, List.length_append, List.length_drop, List.length_singleton,
    List.drop_append_of_le_length (by unfold maxQueuedEvents; omega)]
  unfold maxQueuedEvents
  split
  · rw [List.drop_drop,
      show ledger.pushed.length - 512 + 1 = ledger.pushed.length + 1 - 512 by omega]
  · rw [show ledger.pushed.length - 512 = ledger.pushed.length + 1 - 512 by omega]

/-- A request comes under an id that none had. -/
theorem absorbRequest (kept : ledger.Keeps process)
    (room : ledger.system.registry.nextRequestId < 2 ^ 64 - 1) (call source : Nat)
    (arrived : PendingRequest) (phase : Option Phase) :
    (ledger.record { ledger.system.goOn call phase with
      registry := (ledger.system.registry.absorbEvent process (.transferRequest arrived)).2 }
        (.absorbEvent call source (.transferRequest arrived))).Keeps process := by
  have number : min (ledger.system.registry.nextRequestId + 1) (2 ^ 64 - 1) =
      ledger.issued.length + 1 := by rw [← kept.number]; omega
  have still {id : Text} {pending : PendingRequest} (came : ledger.Came process id pending) :
      id ≠ requestId process (ledger.issued.length + 1) ∧
        ({ ledger with issued := ledger.issued ++ [arrived] } : Ledger).Came process id
          pending := by
    obtain ⟨place, rfl, found⟩ := came
    obtain ⟨inside, -⟩ := List.getElem?_eq_some_iff.mp found
    exact ⟨fun same => by have equal := requestId_inj same; omega, place, rfl,
      (List.getElem?_append_left inside).trans found⟩
  refine ⟨⟨kept.queue, fun request member => (still (kept.own request member)).2, kept.once⟩,
    number.trans (@List.length_append _ ledger.issued [arrived]).symm, fun id pending found => ?_⟩
  change Function.update ledger.system.registry.pendingRequests (requestId process _) _ id = _
    at found
  rw [number] at found
  by_cases same : id = requestId process (ledger.issued.length + 1)
  · rw [same, Function.update_self] at found
    cases found
    refine ⟨⟨_, same, List.getElem?_concat_length⟩, fun request member => ?_⟩
    rw [same]
    exact (still (kept.own request member)).1
  · rw [Function.update_of_ne same] at found
    obtain ⟨came, apart⟩ := kept.pending id pending found
    exact ⟨(still came).2, apart⟩

theorem respondToTransfer (kept : ledger.Keeps process) (id : Text) :
    (ledger.record { ledger.system with
      registry := (ledger.system.registry.takeRequest id).2 } (.respondToTransfer id)).Keeps
        process := by
  cases found : ledger.system.registry.pendingRequests id with
  | none =>
    simp only [record, RegistryState.takeRequest, found]
    exact kept
  | some pending =>
    simp only [record, RegistryState.takeRequest, found]
    obtain ⟨came, unanswered⟩ := kept.pending id pending found
    refine ⟨⟨kept.queue, List.forall_mem_cons.mpr ⟨came, kept.own⟩, ?_⟩, kept.number,
      fun other request still => ?_⟩
    · refine List.nodup_cons.mpr ⟨fun member => ?_, kept.once⟩
      obtain ⟨request, old, same⟩ := List.mem_map.mp member
      exact unanswered request old same
    · change Function.update ledger.system.registry.pendingRequests id none other = _ at still
      by_cases same : other = id
      · rw [same, Function.update_self] at still
        cases still
      · rw [Function.update_of_ne same] at still
        obtain ⟨before, apart⟩ := kept.pending other request still
        exact ⟨before, List.forall_mem_cons.mpr ⟨fun equal => same equal.symm, apart⟩⟩

theorem step (kept : ledger.Keeps process) {action : Action} {after : Ledger}
    (may : ledger.Counts action) (taken : ledger.step process action = some after) :
    after.Keeps process := by
  obtain ⟨next, stepped, rfl⟩ := Option.map_eq_some_iff.mp taken
  cases takes_of_step stepped with
  | takes => exact kept.onward (fun _ _ found => by cases found) rfl rfl
  | takesNone => exact kept.onward (fun _ _ found => by cases found) rfl rfl
  | clears => exact kept.onward (fun _ _ found => by cases found) rfl rfl
  | @absorbs call source event queued idle absorbed =>
    cases event with
    | transferRequest pending => exact kept.absorbRequest may call source pending _
    | forwarded event => exact kept.onward (fun _ _ found => found) rfl rfl
    | webShare => cases absorbed
  | @drops call source event dropped =>
    cases event with
    | transferRequest pending => cases dropped
    | forwarded event => cases dropped
    | webShare => exact kept
  | @pushes call event queueing =>
    rw [record, queueing]
    exact ⟨⟨kept.events_pushEvent event, kept.own, kept.once⟩, kept.number, kept.pending⟩
  | polls => exact ⟨⟨List.drop_nil.symm, kept.own, kept.once⟩, kept.number, kept.pending⟩
  | responds => exact kept.respondToTransfer _
  | _ => exact kept.onward (fun _ _ found => found) rfl rfl

end Keeps

end Ledger

/-- **Told in order, answered once.** However the calls interleave while the counter lasts, the
queue has the last 512 of the events since the last poll, and no request is answered twice or with
what came under another id. -/
theorem ledger_balanced {process : Nat} {ledger : Ledger}
    (reached : Reaches (Ledger.step process) Ledger.Counts Ledger.Fresh ledger) :
    ledger.Balanced process := by
  have kept : ledger.Keeps process := by
    refine Reaches.invariant ?_ (fun _ _ _ kept may taken => kept.step may taken) reached
    rintro state rfl
    exact ⟨⟨rfl, fun _ member => absurd member List.not_mem_nil, List.nodup_nil⟩, rfl,
      fun _ _ found => by cases found⟩
  exact kept.toBalanced

/-- A request comes, is told and is answered. -/
theorem ledger_balanced_sample : ∃ ledger : Ledger,
    ledger.answered = [(requestId 0 1, oneFile)] ∧ ledger.Balanced 0 := by
  have fresh : Reaches (Ledger.step 0) Ledger.Counts Ledger.Fresh {} := .start rfl
  have starting := fresh.take (.checkServer 1) trivial rfl
  have built := starting.take (.build 1 true) trivial rfl
  have stored := built.take (.storeServer 1) trivial rfl
  have arrived := stored.take (.absorbEvent 2 0 (.transferRequest oneFile))
    (by decide : 0 < 2 ^ 64 - 1) rfl
  have queued := arrived.take (.pushEvent 2) trivial rfl
  have told := queued.take .pollEvents trivial rfl
  have answered := told.take (.respondToTransfer (requestId 0 1)) trivial rfl
  exact ⟨_, rfl, ledger_balanced answered⟩

end LocalSend

end ZManager
