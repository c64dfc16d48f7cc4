import Mathlib.Data.List.Nodup
import ZManager.LocalSend.Registry

/-! # Requests that wait for an answer

The history of a run remembers which requests came from the receiver, have neither been answered
nor been cut off by a stop, and which requests the caller has been told of. The map of pending
requests is shared with the temporary server of a discovery, whose end clears it.
-/

namespace ZManager

namespace LocalSend

theorem requestId_inj {process one two : Nat} (same : requestId process one = requestId process two) :
    one = two := by
  have digits := (List.cons.inj (List.append_cancel_left same)).2
  rw [← Nat.ofDigitChars_ten_toDigits (n := one), digits, Nat.ofDigitChars_ten_toDigits]

/-- The id that an event carries for `respond_to_transfer`. -/
def QueuedEvent.requestId? : QueuedEvent → Option Text
  | transferRequest id _ _ => some id
  | forwarded _ => none

namespace System

/-- The server is the stored receiver, or `start_receiver` is about to store it. -/
def Receives (system : System) (source : ServerId) : Prop :=
  system.registry.server = some source ∨ ∃ call, system.calls call = some (.built source)

/-- An event with the id is queued or about to be. -/
def Announces (system : System) (id : Text) : Prop :=
  (∃ event ∈ system.registry.events, event.requestId? = some id) ∨
    ∃ call event, system.calls call = some (.queueing event) ∧ event.requestId? = some id

end System

/-- A system with what has happened in it. -/
structure History where
  system : System := {}
  /-- The requests of the receiver since the last stop that have no answer. -/
  due : List (Text × PendingRequest) := []
  /-- The ids that `poll_events` has returned and that have no answer. -/
  returned : List Text := []

namespace History

/-- Nothing has happened. -/
def Fresh (history : History) : Prop := history = {}

open Classical in
/-- What an action adds to the history. -/
noncomputable def record (process : Nat) (history : History) (next : System) : Action → History
  | .absorbEvent _ source (.transferRequest pending) =>
    let id := requestId process next.registry.nextRequestId
    if history.system.Receives source then
      { history with system := next, due := (id, pending) :: history.due }
    else { history with system := next }
  | .takeServer _ => { history with system := next, due := [] }
  | .pollEvents =>
    let told := history.system.registry.pollEvents.1.filterMap QueuedEvent.requestId?
    { history with system := next, returned := history.returned ++ told }
  | .respondToTransfer id =>
    match (history.system.registry.takeRequest id).1 with
    | .ok pending =>
      { system := next
        due := history.due.erase (id, pending)
        returned := history.returned.erase id }
    | .error _ => { history with system := next }
  | _ => { history with system := next }

/-- A step that the history records. -/
noncomputable def step (process : Nat) (history : History) (action : Action) : Option History :=
  (LocalSend.step process history.system action).map fun next => history.record process next action

/-- The caller knows of the request or will. -/
def Awaits (history : History) (id : Text) : Prop :=
  id ∈ history.returned ∨ history.system.Announces id

/-- A request that is due is awaited by the caller. -/
def Waits (history : History) : Prop :=
  ∃ request ∈ history.due, history.Awaits request.1

/-- A discovery clears the requests only while none waits, and an id is given out again (when the
counter is at its end) only while no request with it is due. -/
def Spares (process : Nat) (history : History) : Action → Prop
  | .clearRequests _ => ¬ history.Waits
  | .absorbEvent _ _ (.transferRequest _) =>
    history.system.registry.nextRequestId < 2 ^ 64 - 1 ∨
      ∀ request ∈ history.due, request.1 ≠ requestId process (2 ^ 64 - 1)
  | _ => True

/-- Every request of the receiver that the caller was told of finds its id. -/
def Answerable (history : History) : Prop :=
  ∀ request ∈ history.due, request.1 ∈ history.returned →
    (history.system.registry.takeRequest request.1).1 = .ok request.2

/-- Requests that are due are pending under ids of their own, unless no one will know of them. -/
structure Keeps (process : Nat) (history : History) : Prop where
  pending : ∀ request ∈ history.due,
    history.system.registry.pendingRequests request.1 = some request.2 ∨
      history.system.registry.pendingRequests request.1 = none ∧ ¬ history.Awaits request.1
  apart : (history.due.map Prod.fst).Nodup
  numbered : ∀ request ∈ history.due,
    ∃ number ≤ history.system.registry.nextRequestId, request.1 = requestId process number
  small : history.system.registry.nextRequestId ≤ 2 ^ 64 - 1

end History

/-! ## What is announced -/

namespace System

variable {system : System} {call : Nat} {phase : Option Phase} {id : Text}

theorem announces_goOn (announced : (system.goOn call phase).Announces id) :
    system.Announces id ∨
      ∃ event, phase = some (.queueing event) ∧ event.requestId? = some id := by
  rcases announced with queued | ⟨other, event, found, carries⟩
  · exact .inl (.inl queued)
  · by_cases same : other = call
    · rw [same, goOn_calls_self] at found
      exact .inr ⟨event, found, carries⟩
    · rw [goOn_calls_of_ne _ same] at found
      exact .inl (.inr ⟨other, event, found, carries⟩)

/-- A call goes on to a phase in which it has nothing to queue. -/
theorem announces_of_goOn (quiet : ∀ event, phase ≠ some (.queueing event))
    (announced : (system.goOn call phase).Announces id) : system.Announces id := by
  obtain before | ⟨event, queueing, -⟩ := announces_goOn announced
  · exact before
  · exact absurd queueing (quiet event)

/-- A section leaves or shrinks the queue. -/
theorem announces_of_withRegistry {registry : RegistryState}
    (fewer : ∀ event ∈ registry.events, event ∈ system.registry.events)
    (announced : ({ system with registry := registry } : System).Announces id) :
    system.Announces id := by
  rcases announced with ⟨event, queued, carries⟩ | going
  · exact .inl ⟨event, fewer event queued, carries⟩
  · exact .inr going

theorem announces_of_pushEvent {event : QueuedEvent}
    (queueing : system.calls call = some (.queueing event))
    (announced : ({ system.goOn call none with
      registry := system.registry.pushEvent event } : System).Announces id) :
    system.Announces id := by
  rcases announced with ⟨other, queued, carries⟩ | going
  · rcases List.mem_append.mp queued with kept | last
    · refine .inl ⟨other, ?_, carries⟩
      split at kept
      · exact List.mem_of_mem_drop kept
      · exact kept
    · rw [List.mem_singleton] at last
      exact .inr ⟨call, event, queueing, last ▸ carries⟩
  · have gone : (system.goOn call none).Announces id := .inr going
    exact announces_of_goOn (fun _ => by simp) gone

/-- What is announced after a poll was announced before, and what was queued is returned. -/
theorem announces_of_pollEvents
    (announced : ({ system with
      registry := system.registry.pollEvents.2 } : System).Announces id) :
    system.Announces id := by
  apply announces_of_withRegistry _ announced
  exact fun event member => absurd member List.not_mem_nil

end System

/-! ## One step -/

namespace History.Keeps

variable {process : Nat} {history : History} {next : System}

variable {source : Nat} {pending : PendingRequest}

section

variable (kept : history.Keeps process)
include kept

/-- A step that leaves the requests alone. -/
theorem onward (pending : next.registry.pendingRequests = history.system.registry.pendingRequests)
    (number : next.registry.nextRequestId = history.system.registry.nextRequestId)
    (announces : ∀ id, next.Announces id → history.system.Announces id) :
    ({ history with system := next } : History).Keeps process where
  pending request member := by
    rw [show ({ history with system := next } : History).system = next from rfl, pending]
    rcases kept.pending request member with found | ⟨gone, unknown⟩
    · exact .inl found
    · exact .inr ⟨gone, fun awaited => unknown (awaited.imp id (announces _))⟩
  apart := kept.apart
  numbered := by
    rw [show ({ history with system := next } : History).system = next from rfl, number]
    exact kept.numbered
  small := by
    rw [show ({ history with system := next } : History).system = next from rfl, number]
    exact kept.small

/-- The requests are cleared while none waits. -/
theorem clearRequests (none_ : ¬ history.Waits)
    (cleared : ∀ id, next.registry.pendingRequests id = none)
    (number : next.registry.nextRequestId = history.system.registry.nextRequestId)
    (announces : ∀ id, next.Announces id → history.system.Announces id) :
    ({ history with system := next } : History).Keeps process where
  pending request member := .inr ⟨cleared _, fun awaited =>
    none_ ⟨request, member, awaited.imp id (announces _)⟩⟩
  apart := kept.apart
  numbered := by
    rw [show ({ history with system := next } : History).system = next from rfl, number]
    exact kept.numbered
  small := by
    rw [show ({ history with system := next } : History).system = next from rfl, number]
    exact kept.small

/-- Nothing is due behind a stop. -/
theorem takeServer (number : next.registry.nextRequestId = history.system.registry.nextRequestId) :
    ({ history with system := next, due := [] } : History).Keeps process where
  pending _ member := absurd member List.not_mem_nil
  apart := List.nodup_nil
  numbered _ member := absurd member List.not_mem_nil
  small := by
    rw [show ({ history with system := next, due := [] } : History).system = next from rfl, number]
    exact kept.small

theorem pollEvents :
    (history.record process { history.system with
      registry := history.system.registry.pollEvents.2 } .pollEvents).Keeps process where
  pending request member := by
    rcases kept.pending request member with found | ⟨gone, unknown⟩
    · exact .inl found
    · refine .inr ⟨gone, fun awaited => unknown ?_⟩
      rcases awaited with told | announced
      · rcases List.mem_append.mp told with before | now
        · exact .inl before
        · obtain ⟨event, queued, carries⟩ := List.mem_filterMap.mp now
          exact .inr (.inl ⟨event, queued, carries⟩)
      · exact .inr (System.announces_of_pollEvents announced)
  apart := kept.apart
  numbered := kept.numbered
  small := kept.small

theorem respondToTransfer (id : Text) :
    (history.record process { history.system with
      registry := (history.system.registry.takeRequest id).2 }
        (.respondToTransfer id)).Keeps process := by
  cases found : history.system.registry.pendingRequests id with
  | none =>
    simp only [record, RegistryState.takeRequest, found]
    exact kept
  | some pending =>
    simp only [record, RegistryState.takeRequest, found]
    have still {request : Text × PendingRequest} (member : request ∈ history.due.erase (id, pending)) :
        request ∈ history.due ∧ request.1 ≠ id := by
      have distinct := List.Nodup.of_map _ kept.apart
      obtain ⟨other, old⟩ := (distinct.mem_erase_iff).mp member
      refine ⟨old, fun same => other ?_⟩
      rcases kept.pending request old with holds | ⟨gone, -⟩
      · rw [same, found] at holds
        exact Prod.ext same (Option.some.inj holds).symm
      · rw [same, found] at gone
        cases gone
    refine ⟨fun request member => ?_, ?_, fun request member => ?_, kept.small⟩
    · obtain ⟨old, other⟩ := still member
      have same := Function.update_of_ne other none history.system.registry.pendingRequests
      rcases kept.pending request old with holds | ⟨gone, unknown⟩
      · exact .inl (same.trans holds)
      · exact .inr ⟨same.trans gone,
          fun awaited => unknown (awaited.imp_left List.mem_of_mem_erase)⟩
    · exact kept.apart.sublist (List.erase_sublist.map Prod.fst)
    · exact kept.numbered request (still member).1

/-- The id that the next request is given is that of no request that is due. -/
theorem id_ne {call : Nat}
    (may : history.Spares process (.absorbEvent call source (.transferRequest pending)))
    {request : Text × PendingRequest} (member : request ∈ history.due) :
    request.1 ≠ requestId process
      (min (history.system.registry.nextRequestId + 1) (2 ^ 64 - 1)) := by
  obtain ⟨number, bounded, named⟩ := kept.numbered request member
  by_cases room : history.system.registry.nextRequestId < 2 ^ 64 - 1
  · intro same
    rw [named] at same
    have equal := requestId_inj same
    omega
  · have last := may.resolve_left room request member
    rwa [show min (history.system.registry.nextRequestId + 1) (2 ^ 64 - 1) = 2 ^ 64 - 1 by omega]

/-- A request becomes due. -/
theorem addDue {id : Text} (found : history.system.registry.pendingRequests id = some pending)
    (fresh : ∀ request ∈ history.due, request.1 ≠ id)
    (numbered : ∃ number ≤ history.system.registry.nextRequestId, id = requestId process number) :
    ({ history with due := (id, pending) :: history.due } : History).Keeps process where
  pending request member := by
    rcases List.mem_cons.mp member with rfl | old
    · exact .inl found
    · exact kept.pending request old
  apart := by
    refine List.nodup_cons.mpr ⟨fun member => ?_, kept.apart⟩
    obtain ⟨request, old, same⟩ := List.mem_map.mp member
    exact fresh request old same
  numbered request member := by
    rcases List.mem_cons.mp member with rfl | old
    · exact numbered
    · exact kept.numbered request old
  small := kept.small

/-- The section that takes in a request, from whatever server. -/
theorem insertRequest {call : Nat} {queued : QueuedEvent}
    (may : history.Spares process (.absorbEvent call source (.transferRequest pending)))
    (absorbed : (history.system.registry.absorbEvent process (.transferRequest pending)).1 =
      some queued) :
    ({ history with system := { history.system.goOn call (some (.queueing queued)) with
      registry := (history.system.registry.absorbEvent process (.transferRequest pending)).2 } } :
        History).Keeps process := by
  cases absorbed
  refine ⟨fun request member => ?_, kept.apart, fun request member => ?_, Nat.min_le_right ..⟩
  · have other := kept.id_ne may member
    have same := Function.update_of_ne other (some pending) history.system.registry.pendingRequests
    rcases kept.pending request member with holds | ⟨gone, unknown⟩
    · exact .inl (same.trans holds)
    · refine .inr ⟨same.trans gone, fun awaited => unknown ?_⟩
      refine awaited.imp_right fun announced => ?_
      have moved : (history.system.goOn call (some (.queueing _))).Announces request.1 := announced
      obtain before | ⟨event, equal, carries⟩ := System.announces_goOn moved
      · exact before
      · cases equal
        exact absurd (Option.some.inj carries).symm other
  · obtain ⟨number, bounded, named⟩ := kept.numbered request member
    have small := kept.small
    refine ⟨number, ?_, named⟩
    exact Nat.le_min.mpr ⟨Nat.le_succ_of_le bounded, Nat.le_trans bounded small⟩

/-- A request arrives. -/
theorem absorbRequest {call : Nat} {queued : QueuedEvent}
    (may : history.Spares process (.absorbEvent call source (.transferRequest pending)))
    (absorbed : (history.system.registry.absorbEvent process (.transferRequest pending)).1 =
      some queued) :
    (history.record process { history.system.goOn call (some (.queueing queued)) with
      registry := (history.system.registry.absorbEvent process (.transferRequest pending)).2 }
        (.absorbEvent call source (.transferRequest pending))).Keeps process := by
  have inserted := kept.insertRequest may absorbed
  rw [record]
  split
  · exact inserted.addDue (Function.update_self ..) (fun _ member => kept.id_ne may member)
      ⟨_, Nat.le_refl _, rfl⟩
  · exact inserted

end

theorem step (kept : history.Keeps process) {action : Action} {after : History}
    (may : history.Spares process action)
    (taken : history.step process action = some after) : after.Keeps process := by
  obtain ⟨next, stepped, rfl⟩ := Option.map_eq_some_iff.mp taken
  have going {call : Nat} {phase : Option Phase} (quiet : ∀ event, phase ≠ some (.queueing event)) :
      ({ history with system := history.system.goOn call phase } : History).Keeps process :=
    kept.onward rfl rfl fun _ => System.announces_of_goOn quiet
  cases takes_of_step stepped with
  | starts => exact going fun _ => by simp
  | finds => exact kept
  | builds =>
    have quiet (event : QueuedEvent) :
        some (Phase.built history.system.count) ≠ some (Phase.queueing event) := by simp
    exact kept.onward rfl rfl fun _ => @System.announces_of_goOn history.system _ _ _ quiet
  | failsToBuild => exact going fun _ => by simp
  | stores => exact kept.onward rfl rfl fun _ => System.announces_of_goOn (by simp)
  | takes => exact kept.takeServer rfl
  | takesNone => exact kept.takeServer rfl
  | stops =>
    have quiet (event : QueuedEvent) : none ≠ some (Phase.queueing event) := by simp
    exact kept.onward rfl rfl fun _ => @System.announces_of_goOn history.system _ _ _ quiet
  | prepares => exact going fun _ => by simp
  | reuses => exact going fun _ => by simp
  | listens =>
    have quiet (event : QueuedEvent) :
        some (Phase.sweeping (some history.system.count)) ≠ some (Phase.queueing event) := by simp
    exact kept.onward rfl rfl fun _ => @System.announces_of_goOn history.system _ _ _ quiet
  | failsToListen => exact going fun _ => by simp
  | givesUp => exact going fun _ => by simp
  | ends => exact going fun _ => by simp
  | stopsTemporary => exact going fun _ => by simp
  | clears =>
    exact kept.clearRequests may (fun _ => rfl) rfl fun _ => System.announces_of_goOn (by simp)
  | @absorbs call source event queued idle absorbed =>
    cases event with
    | transferRequest pending => exact kept.absorbRequest may absorbed
    | forwarded event =>
      cases absorbed
      refine kept.onward rfl rfl fun id announced => ?_
      have moved : (history.system.goOn call (some (.queueing (.forwarded event)))).Announces id :=
        announced
      obtain before | ⟨other, equal, carries⟩ := System.announces_goOn moved
      · exact before
      · cases equal
        cases carries
    | webShare => cases absorbed
  | @drops call source event dropped =>
    cases event with
    | transferRequest pending => cases dropped
    | forwarded event => cases dropped
    | webShare => exact kept
  | pushes queueing =>
    exact kept.onward rfl rfl fun _ => System.announces_of_pushEvent queueing
  | polls => exact kept.pollEvents
  | responds => exact kept.respondToTransfer _

end History.Keeps

/-! ## Whole runs -/

theorem History.keeps_empty (process : Nat) : ({} : History).Keeps process where
  pending _ member := absurd member List.not_mem_nil
  apart := List.nodup_nil
  numbered _ member := absurd member List.not_mem_nil
  small := Nat.zero_le _

/-- **Requests stay answerable.** In every run in which a discovery clears the requests only while
none waits, every request of the receiver that `poll_events` has returned and that has no
answer finds its id, unless the receiver was stopped since it arrived. -/
theorem requests_answerable {process : Nat} {history : History}
    (reached : Reaches (History.step process) (History.Spares process) History.Fresh history) :
    history.Answerable := by
  have kept : history.Keeps process := by
    refine Reaches.invariant ?_ ?_ reached
    · rintro state rfl
      exact History.keeps_empty process
    · intro state action next kept may taken
      exact kept.step may taken
  intro request member told
  rcases kept.pending request member with found | ⟨-, unknown⟩
  · rw [RegistryState.takeRequest, found]
  · exact absurd (.inl told) unknown

/-! ## A sweep that ends late -/

/-- A request for one file of one byte. -/
def oneFile : PendingRequest where
  sender := ⟨"Phone".toList, "ab".toList⟩
  files := [⟨"1".toList, "a.txt".toList, 1, "text/plain".toList⟩]

theorem History.record_of_receives {process call source : Nat} {history : History}
    {next : System} {pending : PendingRequest} (receives : history.system.Receives source) :
    history.record process next (.absorbEvent call source (.transferRequest pending)) =
      { history with
        system := next
        due := (requestId process next.registry.nextRequestId, pending) :: history.due } :=
  if_pos receives

/-- A discovery begins with no receiver, a receiver starts and hands on a request, and the sweep
ends. -/
theorem late_sweep_discards_request :
    ¬ ∀ (process : Nat) (history : History),
      Reaches (History.step process) (fun _ _ => True) History.Fresh history →
        history.Answerable := by
  intro always
  have fresh : Reaches (History.step 0) (fun _ _ => True) History.Fresh {} := .start rfl
  have prepared := fresh.take (.lookForServer 0) trivial rfl
  have sweeping := prepared.take (.listen 0 true) trivial rfl
  have starting := sweeping.take (.checkServer 1) trivial rfl
  have built := starting.take (.build 1 true) trivial rfl
  have stored := built.take (.storeServer 1) trivial rfl
  have arrived := stored.take (.absorbEvent 2 1 (.transferRequest oneFile)) trivial
    (congrArg some (History.record_of_receives (.inl rfl)))
  have queued := arrived.take (.pushEvent 2) trivial rfl
  have told := queued.take .pollEvents trivial rfl
  have swept := told.take (.endSweep 0) trivial rfl
  have cleared := swept.take (.clearRequests 0) trivial rfl
  have found := always 0 _ cleared (requestId 0 1, oneFile) List.mem_cons_self List.mem_cons_self
  cases found

/-- A discovery begins with no receiver and clears while none waits; the request comes during
another discovery, which uses the receiver that was started. -/
theorem requests_answerable_sample : ∃ history : History,
    history.returned = [requestId 0 1] ∧ history.due = [(requestId 0 1, oneFile)] ∧
      history.Answerable := by
  have fresh : Reaches (History.step 0) (History.Spares 0) History.Fresh {} := .start rfl
  have prepared := fresh.take (.lookForServer 0) trivial rfl
  have sweeping := prepared.take (.listen 0 true) trivial rfl
  have starting := sweeping.take (.checkServer 1) trivial rfl
  have built := starting.take (.build 1 true) trivial rfl
  have stored := built.take (.storeServer 1) trivial rfl
  have swept := stored.take (.endSweep 0) trivial rfl
  have cleared := swept.take (.clearRequests 0)
    (fun ⟨_, member, _⟩ => absurd member List.not_mem_nil) rfl
  have discovering := cleared.take (.lookForServer 3) trivial rfl
  have arrived := discovering.take (.absorbEvent 2 1 (.transferRequest oneFile))
    (.inl (by decide : 0 < 2 ^ 64 - 1)) (congrArg some (History.record_of_receives (.inl rfl)))
  have queued := arrived.take (.pushEvent 2) trivial rfl
  have told := queued.take .pollEvents trivial rfl
  have ended := told.take (.endSweep 3) trivial rfl
  exact ⟨_, rfl, rfl, requests_answerable ended⟩

end LocalSend

end ZManager
