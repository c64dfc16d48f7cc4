import Mathlib.Logic.Function.Basic
import ZManager.Foundation.Run
import ZManager.Foundation.Text

/-! # The LocalSend registry

The registry's state is behind one lock, but starting, stopping and discovering take it several
times and build or stop a server in between. A system is the state with the calls that are
between two of their sections; its actions are the sections and the blocking work between them,
in any order.
-/

namespace ZManager

namespace LocalSend

def maxQueuedEvents : Nat := 512

/-- Servers are told apart by the order in which they were built. -/
abbrev ServerId := Nat

/-- What of a device is read here. -/
structure DeviceInfo where
  deviceAlias : Text
  fingerprint : Text
  deriving DecidableEq

/-- A file that a request offers. -/
structure TransferFile where
  id : Text
  fileName : Text
  size : Nat
  fileType : Text
  deriving DecidableEq

/-- A request that waits for `respond_to_transfer`. -/
structure PendingRequest where
  sender : DeviceInfo
  files : List TransferFile
  deriving DecidableEq

/-- The events that are queued as they come. -/
inductive ForwardedEvent where
  | peerRegistered (device : DeviceInfo)
  | textReceived (sessionId text senderAlias : Text)
  | fileReceiveProgress (sessionId fileId fileName senderAlias : Text)
      (bytesReceived totalBytes fileCount : Nat)
  | fileReceived (sessionId fileId fileName path : Text)
  | sessionDone (sessionId : Text)

/-- What a server hands to its event pump. -/
inductive ServerEvent where
  | transferRequest (pending : PendingRequest)
  | forwarded (event : ForwardedEvent)
  /-- The browser-facing events, which are dropped. -/
  | webShare

/-- What `poll_events` returns; a request comes with the id to answer it by. -/
inductive QueuedEvent where
  | transferRequest (requestId : Text) (sender : DeviceInfo) (files : List TransferFile)
  | forwarded (event : ForwardedEvent)

/-- Failures of the bridge. -/
inductive BridgeError where
  | receiverAlreadyRunning
  | noReceiverRunning
  | unknownRequestId (requestId : Text)

/-! ## Sections under the lock -/

/-- The state behind the lock: the receiver, the requests by their ids, the number of the last one
and the queue. -/
structure RegistryState where
  server : Option ServerId := none
  pendingRequests : Text → Option PendingRequest := fun _ => none
  nextRequestId : Nat := 0
  events : List QueuedEvent := []

/-- `transfer-{process}-{number}` -/
def requestId (process number : Nat) : Text :=
  "transfer-".toList ++ Nat.toDigits 10 process ++ '-' :: Nat.toDigits 10 number

namespace RegistryState

/-- The first section of `start_receiver`. -/
def checkServer (state : RegistryState) : Except BridgeError Unit :=
  if state.server.isSome then .error .receiverAlreadyRunning else .ok ()

/-- The last section of `start_receiver`. -/
def storeServer (state : RegistryState) (server : ServerId) : RegistryState :=
  { state with server := some server }

/-- The last section of a `discover` that had a temporary server. -/
def clearRequests (state : RegistryState) : RegistryState :=
  { state with pendingRequests := fun _ => none }

/-- The section of `stop_receiver`. -/
def takeServer (state : RegistryState) : Except BridgeError ServerId × RegistryState :=
  let cleared := { state.clearRequests with server := none }
  match state.server with
  | none => (.error .noReceiverRunning, cleared)
  | some server => (.ok server, cleared)

/-- The first section of `absorb_event`, with the event to be queued. -/
def absorbEvent (process : Nat) (state : RegistryState) :
    ServerEvent → Option QueuedEvent × RegistryState
  | .transferRequest pending =>
    -- `saturating_add`
    let number := min (state.nextRequestId + 1) (2 ^ 64 - 1)
    let id := requestId process number
    (some (.transferRequest id pending.sender pending.files),
      { state with
        nextRequestId := number
        pendingRequests := Function.update state.pendingRequests id (some pending) })
  | .forwarded event => (some (.forwarded event), state)
  | .webShare => (none, state)

/-- The oldest event makes room in a queue that is full. -/
def pushEvent (state : RegistryState) (event : QueuedEvent) : RegistryState :=
  let kept := if maxQueuedEvents ≤ state.events.length then state.events.drop 1 else state.events
  { state with events := kept ++ [event] }

/-- Hands out the events that wait. -/
def pollEvents (state : RegistryState) : List QueuedEvent × RegistryState :=
  (state.events, { state with events := [] })

/-- The section of `respond_to_transfer`. -/
def takeRequest (state : RegistryState) (id : Text) :
    Except BridgeError PendingRequest × RegistryState :=
  match state.pendingRequests id with
  | none => (.error (.unknownRequestId id), state)
  | some pending =>
    (.ok pending, { state with pendingRequests := Function.update state.pendingRequests id none })

end RegistryState

/-! ## Calls in progress -/

/-- Where a call stands between two of its steps. -/
inductive Phase where
  /-- `start_receiver` has found no server and is about to build one. -/
  | starting
  /-- `start_receiver` has built its server. -/
  | built (server : ServerId)
  /-- `stop_receiver` has taken the server out and is about to stop it. -/
  | stopping (server : ServerId)
  /-- `discover` has found no server and is about to build a temporary one. -/
  | preparing
  /-- `discover` collects results. -/
  | sweeping (temporary : Option ServerId)
  /-- `discover` has stopped its temporary server. -/
  | stopped
  /-- An event pump has an event to queue. -/
  | queueing (event : QueuedEvent)

/-- The phases of `start_receiver` and `stop_receiver`. -/
def Phase.OfReceiver : Phase → Prop
  | starting => True
  | built _ => True
  | stopping _ => True
  | _ => False

/-- The registry with the calls in progress and the servers. -/
structure System where
  registry : RegistryState := {}
  calls : Nat → Option Phase := fun _ => none
  /-- How many servers were built. -/
  count : Nat := 0
  /-- The servers that `start_receiver` has built and nothing has stopped. -/
  running : List ServerId := []

namespace System

/-- Nothing has happened. -/
def Fresh (system : System) : Prop := system = {}

/-- A call goes on to a phase, or ends. -/
def goOn (system : System) (call : Nat) (phase : Option Phase) : System :=
  { system with calls := Function.update system.calls call phase }

@[simp] theorem goOn_calls_self (system : System) (call : Nat) (phase : Option Phase) :
    (system.goOn call phase).calls call = phase :=
  Function.update_self ..

theorem goOn_calls_of_ne (system : System) {call other : Nat} (apart : other ≠ call)
    (phase : Option Phase) : (system.goOn call phase).calls other = system.calls other :=
  Function.update_of_ne apart ..

end System

/-- The sections of the calls and the work between them. -/
inductive Action where
  | checkServer (call : Nat)
  | build (call : Nat) (succeeds : Bool)
  | storeServer (call : Nat)
  | takeServer (call : Nat)
  | stopServer (call : Nat)
  /-- `discover` looks whether a server is running. -/
  | lookForServer (call : Nat)
  | listen (call : Nat) (succeeds : Bool)
  /-- The sweep is over or was not begun, and a temporary server is stopped. -/
  | endSweep (call : Nat)
  | clearRequests (call : Nat)
  /-- The pump of a server absorbs an event. -/
  | absorbEvent (call : Nat) (source : ServerId) (event : ServerEvent)
  | pushEvent (call : Nat)
  | pollEvents
  | respondToTransfer (requestId : Text)

/-- One step of the system, where it is possible. -/
def step (process : Nat) (system : System) : Action → Option System
  | .checkServer call =>
    match system.calls call with
    | none =>
      match system.registry.checkServer with
      | .ok () => some (system.goOn call (some .starting))
      | .error _ => some system
    | some _ => none
  | .build call succeeds =>
    match system.calls call with
    | some .starting =>
      if succeeds then
        some { system.goOn call (some (.built system.count)) with
          count := system.count + 1
          running := system.count :: system.running }
      else some (system.goOn call none)
    | _ => none
  | .storeServer call =>
    match system.calls call with
    | some (.built server) =>
      some { system.goOn call none with registry := system.registry.storeServer server }
    | _ => none
  | .takeServer call =>
    match system.calls call with
    | none =>
      match system.registry.takeServer with
      | (.ok server, registry) =>
        some { system.goOn call (some (.stopping server)) with registry := registry }
      | (.error _, registry) => some { system with registry := registry }
    | some _ => none
  | .stopServer call =>
    match system.calls call with
    | some (.stopping server) =>
      some { system.goOn call none with running := system.running.filter (· ≠ server) }
    | _ => none
  | .lookForServer call =>
    match system.calls call with
    | none =>
      match system.registry.server with
      | none => some (system.goOn call (some .preparing))
      | some _ => some (system.goOn call (some (.sweeping none)))
    | some _ => none
  | .listen call succeeds =>
    match system.calls call with
    | some .preparing =>
      if succeeds then
        some { system.goOn call (some (.sweeping (some system.count))) with
          count := system.count + 1 }
      else some (system.goOn call (some (.sweeping none)))
    | _ => none
  | .endSweep call =>
    match system.calls call with
    -- no address to sweep from
    | some .preparing => some (system.goOn call none)
    | some (.sweeping none) => some (system.goOn call none)
    | some (.sweeping (some _)) => some (system.goOn call (some .stopped))
    | _ => none
  | .clearRequests call =>
    match system.calls call with
    | some .stopped =>
      some { system.goOn call none with registry := system.registry.clearRequests }
    | _ => none
  | .absorbEvent call source event =>
    match system.calls call with
    | none =>
      if source < system.count then
        match system.registry.absorbEvent process event with
        | (some queued, registry) =>
          some { system.goOn call (some (.queueing queued)) with registry := registry }
        | (none, registry) => some { system with registry := registry }
      else none
    | some _ => none
  | .pushEvent call =>
    match system.calls call with
    | some (.queueing event) =>
      some { system.goOn call none with registry := system.registry.pushEvent event }
    | _ => none
  | .pollEvents => some { system with registry := system.registry.pollEvents.2 }
  | .respondToTransfer id =>
    some { system with registry := (system.registry.takeRequest id).2 }

/-! ## What a step can do -/

/-- The steps, each with what it finds and what it leaves. -/
inductive Takes (process : Nat) (system : System) : Action → System → Prop
  | starts {call : Nat} (idle : system.calls call = none)
      (empty : system.registry.server = none) :
      Takes process system (.checkServer call) (system.goOn call (some .starting))
  | finds {call : Nat} : Takes process system (.checkServer call) system
  | builds {call : Nat} (starting : system.calls call = some .starting) :
      Takes process system (.build call true)
        { system.goOn call (some (.built system.count)) with
          count := system.count + 1
          running := system.count :: system.running }
  | failsToBuild {call : Nat} (starting : system.calls call = some .starting) :
      Takes process system (.build call false) (system.goOn call none)
  | stores {call : Nat} {server : ServerId} (built : system.calls call = some (.built server)) :
      Takes process system (.storeServer call)
        { system.goOn call none with registry := system.registry.storeServer server }
  | takes {call : Nat} {server : ServerId} (idle : system.calls call = none)
      (stored : system.registry.server = some server) :
      Takes process system (.takeServer call)
        { system.goOn call (some (.stopping server)) with
          registry := { system.registry.clearRequests with server := none } }
  | takesNone {call : Nat} (empty : system.registry.server = none) :
      Takes process system (.takeServer call)
        { system with registry := { system.registry.clearRequests with server := none } }
  | stops {call : Nat} {server : ServerId}
      (stopping : system.calls call = some (.stopping server)) :
      Takes process system (.stopServer call)
        { system.goOn call none with running := system.running.filter (· ≠ server) }
  | prepares {call : Nat} (idle : system.calls call = none)
      (empty : system.registry.server = none) :
      Takes process system (.lookForServer call) (system.goOn call (some .preparing))
  | reuses {call : Nat} (idle : system.calls call = none) :
      Takes process system (.lookForServer call) (system.goOn call (some (.sweeping none)))
  | listens {call : Nat} (preparing : system.calls call = some .preparing) :
      Takes process system (.listen call true)
        { system.goOn call (some (.sweeping (some system.count))) with
          count := system.count + 1 }
  | failsToListen {call : Nat} (preparing : system.calls call = some .preparing) :
      Takes process system (.listen call false) (system.goOn call (some (.sweeping none)))
  | givesUp {call : Nat} (preparing : system.calls call = some .preparing) :
      Takes process system (.endSweep call) (system.goOn call none)
  | ends {call : Nat} (sweeping : system.calls call = some (.sweeping none)) :
      Takes process system (.endSweep call) (system.goOn call none)
  | stopsTemporary {call : Nat} {server : ServerId}
      (sweeping : system.calls call = some (.sweeping (some server))) :
      Takes process system (.endSweep call) (system.goOn call (some .stopped))
  | clears {call : Nat} (stopped : system.calls call = some .stopped) :
      Takes process system (.clearRequests call)
        { system.goOn call none with registry := system.registry.clearRequests }
  | absorbs {call source : Nat} {event : ServerEvent} {queued : QueuedEvent}
      (idle : system.calls call = none)
      (absorbed : (system.registry.absorbEvent process event).1 = some queued) :
      Takes process system (.absorbEvent call source event)
        { system.goOn call (some (.queueing queued)) with
          registry := (system.registry.absorbEvent process event).2 }
  | drops {call source : Nat} {event : ServerEvent}
      (dropped : (system.registry.absorbEvent process event).1 = none) :
      Takes process system (.absorbEvent call source event)
        { system with registry := (system.registry.absorbEvent process event).2 }
  | pushes {call : Nat} {event : QueuedEvent}
      (queueing : system.calls call = some (.queueing event)) :
      Takes process system (.pushEvent call)
        { system.goOn call none with registry := system.registry.pushEvent event }
  | polls : Takes process system .pollEvents
      { system with registry := system.registry.pollEvents.2 }
  | responds {id : Text} : Takes process system (.respondToTransfer id)
      { system with registry := (system.registry.takeRequest id).2 }

theorem takes_of_step {process : Nat} {system next : System} {action : Action}
    (taken : step process system action = some next) : Takes process system action next := by
  cases action with
  | checkServer call =>
    simp only [step, RegistryState.checkServer] at taken
    split at taken
    · next idle =>
      cases stored : system.registry.server with
      | none =>
        rw [stored] at taken
        cases taken
        exact .starts idle stored
      | some server =>
        rw [stored] at taken
        cases taken
        exact .finds
    · cases taken
  | build call succeeds =>
    simp only [step] at taken
    split at taken
    · next starting =>
      cases succeeds <;> cases taken
      · exact .failsToBuild starting
      · exact .builds starting
    · cases taken
  | storeServer call =>
    simp only [step] at taken
    split at taken <;> cases taken
    next server built => exact .stores built
  | takeServer call =>
    simp only [step, RegistryState.takeServer] at taken
    split at taken
    · next idle =>
      cases stored : system.registry.server with
      | none =>
        rw [stored] at taken
        cases taken
        exact .takesNone stored
      | some server =>
        rw [stored] at taken
        cases taken
        exact .takes idle stored
    · cases taken
  | stopServer call =>
    simp only [step] at taken
    split at taken <;> cases taken
    next server stopping => exact .stops stopping
  | lookForServer call =>
    simp only [step] at taken
    split at taken
    · next idle =>
      split at taken <;> cases taken
      · next empty => exact .prepares idle empty
      · exact .reuses idle
    · cases taken
  | listen call succeeds =>
    simp only [step] at taken
    split at taken
    · next preparing =>
      cases succeeds <;> cases taken
      · exact .failsToListen preparing
      · exact .listens preparing
    · cases taken
  | endSweep call =>
    simp only [step] at taken
    split at taken <;> cases taken
    · next preparing => exact .givesUp preparing
    · next sweeping => exact .ends sweeping
    · next sweeping => exact .stopsTemporary sweeping
  | clearRequests call =>
    simp only [step] at taken
    split at taken <;> cases taken
    next stopped => exact .clears stopped
  | absorbEvent call source event =>
    simp only [step] at taken
    split at taken
    · next idle =>
      split at taken
      · split at taken <;> cases taken
        · next queued registry absorbed =>
          obtain rfl : _ = registry := congrArg Prod.snd absorbed
          exact .absorbs idle (congrArg Prod.fst absorbed)
        · next registry absorbed =>
          obtain rfl : _ = registry := congrArg Prod.snd absorbed
          exact .drops (congrArg Prod.fst absorbed)
      · cases taken
    · cases taken
  | pushEvent call =>
    simp only [step] at taken
    split at taken <;> cases taken
    next event queueing => exact .pushes queueing
  | pollEvents =>
    cases taken
    exact .polls
  | respondToTransfer id =>
    cases taken
    exact .responds

end LocalSend

end ZManager
