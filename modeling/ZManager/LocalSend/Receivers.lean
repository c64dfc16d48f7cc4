import ZManager.Foundation.Ownership
import ZManager.LocalSend.Registry

/-! # Running receivers

`start_receiver` looks for a server in one section and stores its own in another. As long as
none is stored over another, every receiver that runs is either the stored one or in the hands of
a call in progress.
-/

namespace ZManager

namespace LocalSend

/-- The receiver in the hands of a call. -/
def Phase.server : Phase → Option ServerId
  | built server => some server
  | stopping server => some server
  | _ => none

namespace System

/-- The receiver that the state (`none`) or a call holds. -/
def receiverAt (system : System) : Option Nat → Option ServerId
  | none => system.registry.server
  | some call => (system.calls call).bind Phase.server

theorem receiverAt_goOn (system : System) (call : Nat) (phase : Option Phase) :
    (system.goOn call phase).receiverAt =
      Function.update system.receiverAt (some call) (phase.bind Phase.server) := by
  funext place
  cases place with
  | none => rfl
  | some other =>
    by_cases same : other = call
    · rw [same, Function.update_self]
      exact congrArg (fun found => Option.bind found Phase.server) (goOn_calls_self ..)
    · rw [Function.update_of_ne (by simpa using same)]
      exact congrArg (fun found => Option.bind found Phase.server) (goOn_calls_of_ne _ same _)

/-- A call that holds no receiver goes on to a phase without one. -/
theorem receiverAt_goOn_of_none {system : System} {call : Nat} {before : Option Phase}
    (found : system.calls call = before) (one : before.bind Phase.server = none)
    (phase : Option Phase) (two : phase.bind Phase.server = none) :
    (system.goOn call phase).receiverAt = system.receiverAt := by
  rw [receiverAt_goOn, two, Function.update_eq_self_iff]
  rw [← one, ← found]
  rfl

/-- A receiver in the state. -/
theorem receiverAt_withRegistry (system : System) (registry : RegistryState) :
    ({ system with registry := registry } : System).receiverAt =
      Function.update system.receiverAt none registry.server := by
  funext place
  cases place with
  | none => rw [Function.update_self]; rfl
  | some call => rw [Function.update_of_ne (by simp)]; rfl

theorem receiverAt_withRegistry_of_server {system : System} {registry : RegistryState}
    (same : registry.server = system.registry.server) :
    ({ system with registry := registry } : System).receiverAt = system.receiverAt := by
  rw [receiverAt_withRegistry, same, Function.update_eq_self_iff]
  rfl

/-- Every running receiver is in one place, and the next one to be built is new. -/
structure KeepsReceivers (system : System) : Prop where
  owned : Owned system.receiverAt system.running
  below : ∀ server ∈ system.running, server < system.count

theorem KeepsReceivers.of_eq {system next : System} (kept : system.KeepsReceivers)
    (places : next.receiverAt = system.receiverAt) (running : next.running = system.running)
    (grows : system.count ≤ next.count) : next.KeepsReceivers where
  owned := by rw [places, running]; exact kept.owned
  below server member := Nat.lt_of_lt_of_le (kept.below server (running ▸ member)) grows

end System

/-- `start_receiver` stores its server only where none is stored. -/
def StoresIntoEmpty (system : System) : Action → Prop
  | .storeServer _ => system.registry.server = none
  | _ => True

/-! ## One step -/

namespace System.KeepsReceivers

variable {system next : System} {process call : Nat} {server : ServerId}

section

variable (kept : system.KeepsReceivers)
include kept

theorem build (starting : system.calls call = some .starting) :
    ({ system.goOn call (some (.built system.count)) with
      count := system.count + 1
      running := system.count :: system.running } : System).KeepsReceivers := by
  have empty : system.receiverAt (some call) = none := by
    rw [receiverAt, starting]
    rfl
  have fresh : system.count ∉ system.running :=
    fun member => Nat.lt_irrefl _ (kept.below _ member)
  have places := receiverAt_goOn system call (some (.built system.count))
  constructor
  · show Owned (system.goOn call (some (.built system.count))).receiverAt _
    rw [places]
    exact kept.owned.acquire empty fresh
  · intro server member
    rcases List.mem_cons.mp member with rfl | old
    · exact Nat.lt_succ_self _
    · exact Nat.lt_succ_of_lt (kept.below _ old)

theorem storeServer (built : system.calls call = some (.built server))
    (empty : system.registry.server = none) :
    ({ system.goOn call none with
      registry := system.registry.storeServer server } : System).KeepsReceivers := by
  have holding : system.receiverAt (some call) = some server := by
    rw [receiverAt, built]
    rfl
  refine ⟨?_, kept.below⟩
  rw [receiverAt_withRegistry, receiverAt_goOn]
  exact kept.owned.move holding empty

theorem takeServer (idle : system.calls call = none)
    (stored : system.registry.server = some server) :
    ({ system.goOn call (some (.stopping server)) with
      registry := { system.registry.clearRequests with server := none } } :
        System).KeepsReceivers := by
  have empty : system.receiverAt (some call) = none := by
    rw [receiverAt, idle]
    rfl
  refine ⟨?_, kept.below⟩
  rw [receiverAt_withRegistry, receiverAt_goOn,
    Function.update_comm (by simp : (some call : Option Nat) ≠ none)]
  exact kept.owned.move stored empty

theorem stopServer (stopping : system.calls call = some (.stopping server)) :
    ({ system.goOn call none with
      running := system.running.filter (· ≠ server) } : System).KeepsReceivers := by
  have holding : system.receiverAt (some call) = some server := by
    rw [receiverAt, stopping]
    rfl
  constructor
  · show Owned (system.goOn call none).receiverAt _
    rw [receiverAt_goOn]
    exact kept.owned.release holding
  · exact fun other member => kept.below other (List.mem_of_mem_filter member)

/-- A call that holds no receiver goes on to a phase without one. -/
theorem goOn {before : Option Phase} (found : system.calls call = before)
    (one : before.bind Phase.server = none) (phase : Option Phase)
    (two : phase.bind Phase.server = none) :
    (system.goOn call phase).KeepsReceivers :=
  kept.of_eq (receiverAt_goOn_of_none found one phase two) rfl (Nat.le_refl _)

/-- The section of a call leaves the stored server. -/
theorem withRegistry {registry : RegistryState} (same : registry.server = system.registry.server) :
    ({ system with registry := registry } : System).KeepsReceivers :=
  kept.of_eq (receiverAt_withRegistry_of_server same) rfl (Nat.le_refl _)

end

theorem step (kept : system.KeepsReceivers) {action : Action}
    (may : StoresIntoEmpty system action)
    (taken : LocalSend.step process system action = some next) : next.KeepsReceivers := by
  cases takes_of_step taken with
  | starts idle _ => exact kept.goOn idle rfl _ rfl
  | finds => exact kept
  | builds starting => exact kept.build starting
  | failsToBuild starting => exact kept.goOn starting rfl _ rfl
  | stores built => exact kept.storeServer built may
  | takes idle stored => exact kept.takeServer idle stored
  | takesNone empty => exact kept.withRegistry empty.symm
  | stops stopping => exact kept.stopServer stopping
  | prepares idle _ => exact kept.goOn idle rfl _ rfl
  | reuses idle => exact kept.goOn idle rfl _ rfl
  | @listens call preparing =>
    have gone := kept.goOn preparing rfl (some (.sweeping (some system.count))) rfl
    exact gone.of_eq rfl rfl (Nat.le_succ _)
  | failsToListen preparing => exact kept.goOn preparing rfl _ rfl
  | givesUp preparing => exact kept.goOn preparing rfl _ rfl
  | ends sweeping => exact kept.goOn sweeping rfl _ rfl
  | stopsTemporary sweeping => exact kept.goOn sweeping rfl _ rfl
  | clears stopped => exact (kept.goOn stopped rfl none rfl).withRegistry rfl
  | @absorbs call source event queued idle _ =>
    have same : (system.registry.absorbEvent process event).2.server = system.registry.server := by
      cases event <;> rfl
    exact (kept.goOn idle rfl (some (.queueing queued)) rfl).withRegistry same
  | @drops call source event _ =>
    have same : (system.registry.absorbEvent process event).2.server = system.registry.server := by
      cases event <;> rfl
    exact kept.withRegistry same
  | pushes queueing => exact (kept.goOn queueing rfl none rfl).withRegistry rfl
  | polls => exact kept.withRegistry rfl
  | responds =>
    apply kept.withRegistry
    rw [RegistryState.takeRequest]
    split <;> rfl

end System.KeepsReceivers

/-! ## Whole runs -/

/-- The servers that `start_receiver` built and nothing stopped are the stored one. -/
def System.RunsStored (system : System) : Prop :=
  ∀ server, server ∈ system.running ↔ system.registry.server = some server

/-- No call of `start_receiver` or `stop_receiver` is in progress. -/
def System.Quiet (system : System) : Prop :=
  ∀ call phase, system.calls call = some phase → ¬ phase.OfReceiver

theorem Phase.ofReceiver_of_server {phase : Phase} {server : ServerId}
    (found : phase.server = some server) : phase.OfReceiver := by
  cases phase with
  | built => trivial
  | stopping => trivial
  | _ => cases found

theorem System.keepsReceivers_empty : System.KeepsReceivers {} where
  owned := ⟨fun server => ⟨fun member => absurd member List.not_mem_nil,
      fun ⟨place, found⟩ => by cases place <;> cases found⟩,
    fun place other server found => by cases place <;> cases found⟩
  below server member := absurd member List.not_mem_nil

/-- **One receiver.** In every run in which `start_receiver` stores its server only where none is
stored, every receiver that runs is the stored one or in the hands of a call in progress, and
when no such call is in progress it is the stored one. -/
theorem receivers_are_held {process : Nat} {system : System}
    (reached : Reaches (step process) StoresIntoEmpty System.Fresh system) :
    (∀ server ∈ system.running, system.registry.server = some server ∨
      ∃ call phase, system.calls call = some phase ∧ phase.server = some server) ∧
    (system.Quiet → system.RunsStored) := by
  have kept : system.KeepsReceivers := by
    refine Reaches.invariant ?_ ?_ reached
    · rintro state rfl
      exact System.keepsReceivers_empty
    · intro state action next kept may taken
      exact kept.step may taken
  have holders : ∀ server ∈ system.running, system.registry.server = some server ∨
      ∃ call phase, system.calls call = some phase ∧ phase.server = some server := by
    intro server member
    obtain ⟨place, found⟩ := (kept.owned.held server).mp member
    cases place with
    | none => exact .inl found
    | some call =>
      obtain ⟨phase, at_, holding⟩ := Option.bind_eq_some_iff.mp found
      exact .inr ⟨call, phase, at_, holding⟩
  refine ⟨holders, fun quiet server => ⟨fun member => ?_, fun stored => ?_⟩⟩
  · obtain stored | ⟨call, phase, found, holding⟩ := holders server member
    · exact stored
    · exact absurd (Phase.ofReceiver_of_server holding) (quiet call phase found)
  · exact (kept.owned.held server).mpr ⟨none, stored⟩

/-- The steps of `start_receiver` and `stop_receiver`, with builds that succeed. -/
def Action.OfReceivers : Action → Prop
  | .checkServer _ => True
  | .build _ succeeds => succeeds
  | .storeServer _ => True
  | .takeServer _ => True
  | .stopServer _ => True
  | _ => False

/-- Two starts both find no server, both build one and both store it. -/
def twoStarts : List Action :=
  [.checkServer 0, .checkServer 1, .build 0 true, .build 1 true, .storeServer 0, .storeServer 1]

theorem overlapping_starts_lose_receiver :
    ¬ ∀ (process : Nat) (system : System),
      Reaches (step process) (fun _ action => action.OfReceivers) System.Fresh system →
        system.Quiet → system.RunsStored := by
  intro always
  obtain ⟨system, run, calls, running, stored⟩ :
      ∃ system, runActions (step 0) {} twoStarts = some system ∧
        system.calls = (fun _ => none) ∧ system.running = [1, 0] ∧
        system.registry.server = some 1 := by
    refine ⟨_, rfl, ?_, rfl, rfl⟩
    funext call
    by_cases first : call = 0 <;> by_cases second : call = 1 <;>
      simp [System.goOn, Function.update, first, second]
  have may : ∀ action ∈ twoStarts, action.OfReceivers := by
    simp [twoStarts, Action.OfReceivers]
  have started : Reaches (step 0) (fun _ action => action.OfReceivers) System.Fresh {} :=
    .start rfl
  have reached := started.runActions (fun _ => may) run
  have quiet : system.Quiet := by
    intro call phase found
    rw [calls] at found
    cases found
  have lost := (always 0 system reached quiet 0).mp (by simp [running])
  rw [stored] at lost
  cases lost

/-- A receiver is stopped while a discovery goes on, after another start has found it, and then
another one is started. -/
theorem receivers_are_held_sample : ∃ system : System,
    system.running = [1] ∧ (system.Quiet → system.RunsStored) := by
  have fresh : Reaches (step 0) StoresIntoEmpty System.Fresh {} := .start rfl
  have started := fresh.take (.checkServer 0) trivial rfl
  have built := started.take (.build 0 true) trivial rfl
  have stored := built.take (.storeServer 0) rfl rfl
  have found := stored.take (.checkServer 1) trivial rfl
  have discovering := found.take (.lookForServer 2) trivial rfl
  have taken := discovering.take (.takeServer 0) trivial rfl
  have stopped := taken.take (.stopServer 0) trivial rfl
  have again := stopped.take (.checkServer 1) trivial rfl
  have rebuilt := again.take (.build 1 true) trivial rfl
  have held := rebuilt.take (.storeServer 1) rfl rfl
  have ended := held.take (.endSweep 2) trivial rfl
  exact ⟨_, rfl, (receivers_are_held ended).2⟩

end LocalSend

end ZManager
