import ZManager.Foundation.Step
import ZManager.Identity.AuthFlowStore

/-! # Sign-in flows over whole histories

Every call keeps the records of the slot consistent after each of its writes, so
a call may stop anywhere. What a history needs besides is that no stale value is
taken for pending: `begin_exchange` trusts the phase of the value it is given.
-/

namespace ZManager.Identity

/-! ## The records -/

/-- The invariant of the durable records: a secret is the one that the metadata names,
its phase is the latest that was stored, and all names are generated references. -/
structure AuthStore.Inv (generated : List Text) (store : AuthStore) : Prop where
  tracked : ∀ reference record, store.secrets reference = some record →
    ∃ binding, store.metadata = some binding ∧ binding.secretReference = reference
  forward : ∀ entry ∈ store.written, ∀ reference record,
    store.secrets reference = some record → record.binding.flowId = entry.1 →
      entry.2.rank ≤ record.binding.phase.rank
  secretNames : ∀ reference record, store.secrets reference = some record →
    record.binding.flowId = reference ∧ record.binding.secretReference = reference
  metadataNames : ∀ binding, store.metadata = some binding →
    binding.flowId = binding.secretReference ∧ binding.secretReference ∈ generated
  writtenNames : ∀ entry ∈ store.written, entry.1 ∈ generated

/-- A flow value names one generated reference throughout. -/
structure SavedAuthFlow.Named (generated : List Text) (flow : SavedAuthFlow) : Prop where
  flowId : flow.flowId = flow.reference
  bindingFlow : flow.publicBinding.flowId = flow.reference
  bindingSecret : flow.publicBinding.secretReference = flow.reference
  phase : flow.publicBinding.phase = flow.phase
  generated : flow.reference ∈ generated

theorem SavedAuthFlow.Named.generate {generated : List Text} {flow : SavedAuthFlow}
    (named : flow.Named generated) (reference : Text) : flow.Named (reference :: generated) :=
  { named with generated := List.mem_cons_of_mem _ named.generated }

/-- The records keep the invariant after each write. -/
def AuthStore.Keeps (generated : List Text) (store : AuthStore) (effects : List AuthEffect) :
    Prop :=
  Along AuthStore.apply (AuthStore.Inv generated) store effects

namespace AuthStore.Inv

variable {generated : List Text} {store : AuthStore}

theorem fresh : AuthStore.Inv generated ⟨none, fun _ => none, []⟩ where
  tracked := fun reference record held => by cases held
  forward := fun entry member => by cases member
  secretNames := fun reference record held => by cases held
  metadataNames := fun binding held => by cases held
  writtenNames := fun entry member => by cases member

theorem generate (inv : AuthStore.Inv generated store) (reference : Text) :
    AuthStore.Inv (reference :: generated) store :=
  { inv with
    metadataNames := fun binding held => ⟨(inv.metadataNames binding held).1,
      List.mem_cons_of_mem _ (inv.metadataNames binding held).2⟩
    writtenNames := fun entry member => List.mem_cons_of_mem _ (inv.writtenNames entry member) }

/-- Secrets under other references than the one of the metadata do not exist. -/
theorem reference_eq (inv : AuthStore.Inv generated store) {binding : AuthBinding}
    (held : store.metadata = some binding) {reference : Text} {record : SecureAuthRecord}
    (stored : store.secrets reference = some record) : binding.secretReference = reference := by
  obtain ⟨named, same, rfl⟩ := inv.tracked reference record stored
  rw [Option.some.inj (held.symm.trans same)]

theorem publish (inv : AuthStore.Inv generated store) {binding : AuthBinding}
    (names : binding.flowId = binding.secretReference)
    (known : binding.secretReference ∈ generated)
    (only : ∀ reference record, store.secrets reference = some record →
      binding.secretReference = reference) :
    AuthStore.Inv generated (store.apply (.publishMetadata binding)) :=
  { inv with
    tracked := fun reference record held => ⟨binding, rfl, only reference record held⟩
    metadataNames := fun other held => by
      obtain rfl := Option.some.inj held
      exact ⟨names, known⟩ }

theorem writeSecret (inv : AuthStore.Inv generated store) {binding : AuthBinding}
    (held : store.metadata = some binding) (record : SecureAuthRecord) {reference : Text}
    (names : binding.secretReference = reference) (flowId : record.binding.flowId = reference)
    (secret : record.binding.secretReference = reference)
    (later : ∀ entry ∈ store.written, entry.1 = reference →
      entry.2.rank ≤ record.binding.phase.rank) :
    AuthStore.Inv generated (store.apply (.writeSecret reference record)) := by
  have secrets : ∀ other found, (store.apply (.writeSecret reference record)).secrets other =
      some found → other = reference ∧ found = record := by
    intro other found stored
    change Function.update store.secrets reference (some record) other = some found at stored
    rw [Function.update_apply] at stored
    split_ifs at stored with same
    · exact ⟨same, (Option.some.inj stored).symm⟩
    · exact absurd (names.symm.trans (inv.reference_eq held stored)).symm same
  refine ⟨?_, ?_, ?_, inv.metadataNames, ?_⟩
  · intro other found stored
    obtain ⟨rfl, rfl⟩ := secrets other found stored
    exact ⟨binding, held, names⟩
  · intro entry member other found stored same
    obtain ⟨rfl, rfl⟩ := secrets other found stored
    rcases List.mem_cons.mp member with rfl | before
    · exact le_refl _
    · exact later entry before (same.symm.trans flowId)
  · intro other found stored
    obtain ⟨rfl, rfl⟩ := secrets other found stored
    exact ⟨flowId, secret⟩
  · intro entry member
    rcases List.mem_cons.mp member with rfl | before
    · change record.binding.flowId ∈ generated
      rw [flowId, ← names]
      exact (inv.metadataNames binding held).2
    · exact inv.writtenNames entry before

theorem deleteSecret (inv : AuthStore.Inv generated store) (reference : Text) :
    AuthStore.Inv generated (store.apply (.deleteSecret reference)) := by
  have before : ∀ other found, (store.apply (.deleteSecret reference)).secrets other =
      some found → store.secrets other = some found := by
    intro other found stored
    change Function.update store.secrets reference none other = some found at stored
    rw [Function.update_apply] at stored
    split_ifs at stored
    exact stored
  exact
    { inv with
      tracked := fun other found stored => inv.tracked other found (before other found stored)
      forward := fun entry member other found stored =>
        inv.forward entry member other found (before other found stored)
      secretNames := fun other found stored =>
        inv.secretNames other found (before other found stored) }

theorem removeMetadata (inv : AuthStore.Inv generated store)
    (empty : ∀ reference, store.secrets reference = none) :
    AuthStore.Inv generated (store.apply .removeMetadata) :=
  { inv with
    tracked := fun reference record held => by
      change store.secrets reference = some record at held
      rw [empty reference] at held
      cases held
    metadataNames := fun binding held => by cases held }

end AuthStore.Inv

/-! ## The calls -/

namespace AuthSlot

variable {checks : AuthChecks} {slot : AuthSlot} {generated : List Text} {store : AuthStore}
  {flow : SavedAuthFlow} {effects : List AuthEffect}

theorem metadata_eq_ok {found : Option AuthBinding} (read : metadata checks store = .ok found) :
    store.metadata = found := by
  unfold metadata at read
  split at read
  · rename_i none
    rw [none]
    exact Except.ok.inj read
  · rename_i binding held
    split_ifs at read
    rw [held]
    exact Except.ok.inj read

theorem requireSameFlow_eq_ok (same : requireSameFlow checks store flow = .ok ()) :
    ∃ current, store.metadata = some current ∧ current.flowId = flow.flowId ∧
      current.secretReference = flow.reference := by
  obtain ⟨found, read, same⟩ := Except.bind_eq_ok_iff.mp same
  have held := metadata_eq_ok read
  cases found with
  | none => cases same
  | some current =>
    dsimp only at same
    split_ifs at same with differs
    simp only [Bool.or_eq_true, decide_eq_true_eq, ne_eq, not_or, not_not] at differs
    exact ⟨current, held, differs⟩

/-- Clearing leaves neither metadata nor secrets, and the records are consistent after
each of its writes. -/
theorem clearMetadataRecord_keeps (inv : AuthStore.Inv generated store)
    {current binding : AuthBinding} (held : store.metadata = some current)
    (names : current.secretReference = binding.secretReference)
    (planned : slot.clearMetadataRecord store binding = .ok effects) :
    store.Keeps generated effects ∧ (effects.foldl AuthStore.apply store).metadata = none ∧
      (∀ reference, (effects.foldl AuthStore.apply store).secrets reference = none) ∧
      (effects.foldl AuthStore.apply store).written = store.written := by
  unfold clearMetadataRecord at planned
  split at planned
  · rename_i missing
    obtain rfl := Except.ok.inj planned
    have empty : ∀ reference, store.secrets reference = none := by
      intro reference
      by_contra present
      obtain ⟨record, stored⟩ := Option.ne_none_iff_exists'.mp present
      have same := inv.reference_eq held stored
      rw [← same, names, missing] at stored
      cases stored
    exact ⟨⟨inv, inv.removeMetadata empty⟩, rfl, empty, rfl⟩
  · rename_i secure stored
    split_ifs at planned
    obtain rfl := Except.ok.inj planned
    have deleted := inv.deleteSecret binding.secretReference
    have empty : ∀ reference,
        (store.apply (.deleteSecret binding.secretReference)).secrets reference = none := by
      intro reference
      change Function.update store.secrets binding.secretReference none reference = none
      rw [Function.update_apply]
      split_ifs with same
      · rfl
      · by_contra present
        obtain ⟨record, kept⟩ := Option.ne_none_iff_exists'.mp present
        exact same ((inv.reference_eq held kept).symm.trans names)
    exact ⟨⟨inv, deleted, deleted.removeMetadata empty⟩, rfl, empty, rfl⟩

theorem persist_eq_ok {creating : Bool} (planned : persist checks flow creating = .ok effects) :
    effects = if creating then
      [.publishMetadata flow.publicBinding,
        .writeSecret flow.reference ⟨flow.publicBinding, flow.pending.verifier⟩]
      else [.writeSecret flow.reference ⟨flow.publicBinding, flow.pending.verifier⟩,
        .publishMetadata flow.publicBinding] := by
  unfold persist at planned
  split_ifs at planned with large creates
  · rw [if_pos creates]
    exact (Except.ok.inj planned).symm
  · rw [if_neg creates]
    exact (Except.ok.inj planned).symm

/-- The writes of a transition, when no later phase of the flow was stored before. -/
theorem persist_transition_keeps (inv : AuthStore.Inv generated store)
    (named : flow.Named generated) {current : AuthBinding} (held : store.metadata = some current)
    (names : current.secretReference = flow.reference)
    (later : ∀ entry ∈ store.written, entry.1 = flow.reference →
      entry.2.rank ≤ flow.phase.rank)
    (planned : persist checks flow false = .ok effects) :
    store.Keeps generated effects ∧
      (flow.reference, flow.phase) ∈ (effects.foldl AuthStore.apply store).written := by
  obtain rfl := persist_eq_ok planned
  have wrote := inv.writeSecret held ⟨flow.publicBinding, flow.pending.verifier⟩ names
    named.bindingFlow named.bindingSecret (by rw [named.phase]; exact later)
  refine ⟨⟨inv, wrote, ?_⟩, ?_⟩
  · apply wrote.publish
    · rw [named.bindingFlow, named.bindingSecret]
    · rw [named.bindingSecret]
      exact named.generated
    · intro reference record stored
      rw [named.bindingSecret, ← names]
      exact wrote.reference_eq held stored
  · change _ ∈ (flow.publicBinding.flowId, flow.publicBinding.phase) :: store.written
    rw [named.bindingFlow, named.phase]
    exact List.mem_cons_self

theorem discardExisting_keeps (inv : AuthStore.Inv generated store) {restart : Bool} {now : Nat}
    (planned : slot.discardExisting checks store restart now = .ok effects) :
    store.Keeps generated effects ∧ (effects.foldl AuthStore.apply store).metadata = none ∧
      (∀ reference, (effects.foldl AuthStore.apply store).secrets reference = none) ∧
      (effects.foldl AuthStore.apply store).written = store.written := by
  obtain ⟨found, read, planned⟩ := Except.bind_eq_ok_iff.mp planned
  have held := metadata_eq_ok read
  cases found with
  | none =>
    obtain rfl := Except.ok.inj planned
    have empty : ∀ reference, store.secrets reference = none := by
      intro reference
      by_contra present
      obtain ⟨record, stored⟩ := Option.ne_none_iff_exists'.mp present
      obtain ⟨_, named, _⟩ := inv.tracked reference record stored
      rw [held] at named
      cases named
    exact ⟨inv, held, empty, rfl⟩
  | some existing =>
    dsimp only at planned
    split_ifs at planned
    exact clearMetadataRecord_keeps inv held rfl planned

/-- The writes of a creation under a new reference, and the flow value. -/
theorem create_keeps (inv : AuthStore.Inv generated store) {pending : PendingAuthState}
    {config : HostedAuthLaunchConfig} {restart : Bool} {now : Nat} {reference : Text}
    (new : reference ∉ generated)
    (planned : slot.create checks store pending config restart now reference =
      .ok (effects, flow)) :
    store.Keeps (reference :: generated) effects ∧ flow.Named (reference :: generated) := by
  unfold create at planned
  split_ifs at planned
  obtain ⟨discards, discarded, planned⟩ := Except.bind_eq_ok_iff.mp planned
  obtain ⟨writes, persisted, planned⟩ := Except.bind_eq_ok_iff.mp planned
  obtain ⟨rfl, rfl⟩ := Prod.mk.inj (Except.ok.inj planned)
  obtain rfl := persist_eq_ok persisted
  have known := inv.generate reference
  obtain ⟨keeps, _, empty, written⟩ := discardExisting_keeps known discarded
  have published := @AuthStore.Inv.publish _ _ keeps.finish
    (slot.newBinding pending config reference) rfl List.mem_cons_self (by
      intro other record stored
      rw [empty other] at stored
      cases stored)
  refine ⟨keeps.append ⟨keeps.finish, published, ?_⟩,
    ⟨rfl, rfl, rfl, rfl, List.mem_cons_self⟩⟩
  apply published.writeSecret rfl _ rfl rfl rfl
  intro entry member same
  -- nothing was stored yet for a reference that is new
  change entry ∈ (discards.foldl AuthStore.apply store).written at member
  rw [written] at member
  have old := inv.writtenNames entry member
  rw [same] at old
  exact absurd old new

theorem advance_named (named : flow.Named generated) (phase : AuthPhase) :
    (advance flow phase).Named generated :=
  ⟨named.flowId, named.bindingFlow, named.bindingSecret, rfl, named.generated⟩

theorem beginExchange_named (checks : AuthChecks) (store : AuthStore)
    (named : flow.Named generated) :
    (beginExchange checks store flow).1.Named generated := by
  unfold beginExchange
  split_ifs
  · exact named
  · split
    · exact named
    · exact advance_named named _

theorem markPersisted_named (checks : AuthChecks) (store : AuthStore)
    (named : flow.Named generated) :
    (markPersisted checks store flow).1.Named generated := by
  unfold markPersisted
  split
  · exact named
  · split_ifs
    · exact named
    · exact named
    · exact advance_named named _

section

variable (inv : AuthStore.Inv generated store) (named : flow.Named generated)
include inv named

/-- The writes of an exchange of a flow whose secure record is pending. -/
theorem beginExchange_keeps
    (fits : flow.phase = .pending → requireSameFlow checks store flow = .ok () →
      ∃ record, store.secrets flow.reference = some record ∧ record.binding.phase = .pending)
    (planned : (beginExchange checks store flow).2 = .ok effects) :
    store.Keeps generated effects ∧ (flow.flowId, .exchanging) ∉ store.written ∧
      (flow.flowId, .exchanging) ∈ (effects.foldl AuthStore.apply store).written := by
  unfold beginExchange at planned
  split_ifs at planned with phase
  split at planned
  · cases planned
  · rename_i same
    obtain ⟨current, held, _, names⟩ := requireSameFlow_eq_ok same
    obtain ⟨record, stored, pending⟩ := fits (not_not.mp phase) same
    have earlier : ∀ entry ∈ store.written, entry.1 = flow.reference → entry.2.rank = 0 := by
      intro entry member entryNames
      have bound := inv.forward entry member flow.reference record stored
        ((inv.secretNames _ _ stored).1.trans entryNames.symm)
      rw [pending] at bound
      exact Nat.le_zero.mp bound
    obtain ⟨keeps, wrote⟩ := persist_transition_keeps inv (advance_named named .exchanging) held
      names (by
        intro entry member entryNames
        rw [earlier entry member entryNames]
        exact Nat.zero_le _) planned
    rw [named.flowId]
    refine ⟨keeps, ?_, wrote⟩
    intro before
    have zero := earlier _ before rfl
    cases zero

theorem markPersisted_keeps (planned : (markPersisted checks store flow).2 = .ok effects) :
    store.Keeps generated effects := by
  unfold markPersisted at planned
  split at planned
  · cases planned
  · rename_i same
    obtain ⟨current, held, _, names⟩ := requireSameFlow_eq_ok same
    split_ifs at planned
    · obtain rfl := Except.ok.inj planned
      exact inv
    · have highest : ∀ entry ∈ store.written, entry.1 = flow.reference →
          entry.2.rank ≤ AuthPhase.persisted.rank := by
        intro entry _ _
        cases entry.2 <;> decide
      exact (persist_transition_keeps inv (advance_named named .persisted) held names highest
        planned).1

theorem clear_keeps (planned : slot.clear checks store flow = .ok effects) :
    store.Keeps generated effects := by
  obtain ⟨_, same, planned⟩ := Except.bind_eq_ok_iff.mp planned
  obtain ⟨current, held, _, names⟩ := requireSameFlow_eq_ok same
  exact (clearMetadataRecord_keeps inv held (names.trans named.bindingSecret.symm) planned).1

end

/-- The public and the secure record of a flow that was loaded. -/
theorem load_eq_ok (loaded : slot.load checks store = .ok flow) :
    ∃ binding secure, store.metadata = some binding ∧
      store.secrets binding.secretReference = some secure ∧
      (secure.binding = binding ∨ secure.binding = { binding with phase := secure.binding.phase } ∧
        binding.phase.rank < secure.binding.phase.rank) ∧
      flow = flowOf checks secure.binding binding.secretReference secure.pkceVerifier := by
  obtain ⟨found, read, loaded⟩ := Except.bind_eq_ok_iff.mp loaded
  have held := metadata_eq_ok read
  cases found with
  | none => cases loaded
  | some binding =>
    dsimp only at loaded
    split_ifs at loaded
    split at loaded
    · cases loaded
    · rename_i secure stored
      obtain ⟨agreed, reconciled, loaded⟩ := Except.bind_eq_ok_iff.mp loaded
      split_ifs at loaded
      obtain rfl := Except.ok.inj loaded
      unfold reconcileBinding at reconciled
      split_ifs at reconciled with differs mismatch
      · obtain rfl := Except.ok.inj reconciled
        simp only [Bool.or_eq_true, decide_eq_true_eq, not_or, ne_eq, not_not,
          Bool.not_eq_eq_eq_not, Bool.not_true, Bool.not_eq_false] at mismatch
        exact ⟨binding, secure, held, stored,
          .inr ⟨mismatch.1.symm, by simpa using mismatch.2⟩, rfl⟩
      · obtain rfl := Except.ok.inj reconciled
        have same := not_not.mp differs
        exact ⟨binding, secure, held, stored, .inl same, by rw [same]⟩

theorem load_named (inv : AuthStore.Inv generated store)
    (loaded : slot.load checks store = .ok flow) : flow.Named generated := by
  obtain ⟨binding, secure, held, stored, _, rfl⟩ := load_eq_ok loaded
  obtain ⟨flowId, secret⟩ := inv.secretNames _ _ stored
  exact ⟨flowId, flowId, secret, rfl, (inv.metadataNames binding held).2⟩

end AuthSlot

/-! ## Histories -/

theorem AuthStore.written_apply {store : AuthStore} {effect : AuthEffect} {entry : Text × AuthPhase}
    (member : entry ∈ store.written) : entry ∈ (store.apply effect).written := by
  cases effect with
  | writeSecret reference record => exact List.mem_cons_of_mem _ member
  | publishMetadata binding => exact member
  | deleteSecret reference => exact member
  | removeMetadata => exact member

namespace AuthState

variable {outcome : AuthOutcome}

/-- What a call under way will have brought about when it returns. -/
def Promises (state : AuthState) (remaining : List AuthEffect) : AuthOutcome → Prop
  | .created _ flow => flow.Named state.generated
  | .exchanging flowId => flowId ∉ state.exchanged ∧
      (flowId, .exchanging) ∈ (remaining.foldl AuthStore.apply state.store).written
  | .done => True

/-- The invariant of a history of orderly steps. -/
structure Inv (state : AuthState) : Prop where
  store : state.store.Inv state.generated
  flows : ∀ handle flow, state.flows handle = some flow → flow.Named state.generated
  running : ∀ call, state.running = some call →
    state.store.Keeps state.generated call.remaining ∧ state.Promises call.remaining call.outcome
  written : ∀ flowId ∈ state.exchanged, (flowId, .exchanging) ∈ state.store.written
  once : state.exchanged.Nodup

variable {checks : AuthChecks} {accountKey secureScope : Text} {state next : AuthState}

theorem Inv.fresh : Inv AuthState.fresh where
  store := AuthStore.Inv.fresh
  flows := fun handle flow held => by cases held
  running := fun call running => by cases running
  written := fun flowId member => by cases member
  once := List.nodup_nil

theorem Inv.generate (inv : Inv state) (idle : state.running = none) (reference : Text) :
    Inv { state with generated := reference :: state.generated } where
  store := inv.store.generate reference
  flows := fun handle flow held => (inv.flows handle flow held).generate reference
  running := fun call running => by
    change state.running = some call at running
    rw [idle] at running
    cases running
  written := inv.written
  once := inv.once

/-- A handle gets a well-named value. -/
theorem Inv.hold (inv : Inv state) (idle : state.running = none) {flow : SavedAuthFlow}
    (named : flow.Named state.generated) (handle : Nat) :
    Inv { state with flows := Function.update state.flows handle (some flow) } where
  store := inv.store
  flows := fun other found held => by
    change Function.update state.flows handle (some flow) other = some found at held
    rw [Function.update_apply] at held
    split_ifs at held
    · obtain rfl := Option.some.inj held
      exact named
    · exact inv.flows other found held
  running := fun call running => by
    change state.running = some call at running
    rw [idle] at running
    cases running
  written := inv.written
  once := inv.once

/-- A call starts that keeps the records and holds its promise. -/
theorem Inv.begin (inv : Inv state) {effects : List AuthEffect}
    (keeps : state.store.Keeps state.generated effects)
    (promises : state.Promises effects outcome) :
    Inv { state with running := some ⟨effects, outcome⟩ } where
  store := inv.store
  flows := inv.flows
  running := fun call running => by
    obtain rfl := Option.some.inj running
    cases outcome <;> exact ⟨keeps, promises⟩
  written := inv.written
  once := inv.once

theorem Inv.start (inv : Inv state) (idle : state.running = none) {slot : AuthSlot}
    {process : Nat} {call : AuthCall} (orderly : Orderly checks state (.call process call))
    (started : AuthState.start checks slot state call = some next) : Inv next := by
  cases call with
  | create handle pending config restart now reference =>
    simp only [AuthState.start] at started
    split_ifs at started with used
    have known := inv.generate idle reference
    split at started
    · obtain rfl := Option.some.inj started
      exact known
    · rename_i effects flow planned
      obtain rfl := Option.some.inj started
      obtain ⟨keeps, named⟩ := AuthSlot.create_keeps inv.store used planned
      exact known.begin keeps named
  | load handle =>
    simp only [AuthState.start] at started
    split at started
    · obtain rfl := Option.some.inj started
      exact inv
    · rename_i flow loaded
      obtain rfl := Option.some.inj started
      exact inv.hold idle (AuthSlot.load_named inv.store loaded) handle
  | beginExchange handle =>
    simp only [AuthState.start] at started
    split at started
    · cases started
    · rename_i flow held
      have named := inv.flows handle flow held
      have kept := inv.hold idle (AuthSlot.beginExchange_named checks state.store named) handle
      split at started
      · obtain rfl := Option.some.inj started
        exact kept
      · rename_i effects planned
        obtain rfl := Option.some.inj started
        obtain ⟨keeps, unwritten, wrote⟩ := AuthSlot.beginExchange_keeps inv.store named
          (orderly flow held) planned
        apply kept.begin keeps
        refine ⟨?_, wrote⟩
        intro before
        exact unwritten (inv.written flow.flowId before)
  | markPersisted handle =>
    simp only [AuthState.start] at started
    split at started
    · cases started
    · rename_i flow held
      have named := inv.flows handle flow held
      have kept := inv.hold idle (AuthSlot.markPersisted_named checks state.store named) handle
      split at started
      · obtain rfl := Option.some.inj started
        exact kept
      · rename_i effects planned
        obtain rfl := Option.some.inj started
        exact kept.begin (AuthSlot.markPersisted_keeps inv.store named planned) trivial
  | clear handle =>
    simp only [AuthState.start] at started
    split at started
    · cases started
    · rename_i flow held
      split at started
      · obtain rfl := Option.some.inj started
        exact inv
      · rename_i effects planned
        obtain rfl := Option.some.inj started
        exact inv.begin (AuthSlot.clear_keeps inv.store (inv.flows handle flow held) planned)
          trivial

/-- The next write of a call. -/
theorem Inv.write (inv : Inv state) {effect : AuthEffect} {rest : List AuthEffect}
    (running : state.running = some ⟨effect :: rest, outcome⟩) :
    Inv { state with store := state.store.apply effect, running := some ⟨rest, outcome⟩ } := by
  obtain ⟨keeps, promises⟩ := inv.running _ running
  refine ⟨keeps.2.start, inv.flows, ?_, ?_, inv.once⟩
  · intro call same
    obtain rfl := Option.some.inj same
    refine ⟨keeps.2, ?_⟩
    cases outcome <;> exact promises
  · intro flowId member
    exact AuthStore.written_apply (inv.written flowId member)

theorem Inv.idle (inv : Inv state) : Inv { state with running := none } where
  store := inv.store
  flows := inv.flows
  running := fun call running => by cases running
  written := inv.written
  once := inv.once

theorem Inv.deliver (inv : Inv state) (running : state.running = some ⟨[], outcome⟩) :
    Inv (deliver state outcome) := by
  obtain ⟨_, promises⟩ := inv.running _ running
  cases outcome with
  | created handle flow => exact inv.idle.hold rfl promises handle
  | done => exact inv.idle
  | exchanging flowId =>
    refine ⟨inv.store, inv.flows, fun call running => by (cases running), ?_, ?_⟩
    · intro other member
      rcases List.mem_cons.mp member with rfl | before
      · exact promises.2
      · exact inv.written other before
    · exact List.nodup_cons.mpr ⟨promises.1, inv.once⟩

theorem Inv.step {action : AuthAction} (inv : Inv state) (orderly : Orderly checks state action)
    (taken : AuthState.step checks accountKey secureScope state action = some next) : Inv next := by
  cases action with
  | acquire process slot =>
    simp only [AuthState.step] at taken
    split_ifs at taken
    obtain rfl := Option.some.inj taken
    exact ⟨inv.store, inv.flows, inv.running, inv.written, inv.once⟩
  | release process =>
    simp only [AuthState.step] at taken
    split at taken
    · split_ifs at taken
      obtain rfl := Option.some.inj taken
      exact ⟨inv.store, inv.flows, inv.running, inv.written, inv.once⟩
    · cases taken
  | call process call =>
    simp only [AuthState.step] at taken
    split at taken
    · rename_i owner slot owned idle
      split_ifs at taken
      exact inv.start idle orderly taken
    · cases taken
  | write =>
    simp only [AuthState.step] at taken
    split at taken
    · rename_i effect rest outcome running
      obtain rfl := Option.some.inj taken
      exact inv.write running
    · cases taken
  | finish =>
    simp only [AuthState.step] at taken
    split at taken
    · rename_i outcome running
      obtain rfl := Option.some.inj taken
      exact inv.deliver running
    · cases taken
  | stop =>
    simp only [AuthState.step] at taken
    split at taken
    · obtain rfl := Option.some.inj taken
      exact inv.idle
    · cases taken

/-- **A code is exchanged once.** In every state of a history of orderly steps, calls that
stopped anywhere included: `begin_exchange` has returned at most once for each flow, the
secure record of a flow has the latest phase that was ever stored in it, every secret is
the one that the metadata names, and a flow that loads has public and secure records that
differ at most by a public phase that lags behind. -/
theorem sign_in_exchanges_once
    (reached : Reaches (AuthState.step checks accountKey secureScope) (Orderly checks)
      (· = AuthState.fresh) state) :
    state.exchanged.Nodup ∧
    (∀ flowId phase, (flowId, phase) ∈ state.store.written → ∀ reference record,
      state.store.secrets reference = some record → record.binding.flowId = flowId →
        phase.rank ≤ record.binding.phase.rank) ∧
    (∀ reference record, state.store.secrets reference = some record →
      ∃ binding, state.store.metadata = some binding ∧ binding.secretReference = reference) ∧
    ∀ slot flow, AuthSlot.load checks slot state.store = .ok flow → ∃ binding secure,
      state.store.metadata = some binding ∧
      state.store.secrets binding.secretReference = some secure ∧
      (secure.binding = binding ∨ secure.binding = { binding with phase := secure.binding.phase } ∧
        binding.phase.rank < secure.binding.phase.rank) ∧
      flow = AuthSlot.flowOf checks secure.binding binding.secretReference secure.pkceVerifier := by
  have inv : Inv state := by
    apply reached.invariant
    · rintro _ rfl
      exact Inv.fresh
    · intro before action after inv orderly taken
      exact inv.step orderly taken
  refine ⟨inv.once, ?_, inv.store.tracked, ?_⟩
  · intro flowId phase member
    exact inv.store.forward (flowId, phase) member
  · intro slot flow loaded
    exact AuthSlot.load_eq_ok loaded

/-- Checks that accept everything. -/
def acceptAll : AuthChecks where
  configValid := fun _ => true
  oauthStateValid := fun _ => true
  verifierValid := fun _ => true
  pkceS256Challenge := id
  encodedLength := fun _ => 0

def samplePending : PendingAuthState :=
  ⟨['s'], ['p'], ['u'], ['v'], ['v'], 0⟩

def sampleConfig : HostedAuthLaunchConfig :=
  ⟨.prod, ['c'], ['u'], ['a'], ['b'], ['d'], ['e'], none⟩

def sampleSlot : AuthSlot := ⟨.desktop, ['d'], ['k'], ['z']⟩

/-- A process creates a flow and keeps the value. -/
def createActions : List AuthAction :=
  [.acquire 0 sampleSlot, .call 0 (.create 0 samplePending sampleConfig false 0 ['r']), .write,
    .write, .finish]

/-- The flow is created and its code exchanged. -/
theorem created_flow_exchanges_once : ∃ state,
    runActions (AuthState.step acceptAll ['k'] ['z']) AuthState.fresh
      (createActions ++ [AuthAction.call 0 (.beginExchange 0), .write, .write, .finish]) =
          some state ∧
    state.exchanged = [['r']] ∧ state.exchanged.Nodup := by
  refine ⟨_, rfl, rfl, ?_⟩
  have empty : Reaches (AuthState.step acceptAll ['k'] ['z']) (Orderly acceptAll)
      (· = AuthState.fresh) AuthState.fresh := .start rfl
  have acquired := empty.take (.acquire 0 sampleSlot) trivial rfl
  have begun := acquired.take (.call 0 (.create 0 samplePending sampleConfig false 0 ['r']))
    trivial rfl
  have created := ((begun.take .write trivial rfl).take .write trivial rfl).take .finish trivial rfl
  have exchanging := created.take (.call 0 (.beginExchange 0)) (by
    intro flow held _ _
    obtain rfl := Option.some.inj held
    exact ⟨_, rfl, rfl⟩) rfl
  have returned := ((exchanging.take .write trivial rfl).take .write trivial rfl).take .finish
    trivial rfl
  exact (sign_in_exchanges_once returned).1

/-- One process keeps a pending value while another loads the flow, exchanges its code and
marks it persisted. The kept value is exchanged a second time, and the stored phase goes
back from persisted. -/
theorem stale_flow_exchanges_twice : ∃ state record,
    runActions (AuthState.step acceptAll ['k'] ['z']) AuthState.fresh
      (createActions ++ [AuthAction.release 0, .acquire 1 sampleSlot, .call 1 (.load 1),
        .call 1 (.beginExchange 1), .write, .write, .finish,
        .call 1 (.markPersisted 1), .write, .write, .finish, .release 1,
        .acquire 0 sampleSlot, .call 0 (.beginExchange 0), .write, .write, .finish]) =
      some state ∧
    state.exchanged = [['r'], ['r']] ∧ (['r'], .persisted) ∈ state.store.written ∧
    state.store.secrets ['r'] = some record ∧ record.binding.phase = .exchanging := by
  refine ⟨_, _, rfl, rfl, ?_, rfl, rfl⟩
  exact List.mem_cons_of_mem _ List.mem_cons_self

end AuthState

end ZManager.Identity
