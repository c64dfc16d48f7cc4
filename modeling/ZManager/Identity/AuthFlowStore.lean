import Mathlib.Data.List.Nodup
import Mathlib.Logic.Function.Basic
import Mathlib.Tactic.SplitIfs
import ZManager.Foundation.Run
import ZManager.Foundation.Text

/-! # The slot of a hosted sign-in

One account has one slot: a public metadata file that names the pending flow, and
a secret of that flow with the same binding and the PKCE verifier. The slot lock
makes calls exclusive, so a call is the list of its writes, taken one at a time;
it may stop before any of them. A flow value outlives the ownership of the slot,
so a call may be made with a value that was loaded long ago.
-/

namespace ZManager.Identity

/-- How far a saved login has come. -/
inductive AuthPhase where
  | pending
  | exchanging
  | persisted
  deriving DecidableEq

/-- `auth_phase_rank`. -/
def AuthPhase.rank : AuthPhase → Nat
  | .pending => 0
  | .exchanging => 1
  | .persisted => 2

/-- The program that logs in. -/
inductive AuthApplication where
  | cli
  | desktop
  deriving DecidableEq

/-- The deployment of the hosted service. -/
inductive HostedAuthEnvironment where
  | local
  | staging
  | prod
  deriving DecidableEq

/-- Where a login is started. -/
structure HostedAuthLaunchConfig where
  environment : HostedAuthEnvironment
  clientId : Text
  redirectUri : Text
  hostedAuthBaseUrl : Text
  hostedAccountBaseUrl : Text
  hostedSigningBaseUrl : Text
  requestedAudience : Text
  selectedOrgId : Option Text

/-- The secrets of a login that was started. -/
structure PendingAuthState where
  state : Text
  providerId : Text
  redirectUri : Text
  verifier : Text
  challenge : Text
  createdAtUnixSeconds : Nat

/-- The record that the metadata file holds. -/
structure AuthBinding where
  application : AuthApplication
  accountKey : Text
  secureScope : Text
  stateDir : Text
  flowId : Text
  secretReference : Text
  state : Text
  providerId : Text
  redirectUri : Text
  createdAtUnixSeconds : Nat
  expiresAtUnixSeconds : Nat
  clientId : Text
  authBaseUrl : Text
  accountBaseUrl : Text
  signingBaseUrl : Text
  environment : HostedAuthEnvironment
  requestedAudience : Text
  selectedOrgId : Option Text
  phase : AuthPhase
  deriving DecidableEq

/-- The record that the secret holds. -/
structure SecureAuthRecord where
  binding : AuthBinding
  pkceVerifier : Text

/-- `TzapSavedAuthFlow`, the value in the memory of a process. -/
structure SavedAuthFlow where
  pending : PendingAuthState
  config : HostedAuthLaunchConfig
  flowId : Text
  phase : AuthPhase
  reference : Text
  publicBinding : AuthBinding

/-- The slot as one process has acquired it. -/
structure AuthSlot where
  application : AuthApplication
  stateDir : Text
  accountKey : Text
  secureScope : Text

/-- The checks of the sign-in client on what a flow is created from, and the size of the
encoded metadata. -/
structure AuthChecks where
  configValid : HostedAuthLaunchConfig → Bool
  oauthStateValid : Text → Bool
  verifierValid : Text → Bool
  pkceS256Challenge : Text → Text
  encodedLength : AuthBinding → Nat

/-- Failures of the saved login flow. -/
inductive AuthFlowError where
  | invalidBinding
  | pendingLoginExists
  | noPendingHandoff
  | otherContext
  | secretMissing
  | invalidRecord
  | doesNotMatch
  | alreadyAttempted
  | noLongerExists
  | replaced
  | notExchanging
  | tooLarge
  | doesNotOwn

/-- The durable part of the slot. `written` records every phase that was stored in the
secure record of a flow. -/
structure AuthStore where
  metadata : Option AuthBinding
  secrets : Text → Option SecureAuthRecord
  written : List (Text × AuthPhase)

/-- One write to the metadata file or to the secret store. -/
inductive AuthEffect where
  | publishMetadata (binding : AuthBinding)
  | writeSecret (reference : Text) (record : SecureAuthRecord)
  | deleteSecret (reference : Text)
  | removeMetadata

def AuthStore.apply (store : AuthStore) : AuthEffect → AuthStore
  | .publishMetadata binding => { store with metadata := some binding }
  | .writeSecret reference record =>
    { store with
      secrets := Function.update store.secrets reference (some record)
      written := (record.binding.flowId, record.binding.phase) :: store.written }
  | .deleteSecret reference =>
    { store with secrets := Function.update store.secrets reference none }
  | .removeMetadata => { store with metadata := none }

def authHandoffLifetimeSeconds : Nat := 10 * 60

/-- `u64::saturating_add`. -/
def saturatingAdd (left right : Nat) : Nat := min (left + right) (2 ^ 64 - 1)

/-- Metadata of more bytes is neither written nor read. -/
def authMetadataLimit : Nat := 32768

namespace AuthSlot

variable (checks : AuthChecks) (slot : AuthSlot)

/-- What the metadata file holds; a file that is too large is not read. -/
def metadata (store : AuthStore) : Except AuthFlowError (Option AuthBinding) :=
  match store.metadata with
  | none => .ok none
  | some binding =>
    if checks.encodedLength binding > authMetadataLimit then .error .tooLarge
    else .ok (some binding)

/-- The writes of `persist`: on creation the pointer comes before the secret, on a
transition the secret comes before the pointer. -/
def persist (flow : SavedAuthFlow) (creating : Bool) : Except AuthFlowError (List AuthEffect) :=
  let secure : SecureAuthRecord := ⟨flow.publicBinding, flow.pending.verifier⟩
  if checks.encodedLength flow.publicBinding > authMetadataLimit then .error .tooLarge
  else if creating then
    .ok [.publishMetadata flow.publicBinding, .writeSecret flow.reference secure]
  else .ok [.writeSecret flow.reference secure, .publishMetadata flow.publicBinding]

def requireSameFlow (store : AuthStore) (flow : SavedAuthFlow) : Except AuthFlowError Unit := do
  match ← metadata checks store with
  | none => .error .noLongerExists
  | some current =>
    if current.flowId ≠ flow.flowId || current.secretReference ≠ flow.reference then
      .error .replaced
    else .ok ()

def clearMetadataRecord (store : AuthStore) (binding : AuthBinding) :
    Except AuthFlowError (List AuthEffect) :=
  match store.secrets binding.secretReference with
  | none => .ok [.removeMetadata]
  | some secure =>
    if secure.binding.accountKey ≠ slot.accountKey ||
        secure.binding.secureScope ≠ slot.secureScope ||
        secure.binding.flowId ≠ binding.flowId ||
        secure.binding.secretReference ≠ binding.secretReference then
      .error .doesNotOwn
    else .ok [.deleteSecret binding.secretReference, .removeMetadata]

def newBinding (pending : PendingAuthState) (config : HostedAuthLaunchConfig) (reference : Text) :
    AuthBinding where
  application := slot.application
  accountKey := slot.accountKey
  secureScope := slot.secureScope
  stateDir := slot.stateDir
  flowId := reference
  secretReference := reference
  state := pending.state
  providerId := pending.providerId
  redirectUri := pending.redirectUri
  createdAtUnixSeconds := pending.createdAtUnixSeconds
  expiresAtUnixSeconds := saturatingAdd pending.createdAtUnixSeconds authHandoffLifetimeSeconds
  clientId := config.clientId
  authBaseUrl := config.hostedAuthBaseUrl
  accountBaseUrl := config.hostedAccountBaseUrl
  signingBaseUrl := config.hostedSigningBaseUrl
  environment := config.environment
  requestedAudience := config.requestedAudience
  selectedOrgId := config.selectedOrgId
  phase := .pending

/-- What `create` asks of its arguments. -/
def acceptsPending (pending : PendingAuthState) (config : HostedAuthLaunchConfig) (now : Nat) :
    Bool :=
  checks.configValid config && checks.oauthStateValid pending.state &&
    checks.verifierValid pending.verifier && pending.redirectUri == config.redirectUri &&
    checks.pkceS256Challenge pending.verifier == pending.challenge &&
    !(now < pending.createdAtUnixSeconds) &&
    !(saturatingAdd pending.createdAtUnixSeconds authHandoffLifetimeSeconds ≤ now)

/-- The writes that take an earlier record out of the way. -/
def discardExisting (store : AuthStore) (restart : Bool) (now : Nat) :
    Except AuthFlowError (List AuthEffect) := do
  match ← metadata checks store with
  | none => .ok []
  | some existing =>
    if !restart && !(existing.expiresAtUnixSeconds ≤ now) then .error .pendingLoginExists
    else slot.clearMetadataRecord store existing

/-- `create`, with the reference that was generated for it. -/
def create (store : AuthStore) (pending : PendingAuthState) (config : HostedAuthLaunchConfig)
    (restart : Bool) (now : Nat) (reference : Text) :
    Except AuthFlowError (List AuthEffect × SavedAuthFlow) := do
  if !acceptsPending checks pending config now then .error .invalidBinding
  else
    let discards ← slot.discardExisting checks store restart now
    let flow : SavedAuthFlow :=
      ⟨pending, config, reference, .pending, reference, slot.newBinding pending config reference⟩
    let writes ← persist checks flow true
    return (discards ++ writes, flow)

/-- The texts that `load` reads are not empty. -/
def readable (binding : AuthBinding) : Bool :=
  [binding.state, binding.providerId, binding.redirectUri, binding.clientId, binding.authBaseUrl,
    binding.accountBaseUrl, binding.signingBaseUrl, binding.requestedAudience,
    binding.flowId].all fun value => !value.isEmpty

/-- The binding that `load` goes by: the secure one, which may be ahead in its phase only. -/
def reconcileBinding (binding secure : AuthBinding) : Except AuthFlowError AuthBinding :=
  if secure ≠ binding then
    if { binding with phase := secure.phase } ≠ secure ||
        !(binding.phase.rank < secure.phase.rank) then
      .error .doesNotMatch
    else .ok secure
  else .ok binding

def flowOf (binding : AuthBinding) (reference verifier : Text) : SavedAuthFlow where
  pending :=
    { state := binding.state
      providerId := binding.providerId
      redirectUri := binding.redirectUri
      verifier := verifier
      challenge := checks.pkceS256Challenge verifier
      createdAtUnixSeconds := binding.createdAtUnixSeconds }
  config :=
    { environment := binding.environment
      clientId := binding.clientId
      redirectUri := binding.redirectUri
      hostedAuthBaseUrl := binding.authBaseUrl
      hostedAccountBaseUrl := binding.accountBaseUrl
      hostedSigningBaseUrl := binding.signingBaseUrl
      requestedAudience := binding.requestedAudience
      selectedOrgId := binding.selectedOrgId }
  flowId := binding.flowId
  phase := binding.phase
  reference := reference
  publicBinding := binding

/-- The login that is saved. -/
def load (store : AuthStore) : Except AuthFlowError SavedAuthFlow := do
  match ← metadata checks store with
  | none => .error .noPendingHandoff
  | some binding =>
    if binding.application ≠ slot.application || binding.accountKey ≠ slot.accountKey ||
        binding.secureScope ≠ slot.secureScope || binding.stateDir ≠ slot.stateDir then
      .error .otherContext
    else
      match store.secrets binding.secretReference with
      | none => .error .secretMissing
      | some secure => do
          let agreed ← reconcileBinding binding secure.binding
          if !readable agreed || !checks.verifierValid secure.pkceVerifier then
            .error .invalidRecord
          else return flowOf checks agreed binding.secretReference secure.pkceVerifier

/-- The flow value with a later phase. -/
def advance (flow : SavedAuthFlow) (phase : AuthPhase) : SavedAuthFlow :=
  { flow with
    phase := phase
    publicBinding := { flow.publicBinding with phase := phase } }

/-- `begin_exchange`: the flow value afterwards, and the writes. -/
def beginExchange (store : AuthStore) (flow : SavedAuthFlow) :
    SavedAuthFlow × Except AuthFlowError (List AuthEffect) :=
  if flow.phase ≠ .pending then (flow, .error .alreadyAttempted)
  else
    match requireSameFlow checks store flow with
    | .error failure => (flow, .error failure)
    | .ok _ => (advance flow .exchanging, persist checks (advance flow .exchanging) false)

/-- Records that the session is stored. -/
def markPersisted (store : AuthStore) (flow : SavedAuthFlow) :
    SavedAuthFlow × Except AuthFlowError (List AuthEffect) :=
  match requireSameFlow checks store flow with
  | .error failure => (flow, .error failure)
  | .ok _ =>
    if flow.phase = .persisted then (flow, .ok [])
    else if flow.phase ≠ .exchanging then (flow, .error .notExchanging)
    else (advance flow .persisted, persist checks (advance flow .persisted) false)

/-- Forgets the saved login. -/
def clear (store : AuthStore) (flow : SavedAuthFlow) : Except AuthFlowError (List AuthEffect) := do
  requireSameFlow checks store flow
  slot.clearMetadataRecord store flow.publicBinding

end AuthSlot

/-! ## Processes and their calls -/

/-- A call on the acquired slot. Flow values are kept under handles. -/
inductive AuthCall where
  | create (handle : Nat) (pending : PendingAuthState) (config : HostedAuthLaunchConfig)
      (restart : Bool) (now : Nat) (reference : Text)
  | load (handle : Nat)
  | beginExchange (handle : Nat)
  | markPersisted (handle : Nat)
  | clear (handle : Nat)

/-- What a call does when all its writes are made. -/
inductive AuthOutcome where
  | created (handle : Nat) (flow : SavedAuthFlow)
  | exchanging (flowId : Text)
  | done

/-- A call under way: the writes that are still to be made. -/
structure RunningCall where
  remaining : List AuthEffect
  outcome : AuthOutcome

/-- The slot, its owner, the flow values that processes hold, the references generated so
far, and the flows for which `begin_exchange` has returned. -/
structure AuthState where
  store : AuthStore
  owner : Option (Nat × AuthSlot)
  flows : Nat → Option SavedAuthFlow
  generated : List Text
  running : Option RunningCall
  exchanged : List Text

/-- One step: a process takes or drops the slot, starts a call, makes its next write, or
returns; a call may stop at any point, by a failed write or with its process. -/
inductive AuthAction where
  | acquire (process : Nat) (slot : AuthSlot)
  | release (process : Nat)
  | call (process : Nat) (call : AuthCall)
  | write
  | finish
  | stop

namespace AuthState

variable (checks : AuthChecks) (accountKey secureScope : Text)

/-- A call begins: its checks on the slot, and the writes that it plans. -/
def start (slot : AuthSlot) (state : AuthState) : AuthCall → Option AuthState
  | .create handle pending config restart now reference =>
    -- a generated reference is new
    if reference ∈ state.generated then none
    else
      let known := { state with generated := reference :: state.generated }
      match slot.create checks state.store pending config restart now reference with
      | .error _ => some known
      | .ok (effects, flow) => some { known with running := some ⟨effects, .created handle flow⟩ }
  | .load handle =>
    match slot.load checks state.store with
    | .error _ => some state
    | .ok flow => some { state with flows := Function.update state.flows handle (some flow) }
  | .beginExchange handle =>
    match state.flows handle with
    | none => none
    | some flow =>
      let after := AuthSlot.beginExchange checks state.store flow
      let held := { state with flows := Function.update state.flows handle (some after.1) }
      match after.2 with
      | .error _ => some held
      | .ok effects => some { held with running := some ⟨effects, .exchanging flow.flowId⟩ }
  | .markPersisted handle =>
    match state.flows handle with
    | none => none
    | some flow =>
      let after := AuthSlot.markPersisted checks state.store flow
      let held := { state with flows := Function.update state.flows handle (some after.1) }
      match after.2 with
      | .error _ => some held
      | .ok effects => some { held with running := some ⟨effects, .done⟩ }
  | .clear handle =>
    match state.flows handle with
    | none => none
    | some flow =>
      match slot.clear checks state.store flow with
      | .error _ => some state
      | .ok effects => some { state with running := some ⟨effects, .done⟩ }

/-- A call returns. -/
def deliver (state : AuthState) : AuthOutcome → AuthState
  | .created handle flow =>
    { state with running := none, flows := Function.update state.flows handle (some flow) }
  | .exchanging flowId => { state with running := none, exchanged := flowId :: state.exchanged }
  | .done => { state with running := none }

def step (state : AuthState) : AuthAction → Option AuthState
  | .acquire process slot =>
    if state.owner = none ∧ slot.accountKey = accountKey ∧ slot.secureScope = secureScope then
      some { state with owner := some (process, slot) }
    else none
  | .release process =>
    match state.owner, state.running with
    | some (owner, _), none => if owner = process then some { state with owner := none } else none
    | _, _ => none
  | .call process call =>
    match state.owner, state.running with
    | some (owner, slot), none => if owner = process then start checks slot state call else none
    | _, _ => none
  | .write =>
    match state.running with
    | some ⟨effect :: rest, outcome⟩ =>
      some { state with
        store := state.store.apply effect
        running := some ⟨rest, outcome⟩ }
    | _ => none
  | .finish =>
    match state.running with
    | some ⟨[], outcome⟩ => some (deliver state outcome)
    | _ => none
  | .stop =>
    match state.running with
    | some _ => some { state with running := none }
    | none => none

/-- A slot that was never used. -/
def fresh : AuthState where
  store := ⟨none, fun _ => none, []⟩
  owner := none
  flows := fun _ => none
  generated := []
  running := none
  exchanged := []

/-- The one thing that is not checked: a value that is given to `begin_exchange` as
pending is still pending in the secure record of its flow. -/
def Orderly (state : AuthState) : AuthAction → Prop
  | .call _ (.beginExchange handle) => ∀ flow, state.flows handle = some flow →
      flow.phase = .pending → AuthSlot.requireSameFlow checks state.store flow = .ok () →
      ∃ record, state.store.secrets flow.reference = some record ∧
        record.binding.phase = .pending
  | _ => True

end AuthState

end ZManager.Identity
