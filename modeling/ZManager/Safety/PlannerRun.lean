import ZManager.Safety.PlannerSpec

/-! # Runs of the planner

A run is a sequence of calls of `Planner.validateEntry` on one planner. Every
call has its own entry and its own view of the disk, and a failed call leaves
the planner usable, so a statement over all runs covers the backends that
write between the calls, those that plan ahead, and those that stop early.
-/

namespace ZManager

/-- What one call is given. -/
structure Request where
  probe : Probe
  entry : ExtractionEntry

/-- One call with its result and the planner around it. -/
structure Call where
  request : Request
  before : Planner
  result : Except ExtractionSafetyError ExtractionDecision
  after : Planner

namespace Call

variable {call : Call} {plan : PlannedWrite}

variable {resolver : Option OverwriteResolver}

/-- The record is the outcome of the call it names. -/
def IsOutcome (fold : CaseFolding) (resolver : Option OverwriteResolver) (call : Call) : Prop :=
  (Planner.validateEntry fold call.request.probe resolver call.request.entry).exec call.before =
    (call.result, call.after)

/-- The planned write of a call, if the entry is to be written. -/
def plan? (call : Call) : Option PlannedWrite :=
  match call.result with
  | .ok (.write plan) => some plan
  | _ => none

theorem result_of_plan? (planned : call.plan? = some plan) :
    call.result = .ok (.write plan) := by
  unfold plan? at planned
  split at planned
  · rename_i found result
    cases planned
    exact result
  · cases planned

theorem plan?_of_result (written : call.result = .ok (.write plan)) : call.plan? = some plan := by
  rw [plan?, written]

theorem IsOutcome.writeStep {fold : CaseFolding} (outcome : call.IsOutcome fold resolver)
    (planned : call.plan? = some plan) :
    Planner.WriteStep fold call.request.probe resolver
      call.before call.after call.request.entry plan := by
  unfold IsOutcome at outcome
  rw [result_of_plan? planned] at outcome
  exact Planner.validateEntry_write outcome

/-- A call writes, with everything a write step guarantees, or it is quiet. -/
theorem IsOutcome.cases {fold : CaseFolding} (outcome : call.IsOutcome fold resolver) :
    (∃ plan, call.plan? = some plan ∧ Planner.WriteStep fold call.request.probe resolver
      call.before call.after call.request.entry plan) ∨
      (call.plan? = none ∧ Planner.QuietStep fold call.before call.after call.request.entry) := by
  cases planned : call.plan? with
  | some plan =>
    exact .inl ⟨plan, rfl, outcome.writeStep planned⟩
  | none =>
    refine .inr ⟨rfl, Planner.validateEntry_quiet outcome fun plan written => ?_⟩
    rw [plan?, written] at planned
    cases planned

/-- The entry and the plan of a call that writes. -/
def write? (call : Call) : Option (ExtractionEntry × PlannedWrite) :=
  call.plan?.map fun plan => (call.request.entry, plan)

end Call

namespace Planner

variable (fold : CaseFolding) (resolver : Option OverwriteResolver)

variable {planner : Planner} {requests : List Request}

/-- One call of the planner. -/
def call (planner : Planner) (request : Request) : Call :=
  let outcome := (validateEntry fold request.probe resolver request.entry).exec planner
  ⟨request, planner, outcome.1, outcome.2⟩

/-- The calls made for a list of requests, in order. -/
def run (planner : Planner) : List Request → List Call
  | [] => []
  | request :: rest =>
    let made := call fold resolver planner request
    made :: run made.after rest

/-- The requests of a whole plan made against one view of the disk. -/
def planAhead (probe : Probe) (entries : List ExtractionEntry) : List Request :=
  entries.map fun entry => ⟨probe, entry⟩

variable {fold resolver}

theorem call_isOutcome (planner : Planner) (request : Request) :
    (call fold resolver planner request).IsOutcome fold resolver := rfl

theorem isOutcome_of_mem_run {made : Call} (member : made ∈ run fold resolver planner requests) :
    made.IsOutcome fold resolver := by
  induction requests generalizing planner with
  | nil => cases member
  | cons request rest ih =>
    rcases List.mem_cons.mp member with rfl | member
    · exact call_isOutcome planner request
    · exact ih member

theorem request_mem_of_mem_run {made : Call} (member : made ∈ run fold resolver planner requests) :
    made.request ∈ requests := by
  induction requests generalizing planner with
  | nil => cases member
  | cons request rest ih =>
    rcases List.mem_cons.mp member with rfl | member
    · exact List.mem_cons_self ..
    · exact List.mem_cons_of_mem _ (ih member)

/-- An invariant of all calls holds before every call of a run. -/
theorem run_invariant {invariant : Planner → Prop}
    (step : ∀ made : Call, made.IsOutcome fold resolver → invariant made.before →
      invariant made.after)
    (start : invariant planner) :
    ∀ made ∈ run fold resolver planner requests, invariant made.before := by
  induction requests generalizing planner with
  | nil => exact fun _ member => by cases member
  | cons request rest ih =>
    intro made member
    rcases List.mem_cons.mp member with rfl | member
    · exact start
    · exact ih (step _ (call_isOutcome planner request) start) made member

/-- Every call of a run sees the settings the planner started with. -/
theorem run_settings :
    ∀ made ∈ run fold resolver planner requests, SameSettings planner made.before :=
  run_invariant (fun made outcome settings => settings.trans _ _ _
    ((validateEntry_preserves made.request.entry).of_exec outcome)) (.refl planner)

end Planner

end ZManager
