import ZManager.Extract.ExpansionLimit
import ZManager.Safety.Containment

/-! # The expansion budget of a planner

The planner counts the bytes and the entries that it accepts, with additions
that stop at the greatest `u64`. Both counters are changed in the middle of a
decision that may still fail. Over a run of any calls the counters are exact as
long as no addition is cut off (`budget_exact`), which only a limit of
`u64::MAX` lets through.
-/

namespace ZManager

namespace Planner

/-! ## The counters in one decision -/

section

variable {fold : CaseFolding} {probe : Probe} {resolver : Option OverwriteResolver}
  {planner after : Planner}

variable {result : Except ExtractionSafetyError Unit} {entry : ExtractionEntry}

/-- The entry counter is left alone. -/
def KeepsEntries (before after : Planner) : Prop := after.plannedEntries = before.plannedEntries

theorem KeepsEntries.trans (first second third : Planner) (left : KeepsEntries first second)
    (right : KeepsEntries second third) : KeepsEntries first third :=
  Eq.trans right left

theorem rejectCollisionUnlessReplacing_keepsEntries (name : Text) :
    StepM.Preserves KeepsEntries (rejectCollisionUnlessReplacing fold name) := by
  intro before
  rcases outcome : (rejectCollisionUnlessReplacing fold name).exec before with ⟨result, after⟩
  cases result with
  | error failure =>
    rw [rejectCollisionUnlessReplacing_error outcome]
    rfl
  | ok value =>
    rcases rejectCollisionUnlessReplacing_ok outcome with ⟨_, same⟩ | ⟨_, _, same⟩
    · rw [same]
      rfl
    · rw [same]
      rfl

theorem planDestinationWrite_keepsEntries (entry : ExtractionEntry) (name : Text)
    (natural : PathBuf) (link : Option PathBuf) :
    StepM.Preserves KeepsEntries (planDestinationWrite probe resolver entry name natural link) := by
  intro before
  rcases outcome : (planDestinationWrite probe resolver entry name natural link).exec before with
    ⟨result, after⟩
  obtain ⟨_, _, same, _⟩ :=
      (planDestinationWrite_renumbered entry name natural link).of_exec outcome
  rw [same]
  rfl

theorem reserveExpandedSize_keepsEntries (entry : ExtractionEntry) :
    StepM.Preserves KeepsEntries (reserveExpandedSize entry) := by
  intro before
  rcases outcome : (reserveExpandedSize entry).exec before with ⟨result, after⟩
  cases result with
  | error failure =>
    rw [reserveExpandedSize_error outcome]
    rfl
  | ok value =>
    obtain ⟨_, same, _⟩ := reserveExpandedSize_ok outcome
    rw [same]
    rfl

theorem KeepsEntries.lift {α : Type} (result : Except ExtractionSafetyError α) :
    StepM.Preserves KeepsEntries (liftM result : PlanM α) :=
  .of_exec_eq (fun _ => rfl) fun _ => by rw [StepM.exec_lift]

theorem KeepsEntries.get : StepM.Preserves KeepsEntries (get : PlanM Planner) :=
  .of_exec_eq (fun _ => rfl) fun _ => rfl

theorem KeepsEntries.pure {α : Type} (value : α) :
    StepM.Preserves KeepsEntries (pure value : PlanM α) :=
  .of_exec_eq (fun _ => rfl) fun _ => rfl

/-- A reservation counts one entry within the limit, or changes nothing. -/
theorem reserveEntry_cases {name : Text}
    (finished : (reserveEntry name).exec planner = (result, after)) :
    (after = planner ∧ (planner.policy.limits.maxEntries = none ∨ result ≠ .ok ())) ∨
      ∃ limit, result = .ok () ∧ planner.policy.limits.maxEntries = some limit ∧
        saturatingAdd planner.plannedEntries 1 ≤ limit ∧
        after = { planner with plannedEntries := saturatingAdd planner.plannedEntries 1 } := by
  unfold reserveEntry at finished
  rw [StepM.exec_bind, StepM.exec_get] at finished
  dsimp only at finished
  cases limited : planner.policy.limits.maxEntries with
  | none =>
    rw [limited] at finished
    cases finished
    exact .inl ⟨rfl, .inl rfl⟩
  | some limit =>
    rw [limited] at finished
    dsimp only at finished
    split_ifs at finished with exceeded
    · cases finished
      exact .inl ⟨rfl, .inr (by simp)⟩
    · cases finished
      exact .inr ⟨limit, rfl, rfl, UInt64.not_lt.mp exceeded, rfl⟩

/-- The entry counter changes in the reservation of the entry only, and an entry that is to
be written has been reserved. -/
theorem validateEntry_reserves {result : Except ExtractionSafetyError ExtractionDecision}
    (finished : (validateEntry fold probe resolver entry).exec planner = (result, after)) :
    (KeepsEntries planner after ∧ ∀ plan, result ≠ .ok (.write plan)) ∨
      ∃ name reserved, (reserveEntry name).exec planner = (.ok (), reserved) ∧
        KeepsEntries reserved after := by
  unfold validateEntry at finished
  rw [StepM.exec_bind, StepM.exec_get] at finished
  dsimp only at finished
  rcases StepM.exec_bind_cases finished with ⟨_, lifted, same⟩ | ⟨selected, start, lifted, finished⟩
  · rw [StepM.exec_lift] at lifted
    cases (Prod.mk.inj lifted).2
    exact .inl ⟨rfl, by simp [same]⟩
  rw [StepM.exec_lift] at lifted
  obtain ⟨_, rfl⟩ := Prod.mk.inj lifted
  cases selected with
  | inl skipped =>
    cases finished
    exact .inl ⟨rfl, by simp⟩
  | inr name =>
    rcases StepM.exec_bind_cases finished with
      ⟨_, reserved, same⟩ | ⟨_, middle, reserved, finished⟩
    · rcases reserveEntry_cases reserved with ⟨rfl, _⟩ | ⟨_, impossible, _⟩
      · exact .inl ⟨rfl, by simp [same]⟩
      · cases impossible
    · right
      refine ⟨name, middle, reserved, ?_⟩
      refine StepM.Preserves.of_exec ?_ finished
      refine .bind KeepsEntries.trans .get fun current => ?_
      refine .bind KeepsEntries.trans (.lift _) fun _ => ?_
      refine .bind KeepsEntries.trans (.lift _) fun link => ?_
      cases link with
      | inl reason => exact .pure _
      | inr linkTargetPath =>
        refine .bind KeepsEntries.trans (rejectCollisionUnlessReplacing_keepsEntries _)
          fun _ => ?_
        refine .bind KeepsEntries.trans (planDestinationWrite_keepsEntries _ _ _ _)
          fun chosen => ?_
        cases chosen with
        | skip _ reason => exact .pure _
        | write plan =>
          refine .bind KeepsEntries.trans .get fun current => ?_
          refine .bind KeepsEntries.trans (.lift _) fun _ => ?_
          refine .bind KeepsEntries.trans (reserveExpandedSize_keepsEntries _) fun _ => ?_
          exact .bind KeepsEntries.trans (fun _ => rfl) fun _ => .pure _

/-- The bytes that an accepted entry is charged: the declared size of a file. -/
def declaredBytes (entry : ExtractionEntry) : UInt64 :=
  if entry.kind = .file then entry.uncompressedSize.getD 0 else 0

theorem saturatingAdd_zero (count : UInt64) : saturatingAdd count 0 = count := by
  unfold saturatingAdd
  rw [if_pos (by simpa using count.toNat_lt)]
  exact UInt64.add_zero count

/-- A reservation of bytes stays within the limit, or changes nothing. -/
theorem reserveExpandedBytes_cases {archivePath : Text} {bytes : UInt64}
    (finished : (reserveExpandedBytes archivePath bytes).exec planner = (result, after)) :
    (after = planner ∧ (planner.policy.limits.maxExpandedBytes = none ∨ result ≠ .ok ())) ∨
      ∃ limit, result = .ok () ∧ planner.policy.limits.maxExpandedBytes = some limit ∧
        saturatingAdd planner.plannedExpandedBytes bytes ≤ limit ∧
        after = { planner with
          plannedExpandedBytes := saturatingAdd planner.plannedExpandedBytes bytes } := by
  unfold reserveExpandedBytes at finished
  rw [StepM.exec_bind, StepM.exec_get] at finished
  dsimp only at finished
  cases limited : planner.policy.limits.maxExpandedBytes with
  | none =>
    rw [limited] at finished
    cases finished
    exact .inl ⟨rfl, .inl rfl⟩
  | some limit =>
    rw [limited] at finished
    dsimp only at finished
    split_ifs at finished with exceeded
    · cases finished
      exact .inl ⟨rfl, .inr (by simp)⟩
    · cases finished
      exact .inr ⟨limit, rfl, rfl, UInt64.not_lt.mp exceeded, rfl⟩

/-- What a file has to satisfy to be accepted. -/
def WithinRatio (policy : ExtractionPolicy) (entry : ExtractionEntry) : Prop :=
  ∀ size compressed ratioLimit, entry.kind = .file → entry.uncompressedSize = some size →
    entry.compressedSize = some compressed →
    policy.limits.maxEntryExpansionRatio = some ratioLimit →
      size.toNat ≤ compressed.toNat * ratioLimit.toNat

theorem rejectExpansionRatio_ok {archivePath : Text} {size compressed ratioLimit : UInt64}
    (passed : rejectExpansionRatio archivePath size (some compressed) ratioLimit = .ok ()) :
    size.toNat ≤ compressed.toNat * ratioLimit.toNat := by
  unfold rejectExpansionRatio at passed
  dsimp only at passed
  split_ifs at passed with empty exceeds exceeds
  · have none : size.toNat = 0 := by
      have bounded := UInt64.le_iff_toNat_le.mp (UInt64.not_lt.mp exceeds)
      exact Nat.le_zero.mp bounded
    omega
  · omega

/-- The charge of an accepted entry. -/
theorem reserveExpandedSize_charges
    (finished : (reserveExpandedSize entry).exec planner = (.ok (), after)) :
    WithinRatio planner.policy entry ∧ ∀ limit,
      planner.policy.limits.maxExpandedBytes = some limit →
        after.plannedExpandedBytes =
            saturatingAdd planner.plannedExpandedBytes (declaredBytes entry) ∧
          (after.plannedExpandedBytes ≤ limit ∨
            after.plannedExpandedBytes = planner.plannedExpandedBytes) := by
  unfold reserveExpandedSize at finished
  split at finished
  · rename_i size kind declared
    rw [StepM.exec_bind, StepM.exec_get] at finished
    dsimp only at finished
    obtain ⟨_, middle, checked, finished⟩ := StepM.exec_bind_eq_ok.mp finished
    rw [StepM.exec_lift] at checked
    obtain ⟨passed, rfl⟩ := Prod.mk.inj checked
    constructor
    · intro found compressed ratioLimit _ sized known limited
      rw [declared] at sized
      cases sized
      unfold checkExpansionRatio at passed
      rw [limited, known] at passed
      exact rejectExpansionRatio_ok passed
    · intro limit limited
      have bytes : declaredBytes entry = size := by simp [declaredBytes, kind, declared]
      rcases reserveExpandedBytes_cases finished with ⟨rfl, unlimited | failed⟩ | charged
      · rw [limited] at unlimited
        cases unlimited
      · exact absurd rfl failed
      · obtain ⟨bound, _, bounded, within, rfl⟩ := charged
        rw [limited] at bounded
        cases bounded
        rw [bytes]
        exact ⟨rfl, .inl within⟩
  · rename_i undeclared
    cases finished
    constructor
    · intro size _ _ kind declared
      exact absurd declared (undeclared size kind)
    · intro limit _
      have bytes : declaredBytes entry = 0 := by
        unfold declaredBytes
        split_ifs with kind
        · cases declared : entry.uncompressedSize with
          | none => rfl
          | some size => exact absurd declared (undeclared size kind)
        · rfl
      rw [bytes, saturatingAdd_zero]
      exact ⟨rfl, .inr rfl⟩

/-- What an entry that is to be written has been charged. -/
theorem validateEntry_charges {plan : PlannedWrite}
    (finished : (validateEntry fold probe resolver entry).exec planner =
      (.ok (.write plan), after)) :
    ∃ before charged, before.policy = planner.policy ∧
      before.plannedExpandedBytes = planner.plannedExpandedBytes ∧
      (reserveExpandedSize entry).exec before = (.ok (), charged) ∧
      after.plannedExpandedBytes = charged.plannedExpandedBytes := by
  unfold validateEntry at finished
  rw [StepM.exec_bind, StepM.exec_get] at finished
  dsimp only at finished
  obtain ⟨selected, start, lifted, finished⟩ := StepM.exec_bind_eq_ok.mp finished
  rw [StepM.exec_lift] at lifted
  obtain ⟨-, rfl⟩ := Prod.mk.inj lifted
  cases selected with
  | inl skipped => cases finished
  | inr name =>
    obtain ⟨_, counted, reserved, finished⟩ := StepM.exec_bind_eq_ok.mp finished
    obtain ⟨entries, rfl⟩ := reserveEntry_ok reserved
    rw [StepM.exec_bind, StepM.exec_get] at finished
    dsimp only at finished
    obtain ⟨_, _, lifted, finished⟩ := StepM.exec_bind_eq_ok.mp finished
    rw [StepM.exec_lift] at lifted
    obtain ⟨-, rfl⟩ := Prod.mk.inj lifted
    obtain ⟨linked, _, lifted, finished⟩ := StepM.exec_bind_eq_ok.mp finished
    rw [StepM.exec_lift] at lifted
    obtain ⟨-, rfl⟩ := Prod.mk.inj lifted
    cases linked with
    | inl reason => cases finished
    | inr linkTargetPath =>
      obtain ⟨_, distinct, collision, finished⟩ := StepM.exec_bind_eq_ok.mp finished
      obtain ⟨chosen, placed, choice, finished⟩ := StepM.exec_bind_eq_ok.mp finished
      cases chosen with
      | skip skipped reason => cases finished
      | write chosenPlan =>
        obtain ⟨_, _, _, _, _, rfl, _⟩ := planDestinationWrite_write choice
        rw [StepM.exec_bind, StepM.exec_get] at finished
        dsimp only at finished
        obtain ⟨_, _, lifted, finished⟩ := StepM.exec_bind_eq_ok.mp finished
        rw [StepM.exec_lift] at lifted
        obtain ⟨-, rfl⟩ := Prod.mk.inj lifted
        obtain ⟨_, charged, expanded, finished⟩ := StepM.exec_bind_eq_ok.mp finished
        cases finished
        rcases rejectCollisionUnlessReplacing_ok collision with ⟨_, rfl⟩ | ⟨_, _, rfl⟩
        · refine ⟨_, charged, ?_, ?_, expanded, rfl⟩
          · rfl
          · rfl
        · refine ⟨_, charged, ?_, ?_, expanded, rfl⟩
          · rfl
          · rfl

end

/-! ## Runs of both entry points -/

/-- A call of one of the two functions that use the budget. -/
inductive BudgetRequest where
  | entry (request : Request)
  | bytes (archivePath : Text) (bytes : UInt64)

/-- The planner, the entries that were accepted to be written and the sizes of the
successful reservations. -/
structure Budget where
  planner : Planner
  accepted : List ExtractionEntry
  reserved : List UInt64

namespace Budget

variable {limit : UInt64}

/-- The exact sum of what was accepted. -/
def total (budget : Budget) : Nat :=
  (budget.accepted.map fun entry => (declaredBytes entry).toNat).sum +
    (budget.reserved.map UInt64.toNat).sum

variable (fold : CaseFolding) (resolver : Option OverwriteResolver)

def step (budget : Budget) : BudgetRequest → Budget
  | .entry request =>
    let made := call fold resolver budget.planner request
    { budget with
      planner := made.after
      accepted := if made.plan?.isSome then request.entry :: budget.accepted
        else budget.accepted }
  | .bytes archivePath bytes =>
    match (reserveExpandedBytes archivePath bytes).exec budget.planner with
    | (.ok _, after) => { budget with planner := after, reserved := bytes :: budget.reserved }
    | (.error _, after) => { budget with planner := after }

def start (destinationRoot : PathBuf) (policy : ExtractionPolicy) : Budget :=
  ⟨new destinationRoot policy, [], []⟩

/-- The bytes that a request asks for. -/
def asked : BudgetRequest → UInt64
  | .entry request => declaredBytes request.entry
  | .bytes _ bytes => bytes

/-- Under the greatest limit, no addition of the request is cut off. -/
structure Fits (budget : Budget) (request : BudgetRequest) : Prop where
  bytes : budget.planner.policy.limits.maxExpandedBytes = some 18446744073709551615 →
    budget.planner.plannedExpandedBytes.toNat + (asked request).toNat < 2 ^ 64
  entries : budget.planner.policy.limits.maxEntries = some 18446744073709551615 →
    budget.planner.plannedEntries.toNat + 1 < 2 ^ 64

/-- Every request of the run fits. -/
def AllFit (budget : Budget) : List BudgetRequest → Prop
  | [] => True
  | request :: rest => budget.Fits request ∧ AllFit (budget.step fold resolver request) rest

/-- The counters say what was accepted, and keep to the limits. -/
structure Exact (policy : ExtractionPolicy) (budget : Budget) : Prop where
  settings : budget.planner.policy = policy
  bytes : ∀ limit, policy.limits.maxExpandedBytes = some limit →
    budget.planner.plannedExpandedBytes.toNat = budget.total ∧ budget.total ≤ limit.toNat
  entries : ∀ limit, policy.limits.maxEntries = some limit →
    budget.accepted.length ≤ budget.planner.plannedEntries.toNat ∧
      budget.planner.plannedEntries ≤ limit
  ratio : ∀ entry ∈ budget.accepted, WithinRatio policy entry

variable {fold resolver} {policy : ExtractionPolicy} {budget : Budget}

/-- An addition within the limit is exact, unless it is cut off at the greatest limit. -/
theorem saturatingAdd_exact {left right : UInt64}
    (fits : limit = 18446744073709551615 → left.toNat + right.toNat < 2 ^ 64)
    (bounded : saturatingAdd left right ≤ limit) :
    (saturatingAdd left right).toNat = left.toNat + right.toNat := by
  by_cases greatest : limit = 18446744073709551615
  · unfold saturatingAdd
    rw [if_pos (fits greatest), UInt64.toNat_add]
    exact Nat.mod_eq_of_lt (fits greatest)
  · exact saturatingAdd_toNat bounded greatest

theorem start_exact (destinationRoot : PathBuf) (policy : ExtractionPolicy) :
    (start destinationRoot policy).Exact policy where
  settings := rfl
  bytes := fun _ _ => ⟨rfl, Nat.zero_le _⟩
  entries := fun _ _ => ⟨Nat.le_refl 0, UInt64.le_iff_toNat_le.mpr (Nat.zero_le _)⟩
  ratio := fun _ member => absurd member List.not_mem_nil

/-- The entry counter after a decision, and after one that accepts the entry. -/
theorem entries_after {request : Request}
    (limited : budget.planner.policy.limits.maxEntries = some limit)
    (fits : limit = 18446744073709551615 → budget.planner.plannedEntries.toNat + 1 < 2 ^ 64)
    (within : budget.planner.plannedEntries ≤ limit) :
    let made := call fold resolver budget.planner request
    made.after.plannedEntries ≤ limit ∧
      budget.planner.plannedEntries.toNat + (if made.plan?.isSome then 1 else 0) ≤
        made.after.plannedEntries.toNat := by
  intro made
  have outcome : (validateEntry fold request.probe resolver request.entry).exec budget.planner =
      (made.result, made.after) := call_isOutcome budget.planner request
  rcases validateEntry_reserves outcome with ⟨kept, unwritten⟩ | ⟨name, reserved, counted, kept⟩
  · have refused : made.plan?.isSome = false := by
      cases planned : made.plan? with
      | none => rfl
      | some plan => exact absurd (Call.result_of_plan? planned) (unwritten plan)
    rw [refused, kept]
    exact ⟨within, Nat.le_refl _⟩
  · rcases reserveEntry_cases counted with ⟨_, unlimited | failed⟩ | ⟨bound, _, bounded, less, same⟩
    · rw [limited] at unlimited
      cases unlimited
    · exact absurd rfl failed
    · rw [limited] at bounded
      cases bounded
      have sum := saturatingAdd_exact fits less
      rw [show made.after.plannedEntries = reserved.plannedEntries from kept, same]
      refine ⟨less, ?_⟩
      dsimp only
      rw [sum]
      split_ifs
      · exact Nat.le_refl _
      · exact Nat.le_add_right _ _

/-- The byte counter after a charge that the limit allows. -/
theorem bytes_after (exact : budget.Exact policy) {bytes sum : UInt64}
    (limited : policy.limits.maxExpandedBytes = some limit)
    (fits : limit = 18446744073709551615 →
      budget.planner.plannedExpandedBytes.toNat + bytes.toNat < 2 ^ 64)
    (added : sum = saturatingAdd budget.planner.plannedExpandedBytes bytes)
    (less : sum ≤ limit ∨ sum = budget.planner.plannedExpandedBytes) :
    sum.toNat = budget.total + bytes.toNat ∧ budget.total + bytes.toNat ≤ limit.toNat := by
  obtain ⟨counted, within⟩ := exact.bytes limit limited
  have bounded : sum ≤ limit := by
    rcases less with less | same
    · exact less
    · rw [same, UInt64.le_iff_toNat_le, counted]
      exact within
  have value : sum.toNat = budget.total + bytes.toNat := by
    rw [added] at bounded ⊢
    rw [saturatingAdd_exact fits bounded, counted]
  exact ⟨value, value ▸ UInt64.le_iff_toNat_le.mp bounded⟩

theorem total_accept (planner : Planner) (entry : ExtractionEntry) :
    total ⟨planner, entry :: budget.accepted, budget.reserved⟩ =
      budget.total + (declaredBytes entry).toNat := by
  simp only [total, List.map_cons, List.sum_cons]
  omega

theorem total_reserve (planner : Planner) (bytes : UInt64) :
    total ⟨planner, budget.accepted, bytes :: budget.reserved⟩ = budget.total + bytes.toNat := by
  simp only [total, List.map_cons, List.sum_cons]
  omega

/-- A decision keeps the counters exact. -/
theorem Exact.entry (exact : budget.Exact policy) {request : Request}
    (fits : budget.Fits (.entry request)) :
    (budget.step fold resolver (.entry request)).Exact policy := by
  have settled := exact.settings
  have entries : ∀ limit, policy.limits.maxEntries = some limit →
      (call fold resolver budget.planner request).after.plannedEntries ≤ limit ∧
        budget.planner.plannedEntries.toNat +
          (if (call fold resolver budget.planner request).plan?.isSome then 1 else 0) ≤
            (call fold resolver budget.planner request).after.plannedEntries.toNat := by
    intro limit limited
    have allowed : limit = 18446744073709551615 →
        budget.planner.plannedEntries.toNat + 1 < 2 ^ 64 := by
      intro greatest
      apply fits.entries
      rw [settled, limited, greatest]
    exact entries_after (by rw [settled, limited]) allowed (exact.entries limit limited).2
  have outcome : (validateEntry fold request.probe resolver request.entry).exec budget.planner =
      ((call fold resolver budget.planner request).result,
        (call fold resolver budget.planner request).after) :=
    call_isOutcome budget.planner request
  unfold Budget.step
  dsimp only
  cases planned : (call fold resolver budget.planner request).plan? with
  | none =>
    rw [planned] at entries
    have quiet := validateEntry_quiet outcome fun plan written => by
      have found := Call.plan?_of_result written
      rw [planned] at found
      cases found
    constructor
    · exact quiet.settings.policy.trans settled
    · intro limit limited
      have kept := exact.bytes limit limited
      rw [← quiet.plannedExpandedBytes] at kept
      exact kept
    · intro limit limited
      obtain ⟨less, more⟩ := entries limit limited
      exact ⟨(exact.entries limit limited).1.trans more, less⟩
    · exact exact.ratio
  | some plan =>
    rw [planned] at entries
    rw [Call.result_of_plan? planned] at outcome
    obtain ⟨before, charged, same, counter, expanded, last⟩ := validateEntry_charges outcome
    obtain ⟨ratio, charge⟩ := reserveExpandedSize_charges expanded
    rw [same, settled] at ratio charge
    constructor
    · exact (validateEntry_write outcome).settings.policy.trans settled
    · intro limit limited
      obtain ⟨added, less⟩ := charge limit limited
      rw [counter] at added less
      obtain ⟨value, within⟩ := bytes_after exact limited
        (fun greatest => fits.bytes (by rw [settled, limited, greatest])) added less
      simp only [Option.isSome_some, ↓reduceIte]
      rw [total_accept, last]
      exact ⟨value, within⟩
    · intro limit limited
      obtain ⟨less, more⟩ := entries limit limited
      refine ⟨?_, less⟩
      have counted := (exact.entries limit limited).1
      simp only [Option.isSome_some, ↓reduceIte, List.length_cons] at more ⊢
      omega
    · intro entry member
      simp only [Option.isSome_some, ↓reduceIte] at member
      rcases List.mem_cons.mp member with rfl | old
      · exact ratio
      · exact exact.ratio entry old

/-- A reservation keeps the counters exact. -/
theorem Exact.bytesReserved (exact : budget.Exact policy) {archivePath : Text} {bytes : UInt64}
    (fits : budget.Fits (.bytes archivePath bytes)) :
    (budget.step fold resolver (.bytes archivePath bytes)).Exact policy := by
  have settled := exact.settings
  unfold Budget.step
  dsimp only
  rcases outcome : (reserveExpandedBytes archivePath bytes).exec budget.planner with
    ⟨result, after⟩
  rcases reserveExpandedBytes_cases outcome with ⟨rfl, unlimited | failed⟩ | charged
  · rw [settled] at unlimited
    cases result with
    | error failure => exact ⟨settled, exact.bytes, exact.entries, exact.ratio⟩
    | ok value =>
      refine ⟨settled, ?_, exact.entries, exact.ratio⟩
      intro limit limited
      rw [unlimited] at limited
      cases limited
  · cases result with
    | error failure => exact ⟨settled, exact.bytes, exact.entries, exact.ratio⟩
    | ok value => exact absurd rfl failed
  · obtain ⟨bound, rfl, bounded, less, rfl⟩ := charged
    rw [settled] at bounded
    refine ⟨settled, ?_, exact.entries, exact.ratio⟩
    intro limit limited
    rw [bounded] at limited
    cases limited
    obtain ⟨value, within⟩ := bytes_after exact bounded
      (fun greatest => fits.bytes (by rw [settled, bounded, greatest])) rfl (.inl less)
    dsimp only
    rw [total_reserve]
    exact ⟨value, within⟩

theorem Exact.run (exact : budget.Exact policy) {requests : List BudgetRequest}
    (fits : AllFit fold resolver budget requests) :
    (requests.foldl (Budget.step fold resolver) budget).Exact policy := by
  induction requests generalizing budget with
  | nil => exact exact
  | cons request rest ih =>
    apply ih ?_ fits.2
    cases request with
    | entry request => exact exact.entry fits.1
    | bytes archivePath bytes => exact exact.bytesReserved fits.1

/-- **The budget is exact.** In every run of both functions in which no addition under the
greatest limit is cut off, the counters are the exact sums and keep to the limits. -/
theorem budget_exact (fold : CaseFolding) (resolver : Option OverwriteResolver)
    (destinationRoot : PathBuf) (policy : ExtractionPolicy) (requests : List BudgetRequest)
    (fits : AllFit fold resolver (start destinationRoot policy) requests) :
    (requests.foldl (Budget.step fold resolver) (start destinationRoot policy)).Exact policy :=
  (start_exact destinationRoot policy).run fits

/-- A file and a copy of it under a limit of eight bytes. -/
theorem budget_exact_of_copy :
    ([.entry ⟨(outDisk []).probe, ⟨"a".toList, .file, some 4, some 4⟩⟩,
      .bytes "b".toList 4].foldl (Budget.step .ascii none)
        (start outRoot { limits := { maxExpandedBytes := some 8 } })).Exact
          { limits := { maxExpandedBytes := some 8 } } :=
  budget_exact .ascii none outRoot { limits := { maxExpandedBytes := some 8 } } _
    ⟨⟨fun greatest => absurd greatest (by decide +kernel), fun greatest =>
        absurd greatest (by decide +kernel)⟩,
      ⟨fun greatest => absurd greatest (by decide +kernel), fun greatest =>
        absurd greatest (by decide +kernel)⟩, trivial⟩

/-- Two files that declare more than the greatest `u64` together, under that limit. -/
theorem budget_cut_off :
    ¬ ([.entry ⟨(outDisk []).probe,
        ⟨"a".toList, .file, some 18446744073709551615, none⟩⟩,
      .entry ⟨(outDisk []).probe, ⟨"b".toList, .file, some 1, none⟩⟩].foldl
        (Budget.step .ascii none)
        (start outRoot { limits := { maxExpandedBytes := some 18446744073709551615 } })).Exact
          { limits := { maxExpandedBytes := some 18446744073709551615 } } := by
  intro exact
  exact absurd (exact.bytes 18446744073709551615 rfl).1 (by decide +kernel)

end Budget

end Planner

end ZManager
