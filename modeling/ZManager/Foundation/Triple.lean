import ZManager.Foundation.Step

/-! # Pre- and postconditions of step computations

A triple says what a computation establishes from a precondition: one condition
of the value and the state when it succeeds, and one of the state when it fails.
The rules follow the combinators, so a program is verified along its text.
-/

namespace ZManager

universe u

namespace StepM

variable {ε σ α β : Type u}

/-- From every state that satisfies `pre`, a success satisfies `post` and a
failure leaves a state that satisfies `failed`. -/
def Triple (pre : σ → Prop) (computation : StepM ε σ α) (post : α → σ → Prop)
    (failed : σ → Prop) : Prop :=
  ∀ state, pre state →
    (∀ value last, exec computation state = (.ok value, last) → post value last) ∧
      ∀ failure last, exec computation state = (.error failure, last) → failed last

namespace Triple

variable {pre : σ → Prop} {post : α → σ → Prop} {failed : σ → Prop}

variable {computation : StepM ε σ α} {next : α → StepM ε σ β}

theorem pure {value : α} (holds : ∀ state, pre state → post value state) :
    Triple pre (pure value : StepM ε σ α) post failed := by
  intro state start
  refine ⟨fun found last finished => ?_, fun failure last finished => (by cases finished)⟩
  cases finished
  exact holds state start

theorem throw {failure : ε} (holds : ∀ state, pre state → failed state) :
    Triple pre (throw failure : StepM ε σ α) post failed := by
  intro state start
  refine ⟨fun found last finished => (by cases finished), fun failure last finished => ?_⟩
  cases finished
  exact holds state start

theorem bind {middle : α → σ → Prop} {post : β → σ → Prop}
    (first : Triple pre computation middle failed)
    (rest : ∀ value, Triple (middle value) (next value) post failed) :
    Triple pre (computation >>= next) post failed := by
  intro state start
  obtain ⟨succeeds, fails⟩ := first state start
  refine ⟨fun value last finished => ?_, fun failure last finished => ?_⟩
  · rcases exec_bind_cases finished with ⟨_, -, same⟩ | ⟨found, between, ran, finished⟩
    · cases same
    · exact (rest found between (succeeds found between ran)).1 value last finished
  · rcases exec_bind_cases finished with ⟨found, ran, -⟩ | ⟨found, between, ran, finished⟩
    · exact fails found last ran
    · exact (rest found between (succeeds found between ran)).2 failure last finished

/-- A computation that starts with a result already known. -/
theorem lift_bind {result : Except ε α} {post : β → σ → Prop}
    (succeeds : ∀ value, result = .ok value → Triple pre (next value) post failed)
    (fails : ∀ failure, result = .error failure → ∀ state, pre state → failed state) :
    Triple pre (liftM result >>= next) post failed := by
  cases result with
  | ok value =>
    intro state start
    exact succeeds value rfl state start
  | error failure =>
    intro state start
    refine ⟨fun value last finished => (by cases finished), fun found last finished => ?_⟩
    cases finished
    exact fails failure rfl state start

/-- A computation that starts by reading the state. -/
theorem get_bind {next : σ → StepM ε σ β} {post : β → σ → Prop}
    (rest : ∀ state, pre state → Triple (· = state) (next state) post failed) :
    Triple pre (get >>= next) post failed := by
  intro state start
  rw [exec_bind, exec_get]
  exact rest state start state rfl

theorem set {next : σ} {post : PUnit → σ → Prop} (holds : ∀ state, pre state → post ⟨⟩ next) :
    Triple pre (set next : StepM ε σ PUnit) post failed := by
  intro state start
  refine ⟨fun found last finished => ?_, fun failure last finished => (by cases finished)⟩
  cases finished
  exact holds state start

/-- A computation that starts by replacing the state. -/
theorem set_bind {next : σ} {rest : PUnit → StepM ε σ β} {post : β → σ → Prop}
    (holds : ∀ state, pre state → Triple (· = next) (rest ⟨⟩) post failed) :
    Triple pre (MonadStateOf.set next >>= rest) post failed := by
  intro state start
  exact holds state start next rfl

theorem modify {update : σ → σ} {post : PUnit → σ → Prop}
    (holds : ∀ state, pre state → post ⟨⟩ (update state)) :
    Triple pre (modify update : StepM ε σ PUnit) post failed := by
  intro state start
  refine ⟨fun found last finished => ?_, fun failure last finished => (by cases finished)⟩
  cases finished
  exact holds state start

theorem weaken {pre' : σ → Prop} {post' : α → σ → Prop} {failed' : σ → Prop}
    (triple : Triple pre computation post failed) (stronger : ∀ state, pre' state → pre state)
    (weaker : ∀ value state, post value state → post' value state)
    (weaker' : ∀ state, failed state → failed' state) :
    Triple pre' computation post' failed' := by
  intro state start
  obtain ⟨succeeds, fails⟩ := triple state (stronger state start)
  exact ⟨fun value last finished => weaker value last (succeeds value last finished),
    fun failure last finished => weaker' last (fails failure last finished)⟩

/-- What holds after every success and after every failure holds in the end. -/
theorem exec {final : σ → Prop} (triple : Triple pre computation (fun _ => final) final)
    {state : σ} (start : pre state) :
    final (exec computation state).2 := by
  obtain ⟨succeeds, fails⟩ := triple state start
  rcases outcome : StepM.exec computation state with ⟨result, last⟩
  cases result with
  | ok value => exact succeeds value last outcome
  | error failure => exact fails failure last outcome

end Triple

/-- Every run of the computation, failing or not, keeps the invariant. -/
abbrev Maintains (invariant : σ → Prop) (computation : StepM ε σ α) : Prop :=
  Triple invariant computation (fun _ => invariant) invariant

namespace Maintains

variable {invariant : σ → Prop}

theorem bind {computation : StepM ε σ α} {next : α → StepM ε σ β}
    (first : Maintains invariant computation) (rest : ∀ value, Maintains invariant (next value)) :
    Maintains invariant (computation >>= next) :=
  Triple.bind first rest

/-- A loop over a list keeps what its body keeps. -/
theorem forM {items : List α} {body : α → StepM ε σ PUnit}
    (step : ∀ item ∈ items, Maintains invariant (body item)) :
    Maintains invariant (items.forM body) := by
  induction items with
  | nil => exact .pure fun _ start => start
  | cons item rest ih =>
    refine .bind (step item (List.mem_cons_self ..)) fun _ => ?_
    exact ih fun other member => step other (List.mem_cons_of_mem _ member)

end Maintains

end StepM

end ZManager
