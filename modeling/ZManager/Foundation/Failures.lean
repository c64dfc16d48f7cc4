import ZManager.Foundation.ReadToEnd
import ZManager.Foundation.Step

/-! # Failures of a source

A computation reads answers from the front of a source that is part of its state. It
reports failures when it either comes to its result without the answers that follow, or
fails when the first of them is a failure.
-/

namespace ZManager

universe u

section

variable {ε σ α β : Type u} {ρ : Type*}

/-- Whatever stands behind the source is left as it is, or a failure there is an error. -/
def ReportsFailures (followedBy : σ → List ρ → σ) (IsFailure : ρ → Prop)
    (run : σ → Except ε α × σ) : Prop :=
  ∀ state,
    (∃ result next, ∀ tail, run (followedBy state tail) = (result, followedBy next tail)) ∨
      ∀ failure tail, IsFailure failure →
        ∃ error next, run (followedBy state (failure :: tail)) = (.error error, next)

namespace ReportsFailures

variable {followedBy : σ → List ρ → σ} {IsFailure : ρ → Prop}

/-- A run that does not look at the source. -/
theorem of_local {run : σ → Except ε α × σ} {result : σ → Except ε α} {next : σ → σ}
    (same : ∀ state tail,
      run (followedBy state tail) = (result state, followedBy (next state) tail)) :
    ReportsFailures followedBy IsFailure run :=
  fun state => .inl ⟨result state, next state, same state⟩

theorem pure (value : α) :
    ReportsFailures followedBy IsFailure (StepM.exec (Pure.pure value : StepM ε σ α)) :=
  @of_local _ _ _ _ _ _ _ (fun _ => .ok value) id fun _ _ => rfl

theorem throw (failure : ε) :
    ReportsFailures followedBy IsFailure (StepM.exec (MonadExcept.throw failure : StepM ε σ α)) :=
  @of_local _ _ _ _ _ _ _ (fun _ => .error failure) id fun _ _ => rfl

theorem bind {computation : StepM ε σ α} {next : α → StepM ε σ β}
    (first : ReportsFailures followedBy IsFailure computation.exec)
    (second : ∀ value, ReportsFailures followedBy IsFailure (next value).exec) :
    ReportsFailures followedBy IsFailure (computation >>= next).exec := by
  intro state
  rcases first state with ⟨result, middle, same⟩ | failing
  · cases result with
    | error failure =>
      refine .inl ⟨.error failure, middle, fun tail => ?_⟩
      rw [StepM.exec_bind, same]
    | ok value =>
      rcases second value middle with ⟨result, last, same'⟩ | failing
      · refine .inl ⟨result, last, fun tail => ?_⟩
        rw [StepM.exec_bind, same]
        exact same' tail
      · refine .inr fun failure tail is => ?_
        obtain ⟨error, last, failed⟩ := failing failure tail is
        refine ⟨error, last, ?_⟩
        rw [StepM.exec_bind, same]
        exact failed
  · refine .inr fun failure tail is => ?_
    obtain ⟨error, last, failed⟩ := failing failure tail is
    refine ⟨error, last, ?_⟩
    rw [StepM.exec_bind, failed]

end ReportsFailures

end

section

variable {ε σ α : Type u} {ρ : Type*} {followedBy : σ → List ρ → σ} {IsFailure : ρ → Prop}

/-- **Reading to the end** in front of a failure is an error, or comes to its outcome
whatever follows instead. -/
theorem ReadsToEnd.of_failure {read : σ → Nat → Except ε (List α) × σ}
    (reports : ∀ size, ReportsFailures followedBy IsFailure (read · size))
    {sizes : Nat → Nat} {state final : σ} {failure : ρ} {tail : List ρ} (is : IsFailure failure)
    {outcome : Except ε (List α)}
    (reads : ReadsToEnd (fun state size answer next => read state size = (answer, next)) sizes
      (followedBy state (failure :: tail)) outcome final) :
    (∃ error, outcome = .error error) ∨ ∀ other, ∃ final,
      ReadsToEnd (fun state size answer next => read state size = (answer, next)) sizes
        (followedBy state other) outcome final := by
  generalize start : followedBy state (failure :: tail) = begun at reads
  induction reads generalizing state with
  | @ended sizes begun final answer =>
    subst start
    rcases reports (sizes 0) state with ⟨result, next, same⟩ | failing
    · refine .inr fun other => ⟨followedBy next other, .ended ?_⟩
      cases (same (failure :: tail)).symm.trans answer
      exact same other
    · obtain ⟨error, _, failed⟩ := failing failure tail is
      cases failed.symm.trans answer
  | failed answer => exact .inl ⟨_, rfl⟩
  | @more sizes begun next final bytes outcome answer some rest ih =>
    subst start
    rcases reports (sizes 0) state with ⟨result, middle, same⟩ | failing
    · have here := (same (failure :: tail)).symm.trans answer
      obtain ⟨rfl, reached⟩ := Prod.mk.inj here
      rcases ih reached with ⟨error, rfl⟩ | further
      · exact .inl ⟨error, rfl⟩
      · refine .inr fun other => ?_
        obtain ⟨last, reads⟩ := further other
        exact ⟨last, .more (same other) some reads⟩
    · obtain ⟨error, _, failed⟩ := failing failure tail is
      cases failed.symm.trans answer

end

end ZManager
