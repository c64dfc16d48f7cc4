import Mathlib.Tactic.Basic
import Mathlib.Data.List.Forall2
import Mathlib.Logic.Basic

/-! # Fallible computations over a state

A step computation reads and writes a state and may fail; the state changes
made before a failure stay. `StepM.exec` runs one, and the rules below take a
successful run apart into the successful runs of its parts, so that proofs
about composed computations never unfold the monad.
-/

namespace ZManager

universe u v

/-- Computations that may fail and keep the state reached when they do. -/
abbrev StepM (ε σ : Type u) := ExceptT ε (StateM σ)

namespace StepM

variable {ε σ α β : Type u}

variable {computation : StepM ε σ α} {next : α → StepM ε σ β}

/-- The result and the final state of a computation. -/
def exec (computation : StepM ε σ α) (state : σ) : Except ε α × σ :=
  (ExceptT.run computation).run state

@[simp] theorem exec_pure (value : α) (state : σ) :
    exec (pure value : StepM ε σ α) state = (.ok value, state) := rfl

@[simp] theorem exec_throw (failure : ε) (state : σ) :
    exec (throw failure : StepM ε σ α) state = (.error failure, state) := rfl

@[simp] theorem exec_get (state : σ) : exec (get : StepM ε σ σ) state = (.ok state, state) := rfl

@[simp] theorem exec_set (next state : σ) :
    exec (set next : StepM ε σ PUnit) state = (.ok ⟨⟩, next) := rfl

@[simp] theorem exec_modify (update : σ → σ) (state : σ) :
    exec (modify update : StepM ε σ PUnit) state = (.ok ⟨⟩, update state) := rfl

@[simp] theorem exec_lift (result : Except ε α) (state : σ) :
    exec (liftM result : StepM ε σ α) state = (result, state) := by
  cases result <;> rfl

theorem exec_bind (computation : StepM ε σ α) (next : α → StepM ε σ β) (state : σ) :
    exec (computation >>= next) state =
      match exec computation state with
      | (.ok value, middle) => exec (next value) middle
      | (.error failure, middle) => (.error failure, middle) := by
  change (match (ExceptT.run computation).run state with
    | (result, middle) => StateT.run (m := Id) (match result with
        | .ok value => ExceptT.run (next value)
        | .error failure => pure (.error failure)) middle) = _
  unfold exec
  rcases (ExceptT.run computation).run state with ⟨result, middle⟩
  cases result <;> rfl

/-- A composition succeeds exactly when its parts do, one after the other. -/
theorem exec_bind_eq_ok {state last : σ} {result : β} :
    exec (computation >>= next) state = (.ok result, last) ↔
      ∃ value middle, exec computation state = (.ok value, middle) ∧
        exec (next value) middle = (.ok result, last) := by
  rw [exec_bind]
  cases outcome : exec computation state with
  | mk first middle =>
    cases first with
    | ok value =>
      constructor
      · intro finished
        exact ⟨value, middle, rfl, finished⟩
      · rintro ⟨_, _, same, finished⟩
        cases same
        exact finished
    | error failure =>
      constructor
      · intro finished
        cases finished
      · rintro ⟨_, _, same, _⟩
        cases same

/-- A composition fails in its first part, or goes on where that part ends. -/
theorem exec_bind_cases {state last : σ} {result : Except ε β}
    (finished : exec (computation >>= next) state = (result, last)) :
    (∃ failure, exec computation state = (.error failure, last) ∧ result = .error failure) ∨
      ∃ value middle, exec computation state = (.ok value, middle) ∧
        exec (next value) middle = (result, last) := by
  rw [exec_bind] at finished
  cases outcome : exec computation state with
  | mk first middle =>
    rw [outcome] at finished
    cases first with
    | ok value => exact .inr ⟨value, middle, rfl, finished⟩
    | error failure =>
      cases finished
      exact .inl ⟨failure, rfl, rfl⟩

/-- The same computation with its failures translated. -/
def mapError {ε' : Type u} (translate : ε → ε') (computation : StepM ε σ α) : StepM ε' σ α :=
  ExceptT.mk fun state =>
    ((exec computation state).1.mapError translate, (exec computation state).2)

@[simp] theorem exec_mapError {ε' : Type u} (translate : ε → ε') (computation : StepM ε σ α)
    (state : σ) : exec (mapError translate computation) state =
      ((exec computation state).1.mapError translate, (exec computation state).2) := rfl

/-- Every run of the computation, failing or not, relates the states before and
after it. -/
def Preserves (relation : σ → σ → Prop) (computation : StepM ε σ α) : Prop :=
  ∀ state, relation state (exec computation state).2

namespace Preserves

variable {relation : σ → σ → Prop}

variable {computation : StepM ε σ α}

theorem of_exec_eq (refl : ∀ state, relation state state)
    (unchanged : ∀ state, (exec computation state).2 = state) :
    Preserves relation computation := by
  intro state
  rw [unchanged state]
  exact refl state

theorem of_exec (preserves : Preserves relation computation) {state last : σ}
    {result : Except ε α} (finished : exec computation state = (result, last)) :
    relation state last := by
  have preserved := preserves state
  rwa [finished] at preserved

theorem bind (trans : ∀ first second third, relation first second → relation second third →
      relation first third) (start : Preserves relation computation)
    (rest : ∀ value, Preserves relation (next value)) :
    Preserves relation (computation >>= next) := by
  intro state
  have started := start state
  rw [exec_bind]
  rcases outcome : exec computation state with ⟨result, middle⟩
  rw [outcome] at started
  cases result with
  | ok value => exact trans _ _ _ started (rest value middle)
  | error failure => exact started

end Preserves

/-- Every failure of the computation is an allowed one. -/
def FailsOnlyWith (allowed : ε → Prop) (computation : StepM ε σ α) : Prop :=
  ∀ state failure, (exec computation state).1 = .error failure → allowed failure

namespace FailsOnlyWith

variable {allowed : ε → Prop}

variable {computation : StepM ε σ α}

theorem of_exec_ok (succeeds : ∀ state, ∃ value, (exec computation state).1 = .ok value) :
    FailsOnlyWith allowed computation := by
  intro state failure failed
  obtain ⟨value, finished⟩ := succeeds state
  rw [finished] at failed
  cases failed

theorem throw {failure : ε} (fits : allowed failure) :
    FailsOnlyWith allowed (throw failure : StepM ε σ α) := by
  intro state found failed
  cases failed
  exact fits

theorem bind (start : FailsOnlyWith allowed computation)
    (rest : ∀ value, FailsOnlyWith allowed (next value)) :
    FailsOnlyWith allowed (computation >>= next) := by
  intro state failure failed
  rw [exec_bind] at failed
  rcases outcome : exec computation state with ⟨result, middle⟩
  rw [outcome] at failed
  cases result with
  | ok value => exact rest value middle failure failed
  | error found =>
    cases failed
    exact start state failure (by rw [outcome])

end FailsOnlyWith

end StepM

theorem Except.mapError_eq_ok {ε ε' α : Type} {result : Except ε α} {wrap : ε → ε'} {value : α} :
    result.mapError wrap = .ok value ↔ result = .ok value := by
  cases result with
  | ok found =>
    constructor
    · intro same
      cases same
      rfl
    · intro same
      cases same
      rfl
  | error failure => exact ⟨fun same => (by cases same), fun same => (by cases same)⟩

/-- A composition of fallible computations succeeds exactly when its parts do. -/
theorem Except.bind_eq_ok_iff {ε : Type v} {α β : Type u} {computation : Except ε α}
    {next : α → Except ε β} {result : β} :
    computation >>= next = .ok result ↔
      ∃ value, computation = .ok value ∧ next value = .ok result := by
  cases computation with
  | ok value => exact ⟨fun finished => ⟨value, rfl, finished⟩, fun ⟨_, same, finished⟩ => by
      cases same; exact finished⟩
  | error failure => exact ⟨fun finished => (by cases finished), fun ⟨_, same, _⟩ => (by
      cases same)⟩

/-- A check of every item passes exactly when each item passes. -/
theorem Except.forM_eq_ok_iff {ε α : Type} {check : α → Except ε Unit} {items : List α} :
    items.forM check = .ok () ↔ ∀ item ∈ items, check item = .ok () := by
  induction items with
  | nil => exact ⟨fun _ item member => (by cases member), fun _ => rfl⟩
  | cons item rest ih =>
    rw [List.forM, Except.bind_eq_ok_iff, List.forall_mem_cons]
    constructor
    · rintro ⟨_, first, others⟩
      exact ⟨first, ih.mp others⟩
    · rintro ⟨first, others⟩
      exact ⟨(), first, ih.mpr others⟩

theorem Except.toOption_eq_some {ε : Type v} {α : Type u} {result : Except ε α} {value : α} :
    result.toOption = some value ↔ result = .ok value := by
  cases result with
  | ok found => exact ⟨fun same => congrArg _ (Option.some.inj same), fun same => by cases same; rfl⟩
  | error failure => exact ⟨fun same => (by cases same), fun same => (by cases same)⟩

theorem Except.map_eq_ok_iff {ε : Type v} {α β : Type u} {computation : Except ε α}
    {next : α → β} {result : β} :
    computation.map next = .ok result ↔ ∃ value, computation = .ok value ∧ next value = result := by
  cases computation with
  | ok value => simp [Except.map]
  | error failure => simp [Except.map]

theorem Except.mapM_eq_ok {ε α β : Type} {step : α → Except ε β} {value : α → β}
    {items : List α} (each : ∀ item ∈ items, step item = .ok (value item)) :
    items.mapM step = .ok (items.map value) := by
  induction items with
  | nil => rfl
  | cons item rest ih =>
    rw [List.mapM_cons, each item List.mem_cons_self,
      ih fun other member => each other (List.mem_cons_of_mem _ member)]
    rfl

/-- Where every item of a list succeeds, the results are those of the items. -/
theorem Except.exists_of_mapM_eq_ok {ε α β : Type} [Inhabited β] {step : α → Except ε β}
    {items : List α} {results : List β} (done : items.mapM step = .ok results) :
    ∃ value : α → β, (∀ item ∈ items, step item = .ok (value item)) ∧
      results = items.map value := by
  have each : ∀ item ∈ items, step item = .ok ((step item).toOption.getD default) := by
    induction items generalizing results with
    | nil => simp
    | cons item rest ih =>
      rw [List.mapM_cons] at done
      obtain ⟨first, head, done⟩ := Except.bind_eq_ok_iff.mp done
      obtain ⟨others, tail, -⟩ := Except.bind_eq_ok_iff.mp done
      intro other member
      rcases List.mem_cons.mp member with rfl | inside
      · rw [head]
        rfl
      · exact ih tail other inside
  refine ⟨_, each, ?_⟩
  rw [Except.mapM_eq_ok each] at done
  cases done
  rfl

/-- The results of a list are those of its items, one for one. -/
theorem Except.forall₂_of_mapM_eq_ok {ε α β : Type} {step : α → Except ε β} {items : List α}
    {results : List β} (done : items.mapM step = .ok results) :
    List.Forall₂ (fun item result => step item = .ok result) items results := by
  induction items generalizing results with
  | nil =>
    cases done
    exact .nil
  | cons item rest ih =>
    rw [List.mapM_cons] at done
    obtain ⟨first, head, done⟩ := Except.bind_eq_ok_iff.mp done
    obtain ⟨others, tail, done⟩ := Except.bind_eq_ok_iff.mp done
    cases done
    exact .cons head (ih tail)

theorem forall₂_exists_of_mem_left {α β : Type} {related : α → β → Prop} {left : List α}
    {right : List β} (pairs : List.Forall₂ related left right) {item : α} (member : item ∈ left) :
    ∃ other ∈ right, related item other := by
  induction pairs with
  | nil => cases member
  | @cons first second _ _ held _ ih =>
    rcases List.mem_cons.mp member with rfl | inside
    · exact ⟨second, List.mem_cons_self, held⟩
    · obtain ⟨other, found, holds⟩ := ih inside
      exact ⟨other, List.mem_cons_of_mem _ found, holds⟩

theorem forall₂_exists_of_mem_right {α β : Type} {related : α → β → Prop} {left : List α}
    {right : List β} (pairs : List.Forall₂ related left right) {other : β}
    (member : other ∈ right) : ∃ item ∈ left, related item other := by
  induction pairs with
  | nil => cases member
  | @cons first second _ _ held _ ih =>
    rcases List.mem_cons.mp member with rfl | inside
    · exact ⟨first, List.mem_cons_self, held⟩
    · obtain ⟨item, found, holds⟩ := ih inside
      exact ⟨item, List.mem_cons_of_mem _ found, holds⟩

end ZManager
