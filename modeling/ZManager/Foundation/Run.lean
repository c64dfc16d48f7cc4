import Mathlib.Tactic.Basic

/-! # Runs of a guarded step function

A system takes actions one after the other; an action that is not possible in a
state has no next state. `Reaches` collects the states of all runs whose actions
are allowed where they are taken, and `Reaches.invariant` is the rule that a
property kept by every allowed step holds in all of them.

`Along` is the same for a call that makes its writes one after the other and may
stop between any two of them: the property holds before the first write, between
writes and after the last one.
-/

namespace ZManager

section

variable {σ α : Type} (step : σ → α → Option σ) (allowed : σ → α → Prop)

/-- The states that allowed actions lead to from a start. -/
inductive Reaches (start : σ → Prop) : σ → Prop
  | start {state : σ} (initial : start state) : Reaches start state
  | step {state next : σ} {action : α} (before : Reaches start state)
      (may : allowed state action) (taken : step state action = some next) : Reaches start next

/-- The state after a list of actions, when all of them are possible. -/
def runActions (state : σ) : List α → Option σ
  | [] => some state
  | action :: rest => (step state action).bind fun next => runActions next rest

variable {step allowed}

/-- A property of the start that every allowed step keeps holds in every state reached. -/
theorem Reaches.invariant {start holds : σ → Prop} (base : ∀ state, start state → holds state)
    (kept : ∀ state action next, holds state → allowed state action →
      step state action = some next → holds next) {state : σ}
    (reached : Reaches step allowed start state) : holds state := by
  induction reached with
  | start initial => exact base _ initial
  | step _ may taken ih => exact kept _ _ _ ih may taken

/-- One more action. -/
theorem Reaches.take {start : σ → Prop} {state next : σ}
    (before : Reaches step allowed start state) (action : α) (may : allowed state action)
    (taken : step state action = some next) : Reaches step allowed start next :=
  .step before may taken

/-- A list of actions, each allowed wherever it is taken. -/
theorem Reaches.runActions {start : σ → Prop} {state last : σ} {actions : List α}
    (before : Reaches step allowed start state)
    (may : ∀ state, ∀ action ∈ actions, allowed state action)
    (run : ZManager.runActions step state actions = some last) :
    Reaches step allowed start last := by
  induction actions generalizing state with
  | nil =>
    cases run
    exact before
  | cons action rest ih =>
    obtain ⟨next, taken, onward⟩ := Option.bind_eq_some_iff.mp run
    exact ih (before.take action (may state action List.mem_cons_self) taken)
      (fun state other member => may state other (List.mem_cons_of_mem _ member)) onward

end

section

variable {σ ε : Type} {apply : σ → ε → σ} {holds : σ → Prop}

/-- The property holds before, between and after the writes. -/
def Along (apply : σ → ε → σ) (holds : σ → Prop) (state : σ) : List ε → Prop
  | [] => holds state
  | effect :: rest => holds state ∧ Along apply holds (apply state effect) rest

theorem Along.start {state : σ} {effects : List ε} (along : Along apply holds state effects) :
    holds state := by
  cases effects with
  | nil => exact along
  | cons effect rest => exact along.1

theorem Along.finish {state : σ} {effects : List ε} (along : Along apply holds state effects) :
    holds (effects.foldl apply state) := by
  induction effects generalizing state with
  | nil => exact along
  | cons effect rest ih => exact ih along.2

theorem Along.append {state : σ} {first second : List ε} (one : Along apply holds state first)
    (two : Along apply holds (first.foldl apply state) second) :
    Along apply holds state (first ++ second) := by
  induction first generalizing state with
  | nil => exact two
  | cons effect rest ih => exact ⟨one.1, ih one.2 two⟩

end

end ZManager
