import Mathlib.Data.List.Basic
import Mathlib.Order.WellFounded

/-! # Reading to the end

A reader is called with buffers of given sizes until it answers with no bytes or
with an error.
-/

namespace ZManager

variable {σ α ε : Type*}

/-- What is handed out, and what is left behind it. -/
theorem take_append_drop_length_take (count : Nat) (bytes : List α) :
    bytes.take count ++ bytes.drop (bytes.take count).length = bytes := by
  rw [List.length_take]
  by_cases small : count ≤ bytes.length
  · rw [Nat.min_eq_left small, List.take_append_drop]
  · rw [Nat.min_eq_right (Nat.le_of_not_le small), List.drop_length, List.append_nil,
      List.take_of_length_le (Nat.le_of_not_le small)]

theorem map_append_append (one two : List α) (outcome : Except ε (List α)) :
    (outcome.map (two ++ ·)).map (one ++ ·) = outcome.map (one ++ two ++ ·) := by
  cases outcome with
  | error source => rfl
  | ok bytes => exact congrArg Except.ok (List.append_assoc one two bytes).symm

/-- Reading from a state with buffers of the given sizes ends with an outcome. -/
inductive ReadsToEnd (returns : σ → Nat → Except ε (List α) → σ → Prop) :
    (sizes : Nat → Nat) → σ → Except ε (List α) → σ → Prop
  | ended {sizes : Nat → Nat} {start final : σ} (answer : returns start (sizes 0) (.ok []) final) :
      ReadsToEnd returns sizes start (.ok []) final
  | failed {sizes : Nat → Nat} {start final : σ} {source : ε}
      (answer : returns start (sizes 0) (.error source) final) :
      ReadsToEnd returns sizes start (.error source) final
  | more {sizes : Nat → Nat} {start next final : σ} {bytes : List α}
      {outcome : Except ε (List α)} (answer : returns start (sizes 0) (.ok bytes) next)
      (some : bytes ≠ []) (rest : ReadsToEnd returns (fun index => sizes (index + 1)) next
        outcome final) :
      ReadsToEnd returns sizes start (outcome.map (bytes ++ ·)) final

variable {returns : σ → Nat → Except ε (List α) → σ → Prop} {sizes : Nat → Nat}
  {start : σ}

/-- Related readers that answer alike and stay related have the same outcomes. -/
theorem ReadsToEnd.of_related {related : σ → σ → Prop}
    (alike : ∀ {one two size answer next}, related one two → returns one size answer next →
      ∃ next', returns two size answer next' ∧ related next next')
    {outcome : Except ε (List α)} {final other : σ} (initial : related start other)
    (reads : ReadsToEnd returns sizes start outcome final) :
    ∃ final', ReadsToEnd returns sizes other outcome final' ∧ related final final' := by
  induction reads generalizing other with
  | ended answer =>
    obtain ⟨final', answer', kept⟩ := alike initial answer
    exact ⟨final', .ended answer', kept⟩
  | failed answer =>
    obtain ⟨final', answer', kept⟩ := alike initial answer
    exact ⟨final', .failed answer', kept⟩
  | more answer some rest ih =>
    obtain ⟨next', answer', kept⟩ := alike initial answer
    obtain ⟨final', reads, kept⟩ := ih kept
    exact ⟨final', .more answer' some reads, kept⟩

/-- A reader that has always less to deliver comes to its end. -/
theorem exists_readsToEnd {β : Type*} [Preorder β] [WellFoundedLT β] (usable : σ → Prop)
    (rank : σ → β)
    (answers : ∀ {state size}, usable state → 0 < size →
      ∃ answer next, returns state size answer next ∧
        ∀ bytes, answer = .ok bytes → bytes ≠ [] → usable next ∧ rank next < rank state)
    (positive : ∀ index, 0 < sizes index) (initial : usable start) :
    ∃ outcome final, ReadsToEnd returns sizes start outcome final := by
  generalize bound : rank start = left
  induction left using WellFoundedLT.induction generalizing start sizes with
  | _ left ih =>
    obtain ⟨answer, next, answered, further⟩ := answers initial (positive 0)
    cases answer with
    | error source => exact ⟨_, _, .failed answered⟩
    | ok bytes =>
      by_cases some : bytes = []
      · subst some
        exact ⟨_, _, .ended answered⟩
      · obtain ⟨again, less⟩ := further bytes rfl some
        obtain ⟨outcome, final, rest⟩ :=
          ih (rank next) (bound ▸ less) (fun index => positive (index + 1)) again rfl
        exact ⟨_, _, .more answered some rest⟩

/-- What holds of the bytes delivered so far and of the reader, at the start and after
every answer with bytes, holds when the end or the error comes. -/
theorem ReadsToEnd.invariant {holds : List α → σ → Prop}
    {outcome : Except ε (List α)} {final : σ}
    (preserved : ∀ {delivered state size bytes next}, holds delivered state →
      returns state size (.ok bytes) next → bytes ≠ [] → holds (delivered ++ bytes) next)
    {delivered : List α} (initial : holds delivered start)
    (reads : ReadsToEnd returns sizes start outcome final) :
    ∃ bytes last index, holds (delivered ++ bytes) last ∧
      ((outcome = .ok bytes ∧ returns last (sizes index) (.ok []) final) ∨
        ∃ source, outcome = .error source ∧ returns last (sizes index) (.error source) final) := by
  induction reads generalizing delivered with
  | @ended _ start _ answer =>
    exact ⟨[], start, 0, by rwa [List.append_nil], .inl ⟨rfl, answer⟩⟩
  | @failed _ start _ source answer =>
    exact ⟨[], start, 0, by rwa [List.append_nil], .inr ⟨source, rfl, answer⟩⟩
  | @more _ _ _ _ bytes outcome answer some rest ih =>
    obtain ⟨later, last, index, held, ending⟩ := ih (preserved initial answer some)
    rw [List.append_assoc] at held
    refine ⟨bytes ++ later, last, index + 1, held, ?_⟩
    rcases ending with ⟨rfl, ended⟩ | ⟨source, rfl, failed⟩
    · exact .inl ⟨rfl, ended⟩
    · exact .inr ⟨source, rfl, failed⟩

end ZManager
