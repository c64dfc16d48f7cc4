import Mathlib.Logic.Function.Basic
import Mathlib.Data.List.Basic

/-! # Resources that one place holds

A place holds at most one resource. `Owned` says that the live resources are those that some
place holds, and that no two places hold the same one: none is lost and none is shared.
Acquiring a new resource, moving one to an empty place and releasing one keep it.
-/

namespace ZManager

variable {Place Resource : Type} {holds : Place → Option Resource} {live : List Resource}

/-- Every live resource is in exactly one place. -/
structure Owned (holds : Place → Option Resource) (live : List Resource) : Prop where
  held : ∀ resource, resource ∈ live ↔ ∃ place, holds place = some resource
  once : ∀ place other resource, holds place = some resource → holds other = some resource →
    place = other

namespace Owned

variable [DecidableEq Place] {place target : Place} {resource : Resource}

/-- A place that holds nothing takes a resource that was not live. -/
theorem acquire (owned : Owned holds live) (empty : holds place = none)
    (fresh : resource ∉ live) :
    Owned (Function.update holds place (some resource)) (resource :: live) where
  held query := by
    rw [List.mem_cons, owned.held]
    constructor
    · rintro (rfl | ⟨other, holdsIt⟩)
      · exact ⟨place, Function.update_self ..⟩
      · have apart : other ≠ place := by
          rintro rfl
          rw [empty] at holdsIt
          cases holdsIt
        exact ⟨other, by rw [Function.update_of_ne apart, holdsIt]⟩
    · rintro ⟨other, holdsIt⟩
      by_cases same : other = place
      · rw [same, Function.update_self] at holdsIt
        exact .inl (Option.some.inj holdsIt).symm
      · exact .inr ⟨other, by rwa [Function.update_of_ne same] at holdsIt⟩
  once first second query one two := by
    have notFresh : ∀ {other}, other ≠ place →
        Function.update holds place (some resource) other = some query → query ∈ live := by
      intro other apart holdsIt
      rw [Function.update_of_ne apart] at holdsIt
      exact (owned.held query).mpr ⟨other, holdsIt⟩
    have isFresh : Function.update holds place (some resource) place = some query →
        query = resource := by
      intro holdsIt
      rw [Function.update_self] at holdsIt
      exact (Option.some.inj holdsIt).symm
    by_cases left : first = place <;> by_cases right : second = place
    · rw [left, right]
    · subst left
      exact absurd (isFresh one ▸ notFresh right two) fresh
    · subst right
      exact absurd (isFresh two ▸ notFresh left one) fresh
    · rw [Function.update_of_ne left] at one
      rw [Function.update_of_ne right] at two
      exact owned.once _ _ _ one two

/-- What a place holds is released. -/
theorem release [DecidableEq Resource] (owned : Owned holds live)
    (holding : holds place = some resource) :
    Owned (Function.update holds place none) (live.filter (· ≠ resource)) where
  held query := by
    rw [List.mem_filter, owned.held, decide_eq_true_iff]
    constructor
    · rintro ⟨⟨other, holdsIt⟩, apart⟩
      have elsewhere : other ≠ place := by
        rintro rfl
        rw [holding] at holdsIt
        exact apart (Option.some.inj holdsIt).symm
      exact ⟨other, by rw [Function.update_of_ne elsewhere, holdsIt]⟩
    · rintro ⟨other, holdsIt⟩
      have elsewhere : other ≠ place := by
        rintro rfl
        rw [Function.update_self] at holdsIt
        cases holdsIt
      rw [Function.update_of_ne elsewhere] at holdsIt
      refine ⟨⟨other, holdsIt⟩, ?_⟩
      rintro rfl
      exact elsewhere (owned.once _ _ _ holdsIt holding)
  once first second query one two := by
    have elsewhere : ∀ {other}, Function.update holds place none other = some query →
        holds other = some query := by
      intro other holdsIt
      by_cases same : other = place
      · rw [same, Function.update_self] at holdsIt
        cases holdsIt
      · rwa [Function.update_of_ne same] at holdsIt
    exact owned.once _ _ _ (elsewhere one) (elsewhere two)

/-- What a place holds moves to a place that holds nothing. -/
theorem move [DecidableEq Resource] (owned : Owned holds live)
    (holding : holds place = some resource) (empty : holds target = none) :
    Owned (Function.update (Function.update holds place none) target (some resource)) live := by
  have apart : target ≠ place := by
    rintro rfl
    rw [empty] at holding
    cases holding
  have gone : resource ∉ live.filter (· ≠ resource) := by
    rw [List.mem_filter, decide_eq_true_iff]
    exact fun member => member.2 rfl
  have moved := (owned.release holding).acquire
    (by rw [Function.update_of_ne apart, empty] : Function.update holds place none target = none)
    gone
  refine ⟨fun query => ?_, moved.once⟩
  rw [← moved.held, List.mem_cons, List.mem_filter, decide_eq_true_iff]
  constructor
  · intro member
    by_cases same : query = resource
    · exact .inl same
    · exact .inr ⟨member, same⟩
  · rintro (rfl | ⟨member, -⟩)
    · exact (owned.held query).mpr ⟨place, holding⟩
    · exact member

end Owned

end ZManager
