import Mathlib.Data.Fintype.Card
import Mathlib.Data.List.Perm.Subperm
import Mathlib.Logic.Relation
import Mathlib.Order.RelClasses
import Mathlib.Data.Set.Finite.Basic
import Mathlib.Data.List.NodupEquivFin

/-! # Orders in which nothing comes too early

An item may wait for other ones. A row in which each item stands behind those it waits for takes
in no item of a cycle, and a row that leaves no item behind whose turn has come takes in all
others.
-/

namespace ZManager

namespace Dependency

variable {α : Type*} {waits : α → α → Prop} {items order more : List α} {item other : α}

/-- Each item stands behind those it waits for. -/
inductive Settled (waits : α → α → Prop) : List α → Prop where
  | nil : Settled waits []
  | concat {order : List α} {item : α} (settled : Settled waits order)
      (ready : ∀ other, waits item other → other ∈ order) : Settled waits (order ++ [item])

/-- An item that waits for itself in the end. -/
def Cyclic (waits : α → α → Prop) : Prop := ∃ item, Relation.TransGen waits item item

theorem Settled.mem (settled : Settled waits order) (inside : item ∈ order)
    (waiting : waits item other) : other ∈ order := by
  induction settled with
  | nil => cases inside
  | concat _ ready ih =>
    apply List.mem_append_left
    rcases List.mem_append.mp inside with before | last
    · exact ih before
    · exact ready other (List.mem_singleton.mp last ▸ waiting)

theorem Settled.idxOf_lt [DecidableEq α] (settled : Settled waits order) (distinct : order.Nodup)
    (inside : item ∈ order) (waiting : waits item other) :
    order.idxOf other < order.idxOf item := by
  induction settled with
  | nil => cases inside
  | @concat front last settled ready ih =>
    obtain ⟨unique, -, apart⟩ := List.nodup_append.mp distinct
    rcases List.mem_append.mp inside with before | final
    · rw [List.idxOf_append_of_mem before, List.idxOf_append_of_mem (settled.mem before waiting)]
      exact ih unique before
    · cases List.mem_singleton.mp final
      have here := ready other waiting
      have fresh : item ∉ front := fun again => apart item again item final rfl
      rw [List.idxOf_append_of_mem here, List.idxOf_append_of_notMem fresh]
      exact Nat.lt_of_lt_of_le (List.idxOf_lt_length_of_mem here) (Nat.le_add_right _ _)

/-- No item of such a row is on a cycle. -/
theorem Settled.not_transGen (settled : Settled waits order) (distinct : order.Nodup)
    (inside : item ∈ order) : ¬Relation.TransGen waits item item := by
  classical
  have behind {one two : α} (path : Relation.TransGen waits one two) (member : one ∈ order) :
      two ∈ order ∧ order.idxOf two < order.idxOf one := by
    induction path with
    | single step => exact ⟨settled.mem member step, settled.idxOf_lt distinct member step⟩
    | tail _ step ih =>
      exact ⟨settled.mem ih.1 step, (settled.idxOf_lt distinct ih.1 step).trans ih.2⟩
  exact fun cycle => Nat.lt_irrefl _ (behind cycle inside).2

/-- Without a cycle, a row that takes every item whose turn has come takes them all. -/
theorem mem_of_not_cyclic (acyclic : ¬Cyclic waits)
    (inside : ∀ item other, waits item other → other ∈ items)
    (taken : ∀ item ∈ items, (∀ other, waits item other → other ∈ order) → item ∈ order) :
    ∀ item ∈ items, item ∈ order := by
  let waiting : {item // item ∈ items} → {item // item ∈ items} → Prop :=
    fun one two => Relation.TransGen waits two.1 one.1
  have : Finite {item // item ∈ items} := List.finite_toSet items
  have : IsTrans _ waiting := ⟨fun _ _ _ first second => second.trans first⟩
  have : Std.Irrefl waiting := ⟨fun one cycle => acyclic ⟨one.1, cycle⟩⟩
  have founded : WellFounded waiting := Finite.wellFounded_of_trans_of_irrefl waiting
  intro item member
  have all : ∀ one : {item // item ∈ items}, one.1 ∈ order := fun one => by
    induction one using founded.induction with
    | _ one ih =>
      apply taken one.1 one.2
      intro other waits
      exact ih ⟨other, inside one.1 other waits⟩ (.single waits)
  exact all ⟨item, member⟩

/-- **Counting tells cycles.** A row as above holds as many items as there are exactly when
nothing waits for itself, and then it holds each of them once. -/
theorem Settled.length_eq_iff (settled : Settled waits order) (distinct : order.Nodup)
    (listed : items.Nodup) (subset : order ⊆ items)
    (inside : ∀ item other, waits item other → item ∈ items ∧ other ∈ items)
    (taken : ∀ item ∈ items, (∀ other, waits item other → other ∈ order) → item ∈ order) :
    (order.length = items.length ↔ ¬Cyclic waits) ∧
      (order.length = items.length → order.Perm items) := by
  have perm (long : order.length = items.length) : order.Perm items :=
    (distinct.subperm subset).perm_of_length_le long.ge
  refine ⟨⟨fun long => ?_, fun acyclic => ?_⟩, perm⟩
  · rintro ⟨item, cycle⟩
    have member : item ∈ items := by
      obtain ⟨other, step, -⟩ := Relation.TransGen.head'_iff.mp cycle
      exact (inside item other step).1
    exact settled.not_transGen distinct ((perm long).mem_iff.mpr member) cycle
  · have all := mem_of_not_cyclic acyclic (fun item other step => (inside item other step).2) taken
    exact Nat.le_antisymm (distinct.subperm subset).length_le (listed.subperm all).length_le

end Dependency

end ZManager
