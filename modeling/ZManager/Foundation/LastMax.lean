import Mathlib.Data.List.Induction
import Mathlib.Order.Defs.LinearOrder
import Mathlib.Order.Lattice
import Mathlib.Tactic.SplitIfs

/-! # The last of the largest items

A selection that keeps the later of two items unless the later one comes before
the earlier. It finds a strict maximum wherever it stands; among items that do
not come before each other it finds the one that is listed last.
-/

namespace ZManager

variable {α : Type} {before : α → α → Bool} {items : List α}

variable {item : α}

/-- One more item: it replaces the best one unless it comes before it. -/
def keepLarger (before : α → α → Bool) (best : Option α) (item : α) : Option α :=
  match best with
  | none => some item
  | some best => if before item best then some best else some item

def lastMax (before : α → α → Bool) (items : List α) : Option α :=
  items.foldl (keepLarger before) none

theorem lastMax_concat (items : List α) (item : α) :
    lastMax before (items ++ [item]) = keepLarger before (lastMax before items) item := by
  unfold lastMax
  rw [List.foldl_append]
  rfl

theorem lastMax_eq_none : lastMax before items = none ↔ items = [] := by
  induction items using List.reverseRecOn with
  | nil => simp [lastMax]
  | append_singleton items item _ =>
    rw [lastMax_concat]
    cases lastMax before items with
    | none => simp [keepLarger]
    | some best =>
      unfold keepLarger
      dsimp only
      split_ifs <;> simp

theorem mem_of_lastMax (found : lastMax before items = some item) : item ∈ items := by
  induction items using List.reverseRecOn with
  | nil => cases found
  | append_singleton items last ih =>
    rw [lastMax_concat] at found
    unfold keepLarger at found
    cases best : lastMax before items with
    | none =>
      rw [best] at found
      cases found
      exact List.mem_append_right _ List.mem_cons_self
    | some old =>
      rw [best] at found
      dsimp only at found
      split_ifs at found
      · exact List.mem_append_left _ (ih (best.trans found))
      · cases found
        exact List.mem_append_right _ List.mem_cons_self

/-- A last item that comes before no other is selected. -/
theorem lastMax_concat_of_forall (largest : ∀ other ∈ items, before item other = false) :
    lastMax before (items ++ [item]) = some item := by
  rw [lastMax_concat]
  unfold keepLarger
  cases best : lastMax before items with
  | none => rfl
  | some old =>
    dsimp only
    rw [largest old (mem_of_lastMax best), if_neg Bool.false_ne_true]

/-- A strict maximum is selected wherever it stands. -/
theorem lastMax_of_strict (member : item ∈ items) (itself : before item item = false)
    (strict : ∀ other ∈ items, other ≠ item → before other item = true ∧ before item other =
        false) :
    lastMax before items = some item := by
  induction items using List.reverseRecOn with
  | nil => cases member
  | append_singleton items last ih =>
    by_cases same : last = item
    · subst same
      apply lastMax_concat_of_forall
      intro other inside
      by_cases equal : other = last
      · rw [equal]
        exact itself
      · exact (strict other (List.mem_append_left _ inside) equal).2
    · have inside : item ∈ items := by
        rcases List.mem_append.mp member with inside | last
        · exact inside
        · exact absurd (List.mem_singleton.mp last).symm same
      rw [lastMax_concat, ih inside fun other listed =>
        strict other (List.mem_append_left _ listed)]
      unfold keepLarger
      dsimp only
      rw [(strict last (List.mem_append_right _ List.mem_cons_self) same).1, if_pos rfl]

/-- When keys are compared, no item has a larger key than the selected one. -/
theorem not_lt_of_lastMax {κ : Type} [LinearOrder κ] {key : α → κ}
    (found : lastMax (fun one two => decide (key one < key two)) items = some item) :
    ∀ other ∈ items, key other ≤ key item := by
  induction items using List.reverseRecOn generalizing item with
  | nil => cases found
  | append_singleton items last ih =>
    rw [lastMax_concat] at found
    unfold keepLarger at found
    intro other member
    cases best : lastMax (fun one two => decide (key one < key two)) items with
    | none =>
      rw [best] at found
      cases found
      rw [lastMax_eq_none.mp best] at member
      rw [List.mem_singleton.mp member]
    | some old =>
      rw [best] at found
      dsimp only at found
      have earlier := ih best
      rcases List.mem_append.mp member with inside | isLast
      · split_ifs at found with smaller
        · cases found
          exact earlier other inside
        · cases found
          exact le_trans (earlier other inside) (not_lt.mp (by simpa using smaller))
      · rw [List.mem_singleton.mp isLast]
        split_ifs at found with smaller
        · cases found
          exact le_of_lt (of_decide_eq_true smaller)
        · cases found
          exact le_rfl

end ZManager
