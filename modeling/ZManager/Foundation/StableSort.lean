import Mathlib.Data.List.Basic
import Mathlib.Order.Defs.LinearOrder
import Mathlib.Order.Lattice

/-! # Stable sorting by a key

A stable sort keeps the order of elements with one key. Two lists that agree on
the elements of every key, each in its order, are therefore sorted to the same list,
however the keys are mixed.
-/

namespace ZManager

variable {α κ : Type} [LinearOrder κ] {key : α → κ}

variable {left right : List α}

/-- One element may stand before another. -/
def keyLe (key : α → κ) (left right : α) : Bool := decide (key left ≤ key right)

theorem keyLe_trans (first second third : α) (lower : keyLe key first second = true)
    (upper : keyLe key second third = true) : keyLe key first third = true :=
  decide_eq_true (le_trans (of_decide_eq_true lower) (of_decide_eq_true upper))

theorem keyLe_total (first second : α) :
    (keyLe key first second || keyLe key second first) = true := by
  rcases le_total (key first) (key second) with lower | upper
  · simp [keyLe, lower]
  · simp [keyLe, upper]

/-- `slice::sort_by` on a key. -/
def sortBy (key : α → κ) (items : List α) : List α :=
  items.mergeSort (keyLe key)

/-- The elements of one key, in their order. -/
def ofKey (key : α → κ) (wanted : κ) (items : List α) : List α :=
  items.filter fun item => key item = wanted

/-- Two lists hold the same elements of every key in the same order. -/
def SameByKey (key : α → κ) (left right : List α) : Prop :=
  ∀ wanted, ofKey key wanted left = ofKey key wanted right

theorem mem_ofKey {wanted : κ} {items : List α} {item : α} :
    item ∈ ofKey key wanted items ↔ item ∈ items ∧ key item = wanted := by
  simp [ofKey]

theorem ofKey_append (wanted : κ) (left right : List α) :
    ofKey key wanted (left ++ right) = ofKey key wanted left ++ ofKey key wanted right :=
  List.filter_append ..

theorem sortBy_perm (items : List α) : (sortBy key items).Perm items :=
  List.mergeSort_perm ..

theorem pairwise_sortBy (items : List α) :
    (sortBy key items).Pairwise fun left right => key left ≤ key right := by
  have sorted := List.pairwise_mergeSort (@keyLe_trans α κ _ key) keyLe_total items
  exact sorted.imp of_decide_eq_true

/-- Sorting keeps the elements of one key in their order. -/
theorem ofKey_sortBy (wanted : κ) (items : List α) :
    ofKey key wanted (sortBy key items) = ofKey key wanted items := by
  have equal : (ofKey key wanted items).Pairwise
      fun left right => keyLe key left right = true := by
    apply List.pairwise_of_forall_mem_list
    intro first firstMem second secondMem
    unfold keyLe
    rw [(mem_ofKey.mp firstMem).2, (mem_ofKey.mp secondMem).2]
    simp
  have inside : (ofKey key wanted items).Sublist (sortBy key items) :=
    List.sublist_mergeSort keyLe_trans keyLe_total equal List.filter_sublist
  have again : (ofKey key wanted items).Sublist (ofKey key wanted (sortBy key items)) := by
    have filtered := inside.filter fun item => decide (key item = wanted)
    unfold ofKey at filtered ⊢
    simpa only [List.filter_filter, Bool.and_self] using filtered
  have lengths : (ofKey key wanted (sortBy key items)).length =
      (ofKey key wanted items).length :=
    ((sortBy_perm items).filter _).length_eq
  exact (again.eq_of_length lengths.symm).symm

/-- Sorted lists that agree on every key are equal. -/
theorem SameByKey.eq_of_pairwise {left right : List α} (same : SameByKey key left right)
    (leftSorted : left.Pairwise fun first second => key first ≤ key second)
    (rightSorted : right.Pairwise fun first second => key first ≤ key second) : left = right := by
  induction left generalizing right with
  | nil =>
    cases right with
    | nil => rfl
    | cons other others =>
      have missing := same (key other)
      simp [ofKey] at missing
  | cons item items ih =>
    cases right with
    | nil =>
      have missing := same (key item)
      simp [ofKey] at missing
    | cons other others =>
      have itemBelow : key item ≤ key other := by
        have member : other ∈ ofKey key (key other) (item :: items) := by
          rw [same (key other)]
          exact mem_ofKey.mpr ⟨List.mem_cons_self, rfl⟩
        rcases List.mem_cons.mp (mem_ofKey.mp member).1 with equal | behind
        · rw [equal]
        · exact List.rel_of_pairwise_cons leftSorted behind
      have otherBelow : key other ≤ key item := by
        have member : item ∈ ofKey key (key item) (other :: others) := by
          rw [← same (key item)]
          exact mem_ofKey.mpr ⟨List.mem_cons_self, rfl⟩
        rcases List.mem_cons.mp (mem_ofKey.mp member).1 with equal | behind
        · rw [equal]
        · exact List.rel_of_pairwise_cons rightSorted behind
      have keys : key item = key other := le_antisymm itemBelow otherBelow
      have heads := same (key item)
      unfold ofKey at heads
      rw [List.filter_cons_of_pos (by simp), List.filter_cons_of_pos (by simp [keys])] at heads
      obtain ⟨rfl, -⟩ := List.cons.inj heads
      have rest : SameByKey key items others := by
        intro wanted
        have whole := same wanted
        unfold ofKey at whole ⊢
        rw [List.filter_cons, List.filter_cons] at whole
        by_cases wantedHere : key item = wanted
        · simpa [wantedHere] using whole
        · simpa [wantedHere] using whole
      rw [ih rest leftSorted.of_cons rightSorted.of_cons]

/-- **Stable sorting** depends only on the elements of each key. -/
theorem SameByKey.sortBy_eq (same : SameByKey key left right) :
    sortBy key left = sortBy key right := by
  apply @SameByKey.eq_of_pairwise α κ _ key
  · intro wanted
    rw [ofKey_sortBy, ofKey_sortBy, same wanted]
  · exact pairwise_sortBy left
  · exact pairwise_sortBy right

theorem SameByKey.refl (items : List α) : SameByKey key items items := fun _ => rfl

theorem SameByKey.trans {middle : List α} (first : SameByKey key left middle)
    (second : SameByKey key middle right) : SameByKey key left right :=
  fun wanted => (first wanted).trans (second wanted)

theorem SameByKey.append {left right left' right' : List α} (first : SameByKey key left left')
    (second : SameByKey key right right') : SameByKey key (left ++ right) (left' ++ right') := by
  intro wanted
  rw [ofKey_append, ofKey_append, first wanted, second wanted]

/-- Parts that agree one by one agree together. -/
theorem SameByKey.flatMap {β : Type} {items : List β} {parts parts' : β → List α}
    (same : ∀ item ∈ items, SameByKey key (parts item) (parts' item)) :
    SameByKey key (items.flatMap parts) (items.flatMap parts') := by
  induction items with
  | nil => exact SameByKey.refl []
  | cons item rest ih =>
    rw [List.flatMap_cons, List.flatMap_cons]
    apply SameByKey.append
    · exact same item List.mem_cons_self
    · exact ih fun other member => same other (List.mem_cons_of_mem _ member)

/-- Parts that share no key may be put together in any order. -/
theorem SameByKey.flatMap_perm {β : Type} {items items' : List β} {parts : β → List α}
    (perm : items.Perm items')
    (apart : ∀ first ∈ items, ∀ second ∈ items, ∀ left ∈ parts first, ∀ right ∈ parts second,
      key left = key right → first = second) :
    SameByKey key (items.flatMap parts) (items'.flatMap parts) := by
  induction perm with
  | nil => exact SameByKey.refl []
  | cons item _ ih =>
    rw [List.flatMap_cons, List.flatMap_cons]
    apply (SameByKey.refl _).append
    apply ih
    intro first inside second within
    exact apart first (List.mem_cons_of_mem _ inside) second (List.mem_cons_of_mem _ within)
  | swap first second rest =>
    intro wanted
    simp only [List.flatMap_cons, ofKey_append]
    rw [← List.append_assoc, ← List.append_assoc]
    by_cases absent : ofKey key wanted (parts first) = []
    · rw [absent, List.append_nil, List.nil_append]
    · obtain ⟨left, member⟩ := List.exists_mem_of_ne_nil _ absent
      obtain ⟨inside, same⟩ := mem_ofKey.mp member
      by_cases other : ofKey key wanted (parts second) = []
      · rw [other, List.append_nil, List.nil_append]
      · obtain ⟨right, member⟩ := List.exists_mem_of_ne_nil _ other
        obtain ⟨within, equal⟩ := mem_ofKey.mp member
        rw [apart first (by simp) second (by simp) left inside right within
          (same.trans equal.symm)]
  | trans first second ihFirst ihSecond =>
    intro wanted
    rw [ihFirst apart wanted]
    apply ihSecond
    intro left inside right within
    exact apart left (first.mem_iff.mpr inside) right (first.mem_iff.mpr within)

theorem SameByKey.perm (same : SameByKey key left right) : left.Perm right := by
  have sorted : (sortBy key left).Perm right := by
    rw [same.sortBy_eq]
    exact sortBy_perm right
  exact (sortBy_perm left).symm.trans sorted

end ZManager
