import Mathlib.Data.List.Sort
import ZManager.Foundation.Text

/-! # Ordered maps from part numbers

A map keyed by natural numbers as the list of its pairs in key order, as a
B-tree map yields them. Inserting a key that is present replaces its value, so
of several pairs with one key the last inserted stays. Two ordered lists with
the same look-ups are equal, which is how the values of a map are computed.
-/

namespace ZManager

namespace PartMap

variable {α : Type*}

variable {map pairs : List (Nat × α)} {pair : Nat × α} {value : Nat → α}

variable {count : Nat}

/-- Inserts a pair at its place, replacing the value of a key that is present. -/
def insert (key : Nat) (value : α) : List (Nat × α) → List (Nat × α)
  | [] => [(key, value)]
  | (other, held) :: rest =>
    if key < other then (key, value) :: (other, held) :: rest
    else if key = other then (key, value) :: rest
    else (other, held) :: insert key value rest

/-- The map that the pairs build when they are inserted one after the other. -/
def ofList (pairs : List (Nat × α)) : List (Nat × α) :=
  pairs.foldl (fun map pair => insert pair.1 pair.2 map) []

/-- The keys of the list ascend strictly. -/
def IsOrdered (map : List (Nat × α)) : Prop :=
  map.Pairwise fun first second => first.1 < second.1

theorem lookup_cons (key query : Nat) (value : α) (rest : List (Nat × α)) :
    ((key, value) :: rest).lookup query = if query = key then some value else rest.lookup query :=
        by
  by_cases same : query = key
  · simp [same]
  · have different : (query == key) = false := by simpa using same
    rw [List.lookup_cons, different, if_neg same]

theorem mem_insert {key : Nat} {value : α} (member : pair ∈ insert key value map) :
    pair = (key, value) ∨ pair ∈ map := by
  fun_induction insert key value map with
  | case1 => simpa using member
  | case2 other held rest before => simpa using member
  | case3 held rest _ =>
    rcases List.mem_cons.mp member with same | inside
    · exact .inl same
    · exact .inr (List.mem_cons_of_mem _ inside)
  | case4 other held rest _ _ ih =>
    rcases List.mem_cons.mp member with same | inside
    · exact .inr (by simp [same])
    · exact (ih inside).imp_right (List.mem_cons_of_mem _)

theorem IsOrdered.insert {key : Nat} {value : α} {map : List (Nat × α)} (ordered : IsOrdered map) :
    IsOrdered (insert key value map) := by
  fun_induction PartMap.insert key value map with
  | case1 => exact List.pairwise_singleton _ _
  | case2 other held rest before =>
    refine List.pairwise_cons.mpr ⟨?_, ordered⟩
    intro pair member
    rcases List.mem_cons.mp member with rfl | inside
    · exact before
    · exact before.trans ((List.pairwise_cons.mp ordered).1 pair inside)
  | case3 held rest _ => exact List.pairwise_cons.mpr (List.pairwise_cons.mp ordered)
  | case4 other held rest notBefore different ih =>
    obtain ⟨above, rest⟩ := List.pairwise_cons.mp ordered
    refine List.pairwise_cons.mpr ⟨?_, ih rest⟩
    intro pair member
    rcases mem_insert member with rfl | inside
    · change other < key
      omega
    · exact above pair inside

theorem lookup_insert (key : Nat) (value : α) (map : List (Nat × α)) (query : Nat) :
    (insert key value map).lookup query = if query = key then some value else map.lookup query := by
  fun_induction insert key value map with
  | case1 => rw [lookup_cons]
  | case2 other held rest before => rw [lookup_cons]
  | case3 held rest _ =>
    simp only [lookup_cons]
    by_cases same : query = key <;> simp only [same, ↓reduceIte]
  | case4 other held rest notBefore different ih =>
    rw [lookup_cons, ih, lookup_cons]
    by_cases same : query = other
    · simp only [same, Ne.symm different, ↓reduceIte]
    · simp only [same, ↓reduceIte]

theorem isOrdered_foldl (ordered : IsOrdered map) :
    IsOrdered (pairs.foldl (fun map pair => insert pair.1 pair.2 map) map) := by
  induction pairs generalizing map with
  | nil => exact ordered
  | cons pair rest ih => exact ih ordered.insert

theorem isOrdered_ofList (pairs : List (Nat × α)) : IsOrdered (ofList pairs) :=
  isOrdered_foldl List.Pairwise.nil

/-- The last pair of a key is the one the map holds. -/
theorem lookup_ofList (pairs : List (Nat × α)) (query : Nat) :
    (ofList pairs).lookup query = pairs.reverse.lookup query := by
  unfold ofList
  induction pairs using List.reverseRecOn with
  | nil => rfl
  | append_singleton rest pair ih =>
    rw [List.foldl_append, List.foldl_cons, List.foldl_nil, lookup_insert, ih,
      List.reverse_append, List.reverse_singleton, List.singleton_append, lookup_cons]

theorem mem_foldl (member : pair ∈ pairs.foldl (fun map pair => insert pair.1 pair.2 map) map) :
    pair ∈ pairs ∨ pair ∈ map := by
  induction pairs generalizing map with
  | nil => exact .inr member
  | cons first rest ih =>
    rcases ih member with inside | inside
    · exact .inl (List.mem_cons_of_mem _ inside)
    · rcases mem_insert inside with rfl | inside
      · exact .inl (List.mem_cons_self ..)
      · exact .inr inside

/-- A pair of the map is one of those it was built from. -/
theorem mem_of_mem_ofList (member : pair ∈ ofList pairs) : pair ∈ pairs :=
  (mem_foldl member).resolve_right (by simp)

theorem lookup_eq_none_of_lt {bound query : Nat} (above : ∀ pair ∈ map, bound < pair.1)
    (small : query ≤ bound) : map.lookup query = none := by
  induction map with
  | nil => rfl
  | cons pair rest ih =>
    have first := above pair (List.mem_cons_self ..)
    rw [lookup_cons, if_neg (by omega)]
    exact ih fun other member => above other (List.mem_cons_of_mem _ member)

/-- An ordered list is determined by its look-ups. -/
theorem IsOrdered.ext {left right : List (Nat × α)} (ordered : IsOrdered left)
    (ordered' : IsOrdered right) (same : ∀ query, left.lookup query = right.lookup query) :
    left = right := by
  induction left generalizing right with
  | nil =>
    cases right with
    | nil => rfl
    | cons pair rest =>
      have found := same pair.1
      rw [lookup_cons, if_pos rfl] at found
      cases found
  | cons pair rest ih =>
    obtain ⟨key, value⟩ := pair
    obtain ⟨above, inner⟩ := List.pairwise_cons.mp ordered
    cases right with
    | nil =>
      have found := same key
      rw [lookup_cons, if_pos rfl] at found
      cases found
    | cons pair' rest' =>
      obtain ⟨key', value'⟩ := pair'
      obtain ⟨above', inner'⟩ := List.pairwise_cons.mp ordered'
      have found := same key
      have found' := same key'
      simp only [lookup_cons, ↓reduceIte] at found found'
      -- the smaller of the two first keys is found on one side only
      have equal : key = key' := by
        rcases Nat.lt_trichotomy key key' with before | equal | behind
        · rw [if_neg (by omega), lookup_eq_none_of_lt above' (by omega)] at found
          cases found
        · exact equal
        · rw [if_neg (by omega), lookup_eq_none_of_lt above (by omega)] at found'
          cases found'
      subst equal
      rw [if_pos rfl] at found
      cases found
      congr 1
      refine ih inner inner' fun query => ?_
      have found := same query
      rw [lookup_cons, lookup_cons] at found
      by_cases first : query = key
      · rw [lookup_eq_none_of_lt above (by omega), lookup_eq_none_of_lt above' (by omega)]
      · rwa [if_neg first, if_neg first] at found

/-- A key whose pairs all carry one value is found with that value. -/
theorem lookup_eq_some {key : Nat} {value : α}
    (agrees : ∀ pair ∈ pairs, pair.1 = key → pair.2 = value)
    (present : ∃ pair ∈ pairs, pair.1 = key) :
    pairs.lookup key = some value := by
  induction pairs with
  | nil => simp at present
  | cons pair rest ih =>
    obtain ⟨other, held⟩ := pair
    rw [lookup_cons]
    by_cases same : key = other
    · rw [if_pos same, ← agrees (other, held) (List.mem_cons_self ..) same.symm]
    · rw [if_neg same]
      apply ih
      · exact fun other member => agrees other (List.mem_cons_of_mem _ member)
      · obtain ⟨found, member, named⟩ := present
        rcases List.mem_cons.mp member with rfl | inside
        · exact absurd named.symm same
        · exact ⟨found, inside, named⟩

theorem lookup_eq_none {key : Nat} (absent : ∀ pair ∈ pairs, pair.1 ≠ key) :
    pairs.lookup key = none := by
  induction pairs with
  | nil => rfl
  | cons pair rest ih =>
    rw [lookup_cons, if_neg (Ne.symm (absent pair (List.mem_cons_self ..)))]
    exact ih fun other member => absent other (List.mem_cons_of_mem _ member)

/-- The parts `1` to `count`, each with its value. -/
def consecutive (value : Nat → α) (count : Nat) : List (Nat × α) :=
  (List.range' 1 count).map fun part => (part, value part)

theorem mem_consecutive :
    pair ∈ consecutive value count ↔ 1 ≤ pair.1 ∧ pair.1 ≤ count ∧ pair.2 = value pair.1 := by
  obtain ⟨part, held⟩ := pair
  simp only [consecutive, List.mem_map, List.mem_range'_1, Prod.mk.injEq]
  constructor
  · rintro ⟨_, bounds, rfl, rfl⟩
    exact ⟨by omega, by omega, rfl⟩
  · rintro ⟨low, high, rfl⟩
    exact ⟨part, by omega, rfl, rfl⟩

theorem isOrdered_consecutive (value : Nat → α) (count : Nat) :
    IsOrdered (consecutive value count) := by
  rw [consecutive, IsOrdered, List.pairwise_map]
  exact List.pairwise_lt_range'

theorem lookup_consecutive {part : Nat} (low : 1 ≤ part) (high : part ≤ count) :
    (consecutive value count).lookup part = some (value part) := by
  apply lookup_eq_some
  · rintro ⟨_, held⟩ member rfl
    exact (mem_consecutive.mp member).2.2
  · exact ⟨(part, value part), mem_consecutive.mpr ⟨low, high, rfl⟩, rfl⟩

theorem getLast?_consecutive (positive : 0 < count) :
    (consecutive value count).getLast? = some (count, value count) := by
  obtain ⟨smaller, rfl⟩ := Nat.exists_eq_succ_of_ne_zero positive.ne'
  rw [consecutive, List.range'_1_concat, List.map_append, List.map_singleton,
    List.getLast?_concat, Nat.add_comm]

theorem map_snd_consecutive (value : Nat → α) (count : Nat) :
    (consecutive value count).map Prod.snd = (List.range' 1 count).map value := by
  simp [consecutive]

/-- Pairs that name the parts `1` to `count`, and only them, each with one value,
build the consecutive map. -/
theorem ofList_eq_consecutive (exact : ∀ pair, pair ∈ pairs ↔ pair ∈ consecutive value count) :
    ofList pairs = consecutive value count := by
  apply (isOrdered_ofList pairs).ext (isOrdered_consecutive value count)
  intro query
  rw [lookup_ofList]
  have agrees : ∀ pair ∈ consecutive value count, pair.1 = query → pair.2 = value query := by
    rintro ⟨part, held⟩ member rfl
    exact (mem_consecutive.mp member).2.2
  by_cases inside : 1 ≤ query ∧ query ≤ count
  · have present : (query, value query) ∈ consecutive value count :=
      mem_consecutive.mpr ⟨inside.1, inside.2, rfl⟩
    rw [lookup_eq_some agrees ⟨_, present, rfl⟩]
    apply lookup_eq_some
    · intro pair member
      exact agrees pair ((exact pair).mp (List.mem_reverse.mp member))
    · exact ⟨_, List.mem_reverse.mpr ((exact _).mpr present), rfl⟩
  · have absent : ∀ pair ∈ consecutive value count, pair.1 ≠ query := by
      rintro pair member rfl
      exact inside ⟨(mem_consecutive.mp member).1, (mem_consecutive.mp member).2.1⟩
    rw [lookup_eq_none absent]
    apply lookup_eq_none
    intro pair member
    exact absent pair ((exact pair).mp (List.mem_reverse.mp member))

end PartMap

end ZManager
