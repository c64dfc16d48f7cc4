import Mathlib.Data.List.MinMax

/-! # Loops that update a map key by key

A loop whose step touches one key, and there depends on nothing but the value
at that key, is for each key the loop over the items of that key. With a time
attached to the values and a step that keeps the later one, such a loop
computes the latest time of each key. Ordered maps list each key once.
-/

namespace ZManager

namespace KeyedFold

variable {σ ι κ β τ : Type*}

/-- A loop with steps local to a key, seen at one key. -/
theorem foldl_keyed [DecidableEq κ] {observe : σ → κ → β} {step : σ → ι → σ} {key : ι → κ}
    {update : β → ι → β}
    (steps : ∀ state item wanted, observe (step state item) wanted =
      if key item = wanted then update (observe state wanted) item else observe state wanted)
    (items : List ι) (state : σ) (wanted : κ) :
    observe (items.foldl step state) wanted =
      (items.filter (key · = wanted)).foldl update (observe state wanted) := by
  induction items generalizing state with
  | nil => rfl
  | cons item rest ih =>
    rw [List.foldl_cons, ih, steps]
    by_cases same : key item = wanted
    · simp [same]
    · simp [same]

/-- Items at or below a bound do not matter for the maximum with that bound. -/
theorem max_maximum_filter [LinearOrder τ] {items : List τ} {keep : τ → Bool} {bound : WithBot τ}
    (dropped : ∀ item ∈ items, keep item = false → (item : WithBot τ) ≤ bound) :
    max (items.filter keep).maximum bound = max items.maximum bound := by
  induction items with
  | nil => rfl
  | cons item rest ih =>
    have rest := ih fun other member => dropped other (List.mem_cons_of_mem _ member)
    cases kept : keep item with
    | true => rw [List.filter_cons_of_pos kept, List.maximum_cons, List.maximum_cons, max_assoc,
        rest, max_assoc]
    | false =>
      have low := dropped item (List.mem_cons_self ..) kept
      rw [List.filter_cons_of_neg (by simp [kept]), List.maximum_cons, rest, max_assoc,
        max_eq_right (le_max_of_le_right low)]

/-- A loop that keeps the later time of each key ends with the latest of each. -/
theorem foldl_keyed_latest [DecidableEq κ] [LinearOrder τ] {observe : σ → κ → WithBot τ}
    {step : σ → ι → σ} {key : ι → κ} {stamp : ι → τ}
    (steps : ∀ state item wanted, observe (step state item) wanted =
      if key item = wanted then max (observe state wanted) (stamp item) else observe state wanted)
    (items : List ι) (state : σ) (wanted : κ) :
    observe (items.foldl step state) wanted =
      max (observe state wanted) ((items.filter (key · = wanted)).map stamp).maximum := by
  rw [@foldl_keyed σ ι κ (WithBot τ) _ observe step key (fun latest item => max latest (stamp item))
    steps]
  generalize observe state wanted = latest
  induction items.filter (key · = wanted) generalizing latest with
  | nil => simp
  | cons item rest ih =>
    rw [List.foldl_cons, ih, List.map_cons, List.maximum_cons, max_assoc]

/-- A list whose members all equal one value has that value as its maximum. -/
theorem maximum_eq_of_mem_iff [LinearOrder τ] {items : List τ} {latest : WithBot τ}
    (members : ∀ item, item ∈ items ↔ (item : WithBot τ) = latest) : items.maximum = latest := by
  cases latest with
  | bot =>
    apply List.maximum_eq_bot.mpr
    apply List.eq_nil_iff_forall_not_mem.mpr
    intro item member
    exact WithBot.coe_ne_bot ((members item).mp member)
  | coe value =>
    apply List.maximum_eq_coe_iff.mpr
    refine ⟨(members value).mpr rfl, fun item member => ?_⟩
    exact (WithBot.coe_injective ((members item).mp member)).le

/-- With distinct keys at most one item has a given key. -/
theorem filter_key_cases [DecidableEq κ] {key : ι → κ} {items : List ι}
    (distinct : (items.map key).Nodup) (wanted : κ) :
    (items.filter (key · = wanted) = [] ∧ ∀ item ∈ items, key item ≠ wanted) ∨
      ∃ item ∈ items, key item = wanted ∧ items.filter (key · = wanted) = [item] := by
  induction items with
  | nil => simp
  | cons item rest ih =>
    obtain ⟨fresh, distinct⟩ := List.nodup_cons.mp distinct
    by_cases same : key item = wanted
    · refine .inr ⟨item, List.mem_cons_self .., same, ?_⟩
      have none : rest.filter (key · = wanted) = [] := by
        apply List.filter_eq_nil_iff.mpr
        intro other member other_same
        apply fresh
        rw [same, ← of_decide_eq_true other_same]
        exact List.mem_map_of_mem member
      simp [same, none]
    · rcases ih distinct with ⟨none, absent⟩ | ⟨found, member, key_found, one⟩
      · refine .inl ⟨by simp [same, none], ?_⟩
        intro other member
        rcases List.mem_cons.mp member with rfl | inside
        · exact same
        · exact absent other inside
      · exact .inr ⟨found, List.mem_cons_of_mem _ member, key_found, by simp [same, one]⟩

section TreeMap

variable {α : Type*} {cmp : κ → κ → Ordering} [Std.TransCmp cmp] [Std.LawfulEqCmp cmp]

/-- An ordered map lists the pair of a key at most once. -/
theorem filter_toList [DecidableEq κ] (map : Std.TreeMap κ α cmp) (wanted : κ) :
    map.toList.filter (·.1 = wanted) = (map[wanted]?).toList.map fun value => (wanted, value) := by
  have members : ∀ pair, pair ∈ map.toList.filter (·.1 = wanted) ↔
      pair.1 = wanted ∧ map[wanted]? = some pair.2 := by
    intro ⟨key, value⟩
    simp only [List.mem_filter, Std.TreeMap.mem_toList_iff_getElem?_eq_some, decide_eq_true_eq]
    constructor
    · rintro ⟨held, rfl⟩
      exact ⟨rfl, held⟩
    · rintro ⟨rfl, held⟩
      exact ⟨held, rfl⟩
  have distinct : (map.toList.filter (·.1 = wanted)).Pairwise fun first second =>
      ¬cmp first.1 second.1 = .eq := Std.TreeMap.distinct_keys_toList.sublist List.filter_sublist
  generalize map.toList.filter (·.1 = wanted) = found at members distinct
  match found with
  | [] =>
    cases held : map[wanted]? with
    | none => rfl
    | some value => exact absurd ((members (wanted, value)).mpr ⟨rfl, held⟩) List.not_mem_nil
  | [pair] =>
    obtain ⟨key, held⟩ := (members pair).mp (List.mem_singleton.mpr rfl)
    rw [held, ← key]
    rfl
  | first :: second :: rest =>
    have one := ((members first).mp (by simp)).1
    have two := ((members second).mp (by simp)).1
    have differ := List.rel_of_pairwise_cons distinct (List.mem_cons_self ..)
    rw [one, two] at differ
    exact absurd Std.ReflCmp.compare_self differ

theorem mem_map_snd_toList {map : Std.TreeMap κ α cmp} {value : α} :
    value ∈ map.toList.map (·.2) ↔ ∃ key : κ, map[key]? = some value := by
  simp only [List.mem_map, Prod.exists, Std.TreeMap.mem_toList_iff_getElem?_eq_some]
  constructor
  · rintro ⟨key, held, found, rfl⟩
    exact ⟨key, found⟩
  · rintro ⟨key, found⟩
    exact ⟨key, value, found, rfl⟩

end TreeMap

end KeyedFold

end ZManager
