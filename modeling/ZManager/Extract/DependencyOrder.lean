import ZManager.Extract.DeferredLinks
import ZManager.Foundation.Dependency

/-! # Counting down the dependencies of deferred links

The order of deferred links with the tables that it is computed with: the last link of each
destination, how many links a link waits for, and which links wait for it. The tables and the
queue come to the same order as working off the queue alone, and that order is one of all
links exactly when every source is there and no link waits for itself.
-/

namespace ZManager

namespace DeferredLinks

/-- `collect` into a map from the destinations to the links. -/
def destinations (links : List (PathBuf × PathBuf)) : PathBuf → Option Nat :=
  links.zipIdx.foldl (fun map link => Function.update map link.1.2 (some link.2)) fun _ => none

/-- What is left of the dependencies between links. -/
structure Tables where
  dependencyCounts : List Nat
  dependents : List (List Nat)

/-- The first loop: each link is counted and listed with the link that it waits for. -/
def countDependencies {Content : Type} (fs : FileSystem Content)
    (destinations : PathBuf → Option Nat) :
    List (PathBuf × PathBuf) → Nat → Tables → Except IoError Tables
  | [], _, tables => .ok tables
  | (source, _) :: links, index, tables =>
    match destinations source with
    | some dependency => countDependencies fs destinations links (index + 1)
        ⟨tables.dependencyCounts.set index 1,
          tables.dependents.modify dependency (· ++ [index])⟩
    | none =>
      match fs.lstat source with
      | .ok _ => countDependencies fs destinations links (index + 1) tables
      | .error kind => .error ⟨kind, "deferred link target was not materialized: " ++
          String.ofList source.toText⟩

/-- The inner loop: the links that wait for the one taken. A count is never below zero; an
index outside of the counts is a panic. -/
def release : List Nat → List Nat → List Nat → Option (List Nat × List Nat)
  | counts, ready, [] => some (counts, ready)
  | counts, ready, dependent :: dependents =>
    match counts[dependent]? with
    | none | some 0 => none
    | some (left + 1) =>
      release (counts.set dependent left) (if left = 0 then ready ++ [dependent] else ready)
        dependents

theorem sum_set_pred {counts : List Nat} {index left : Nat}
    (here : counts[index]? = some (left + 1)) : (counts.set index left).sum + 1 = counts.sum := by
  induction counts generalizing index with
  | nil => cases here
  | cons count counts ih =>
    cases index with
    | zero =>
      cases here
      rw [List.set_cons_zero, List.sum_cons, List.sum_cons]
      omega
    | succ index =>
      rw [List.set_cons_succ, List.sum_cons, List.sum_cons, Nat.add_assoc, ih here]

/-- A link that becomes ready is one less to wait for. -/
theorem release_measure {counts ready dependents counts' ready' : List Nat}
    (released : release counts ready dependents = some (counts', ready')) :
    2 * counts'.sum + ready'.length ≤ 2 * counts.sum + ready.length := by
  fun_induction release counts ready dependents with
  | case1 => cases released; exact Nat.le_refl _
  | case2 => cases released
  | case3 => cases released
  | case4 counts ready dependent dependents left here ih =>
    have step := ih released
    have less := sum_set_pred here
    split at step
    · rw [List.length_append, List.length_singleton] at step
      omega
    · omega

/-- The loop over the queue. -/
def drain (dependents : List (List Nat)) (counts ready order : List Nat) : Option (List Nat) :=
  match ready with
  | [] => some order
  | index :: queue =>
    match dependents[index]? with
    | none => none
    | some waiting =>
      match _released : release counts queue waiting with
      | none => none
      | some (counts', queue') => drain dependents counts' queue' (order ++ [index])
  termination_by 2 * counts.sum + ready.length
  decreasing_by
    have less := release_measure _released
    rw [List.length_cons]
    omega

/-- `deferred_link_dependency_order`; nothing when it panics. -/
def dependencyOrder {Content : Type} (fs : FileSystem Content)
    (links : List (PathBuf × PathBuf)) : Option (Except IoError (List Nat)) :=
  match countDependencies fs (destinations links) links 0
      ⟨List.replicate links.length 0, List.replicate links.length []⟩ with
  | .error error => some (.error error)
  | .ok tables =>
    let ready := tables.dependencyCounts.zipIdx.filterMap fun count =>
      if count.1 = 0 then some count.2 else none
    (drain tables.dependents tables.dependencyCounts ready []).map fun order =>
      if order.length ≠ links.length then
        .error ⟨.invalidData, "deferred link dependency cycle"⟩
      else .ok order

/-! ## The last link of a destination -/

theorem destinationIndex_concat (front : List (PathBuf × PathBuf)) (link : PathBuf × PathBuf)
    (path : PathBuf) : destinationIndex (front ++ [link]) path =
      if link.2 = path then some front.length else destinationIndex front path := by
  unfold destinationIndex
  rw [List.zipIdx_append, List.filter_append, List.zipIdx_singleton, List.filter_singleton]
  split
  next same =>
    simp only [same, decide_true, cond_true, List.getLast?_concat, Option.map_some, Nat.zero_add]
  next other => simp only [other, decide_false, cond_false, List.append_nil]

theorem destinations_concat (front : List (PathBuf × PathBuf)) (link : PathBuf × PathBuf) :
    destinations (front ++ [link]) =
      Function.update (destinations front) link.2 (some front.length) := by
  unfold destinations
  rw [List.zipIdx_append, List.zipIdx_singleton, List.foldl_append, List.foldl_cons,
    List.foldl_nil, Nat.zero_add]

/-- The map knows the last link of each destination. -/
theorem destinations_eq (links : List (PathBuf × PathBuf)) :
    destinations links = destinationIndex links := by
  funext path
  induction links using List.reverseRecOn with
  | nil => rfl
  | append_singleton front link ih =>
    rw [destinations_concat, destinationIndex_concat]
    by_cases same : link.2 = path
    · rw [if_pos same, ← same, Function.update_self]
    · rw [if_neg same, Function.update_of_ne (Ne.symm same), ih]

/-- The link at an index is the last one with the destination. -/
def MakesLast (links : List (PathBuf × PathBuf)) (path : PathBuf) (index : Nat) : Prop :=
  ∃ link, links[index]? = some link ∧ link.2 = path ∧
    ∀ later other, index < later → links[later]? = some other → other.2 ≠ path

theorem destinationIndex_eq_some {links : List (PathBuf × PathBuf)} {path : PathBuf}
    {index : Nat} : destinationIndex links path = some index ↔ MakesLast links path index := by
  unfold MakesLast
  induction links using List.reverseRecOn with
  | nil => simp [destinationIndex]
  | append_singleton front link ih =>
    rw [destinationIndex_concat]
    have inside {later : Nat} {other : PathBuf × PathBuf}
        (here : (front ++ [link])[later]? = some other) :
        later < front.length ∧ front[later]? = some other ∨
          later = front.length ∧ other = link := by
      rcases Nat.lt_trichotomy later front.length with before | same | behind
      · exact .inl ⟨before, by rwa [List.getElem?_append_left before] at here⟩
      · rw [same, List.getElem?_concat_length] at here
        exact .inr ⟨same, (Option.some.inj here).symm⟩
      · have bound := (List.getElem?_eq_some_iff.mp here).1
        rw [List.length_append, List.length_singleton] at bound
        omega
    split
    next same =>
      constructor
      · intro found
        cases found
        refine ⟨link, List.getElem?_concat_length, same, fun later other behind here => ?_⟩
        rcases inside here with ⟨before, -⟩ | ⟨last, -⟩
        · exact absurd behind (Nat.not_lt.mpr before.le)
        · exact absurd last behind.ne'
      · rintro ⟨other, here, -, final⟩
        rcases inside here with ⟨before, -⟩ | ⟨last, -⟩
        · exact absurd same (final _ _ before List.getElem?_concat_length)
        · rw [last]
    next differs =>
      rw [ih]
      constructor
      · rintro ⟨made, here, same, final⟩
        refine ⟨made, ?_, same, fun later other behind there => ?_⟩
        · rwa [List.getElem?_append_left (List.getElem?_eq_some_iff.mp here).1]
        · rcases inside there with ⟨-, there⟩ | ⟨-, rfl⟩
          · exact final later other behind there
          · exact differs
      · rintro ⟨made, here, same, final⟩
        rcases inside here with ⟨before, there⟩ | ⟨-, rfl⟩
        · refine ⟨made, there, same, fun later other behind further => ?_⟩
          apply final later other behind
          rwa [List.getElem?_append_left (List.getElem?_eq_some_iff.mp further).1]
        · exact absurd same differs

theorem destinationIndex_eq_none {links : List (PathBuf × PathBuf)} {path : PathBuf} :
    destinationIndex links path = none ↔ ∀ link ∈ links, link.2 ≠ path := by
  unfold destinationIndex
  rw [Option.map_eq_none_iff, List.getLast?_eq_none_iff, List.filter_eq_nil_iff]
  simp only [decide_eq_true_eq]
  constructor
  · intro all link member
    obtain ⟨index, here⟩ := List.mem_iff_getElem?.mp member
    exact all (link, index) (List.mk_mem_zipIdx_iff_getElem?.mpr here)
  · rintro all ⟨link, index⟩ member
    exact all link (List.mem_of_getElem? (List.mk_mem_zipIdx_iff_getElem?.mp member))

/-! ## The tables -/

/-- What the link at an index waits for. -/
def dependency (links : List (PathBuf × PathBuf)) (index : Nat) : Option Nat :=
  (links[index]?).bind fun link => destinationIndex links link.1

/-- The tables when so many links have been counted. -/
def tablesAt (dependency : Nat → Option Nat) (count done : Nat) : Tables where
  dependencyCounts := (List.range count).map fun index =>
    if index < done ∧ (dependency index).isSome then 1 else 0
  dependents := (List.range count).map fun other =>
    (List.range done).filter fun index => dependency index = some other

theorem tablesAt_zero (dependency : Nat → Option Nat) (count : Nat) :
    tablesAt dependency count 0 = ⟨List.replicate count 0, List.replicate count []⟩ := by
  simp [tablesAt]

theorem tablesAt_succ_of_none {dependency : Nat → Option Nat} {count done : Nat}
    (free : dependency done = none) :
    tablesAt dependency count (done + 1) = tablesAt dependency count done := by
  unfold tablesAt
  congr 1
  · refine List.map_congr_left fun index _ => ?_
    by_cases same : index = done
    · simp [same, free]
    · simp only [Nat.lt_succ_iff_lt_or_eq, same, or_false]
  · refine List.map_congr_left fun other _ => ?_
    rw [List.range_succ, List.filter_append]
    simp [free]

theorem tablesAt_succ_of_some {dependency : Nat → Option Nat} {count done other : Nat}
    (waits : dependency done = some other) :
    tablesAt dependency count (done + 1) =
      ⟨(tablesAt dependency count done).dependencyCounts.set done 1,
        (tablesAt dependency count done).dependents.modify other (· ++ [done])⟩ := by
  unfold tablesAt
  congr 1
  · refine List.ext_getElem (by simp) fun index inside _ => ?_
    rw [List.getElem_set, List.getElem_map, List.getElem_map, List.getElem_range]
    by_cases same : done = index
    · subst same
      simp [waits]
    · simp only [if_neg same, Nat.lt_succ_iff_lt_or_eq, Ne.symm same, or_false]
  · refine List.ext_getElem (by simp) fun index inside _ => ?_
    rw [List.getElem_modify, List.getElem_map, List.getElem_map, List.getElem_range,
      List.range_succ, List.filter_append]
    by_cases same : other = index
    · subst same
      simp [waits]
    · rw [if_neg same]
      simp [waits, same]

/-- A source is there when a link makes it or it is on the disk. -/
def checkSource {Content : Type} (fs : FileSystem Content) (destinations : PathBuf → Option Nat)
    (link : PathBuf × PathBuf) : Except IoError Unit :=
  if (destinations link.1).isSome then .ok ()
  else
    match fs.lstat link.1 with
    | .ok _ => .ok ()
    | .error kind => .error ⟨kind, "deferred link target was not materialized: " ++
        String.ofList link.1.toText⟩

/-- The first loop checks the sources and fills the tables. -/
theorem countDependencies_eq {Content : Type} (fs : FileSystem Content)
    {dependency : Nat → Option Nat} {destinations : PathBuf → Option Nat} {count : Nat}
    (links : List (PathBuf × PathBuf)) (done : Nat)
    (waits : ∀ offset link, links[offset]? = some link →
      dependency (done + offset) = destinations link.1) :
    countDependencies fs destinations links done (tablesAt dependency count done) =
      (links.forM (checkSource fs destinations)).map
        fun _ => tablesAt dependency count (done + links.length) := by
  rw [List.forM_eq_forM]
  induction links generalizing done with
  | nil => rfl
  | cons link links ih =>
    have first : dependency done = destinations link.1 := waits 0 link rfl
    have rest := ih (done + 1) fun offset other here => by
      rw [Nat.add_assoc, Nat.add_comm 1]
      exact waits (offset + 1) other here
    rw [countDependencies, List.forM_cons]
    unfold checkSource
    cases made : destinations link.1 with
    | some producer =>
      rw [made] at first
      dsimp only
      rw [← tablesAt_succ_of_some first, rest, List.length_cons,
        Nat.add_assoc, Nat.add_comm 1]
      rfl
    | none =>
      rw [made] at first
      dsimp only
      cases fs.lstat link.1 with
      | ok _ =>
        dsimp only
        rw [← tablesAt_succ_of_none first, rest, List.length_cons, Nat.add_assoc,
          Nat.add_comm 1]
        rfl
      | error kind => rfl

/-! ## The queue -/

/-- Links that wait for one link only are released together. -/
theorem release_eq {counts ready dependents : List Nat} (distinct : dependents.Nodup)
    (waiting : ∀ dependent ∈ dependents, counts[dependent]? = some 1) :
    ∃ counts', release counts ready dependents = some (counts', ready ++ dependents) ∧
      ∀ index, counts'[index]? = if index ∈ dependents then some 0 else counts[index]? := by
  induction dependents generalizing counts ready with
  | nil => exact ⟨counts, by rw [release, List.append_nil], fun index => by simp⟩
  | cons dependent dependents ih =>
    obtain ⟨fresh, distinct⟩ := List.nodup_cons.mp distinct
    have here := waiting dependent List.mem_cons_self
    have inside := (List.getElem?_eq_some_iff.mp here).1
    obtain ⟨counts', released, known⟩ := @ih (counts.set dependent 0) (ready ++ [dependent])
      distinct fun other member => by
        rw [List.getElem?_set_ne fun same : dependent = other => fresh (same ▸ member)]
        exact waiting other (List.mem_cons_of_mem _ member)
    refine ⟨counts', ?_, fun index => ?_⟩
    · rw [release, here]
      dsimp only
      rw [if_pos rfl, released, List.append_assoc, List.singleton_append]
    · rw [known index]
      by_cases same : dependent = index
      · subst same
        rw [if_neg fresh, if_pos List.mem_cons_self, List.getElem?_set_self inside]
      · rw [List.getElem?_set_ne same]
        simp only [List.mem_cons, Ne.symm same, false_or]

/-- The links taken and those on the queue, while the queue is worked off: a link is on one of
the two as soon as the link that it waits for is taken, and then its count is zero. -/
structure Draining (dependency : Nat → Option Nat) (count : Nat)
    (counts ready order : List Nat) : Prop where
  settled : Dependency.Settled (fun index other => dependency index = some other) order
  distinct : (order ++ ready).Nodup
  inside : ∀ index ∈ order ++ ready, index < count
  released : ∀ index < count, index ∈ order ++ ready ↔
    ∀ other, dependency index = some other → other ∈ order
  counted : ∀ index < count, counts[index]? = some (if index ∈ order ++ ready then 0 else 1)

/-- What waits for a link. -/
def waitingFor (dependency : Nat → Option Nat) (count index : Nat) : List Nat :=
  (List.range count).filter fun dependent => dependency dependent = some index

theorem mem_waitingFor {dependency : Nat → Option Nat} {count index dependent : Nat} :
    dependent ∈ waitingFor dependency count index ↔
      dependent < count ∧ dependency dependent = some index := by
  simp [waitingFor]

section

variable {dependency : Nat → Option Nat} {count index : Nat} {counts queue ready order : List Nat}

/-- The start: what waits for nothing is ready. -/
theorem Draining.start :
    Draining dependency count (tablesAt dependency count count).dependencyCounts
      ((List.range count).filter fun index => dependency index = none) [] where
  settled := .nil
  distinct := List.nodup_range.filter _
  inside index member := List.mem_range.mp (List.mem_of_mem_filter member)
  released index small := by
    rw [List.nil_append, List.mem_filter, List.mem_range, and_iff_right small, decide_eq_true_eq,
      Option.eq_none_iff_forall_ne_some]
    simp
  counted index small := by
    unfold tablesAt
    rw [List.getElem?_map, List.getElem?_range small, Option.map_some, List.nil_append]
    simp only [small, true_and, List.mem_filter, List.mem_range, decide_eq_true_eq]
    cases dependency index <;> rfl

/-- **One round of the queue.** -/
theorem Draining.round (draining : Draining dependency count counts (index :: queue) order) :
    ∃ counts', release counts queue (waitingFor dependency count index) =
        some (counts', queue ++ waitingFor dependency count index) ∧
      Draining dependency count counts' (queue ++ waitingFor dependency count index)
        (order ++ [index]) := by
  have whole : order ++ index :: queue = order ++ [index] ++ queue := by simp
  have small : index < count := draining.inside index (by simp)
  have fresh : index ∉ order := fun before =>
    (List.nodup_append.mp draining.distinct).2.2 index before index List.mem_cons_self rfl
  have untaken : ∀ dependent ∈ waitingFor dependency count index,
      dependent ∉ order ++ index :: queue := fun dependent member taken =>
    have waits := mem_waitingFor.mp member
    fresh ((draining.released dependent waits.1).mp taken index waits.2)
  have distinct : (waitingFor dependency count index).Nodup := List.nodup_range.filter _
  obtain ⟨counts', released, known⟩ := @release_eq counts queue _ distinct
    fun dependent member => by
      rw [draining.counted dependent (mem_waitingFor.mp member).1, if_neg (untaken _ member)]
  refine ⟨counts', released, ?_, ?_, ?_, ?_, ?_⟩
  · refine draining.settled.concat fun other waits => ?_
    exact (draining.released index small).mp (by simp) other waits
  · rw [← List.append_assoc, ← whole]
    exact draining.distinct.append distinct fun other taken waits => untaken other waits taken
  · rw [← List.append_assoc, ← whole]
    intro other member
    rcases List.mem_append.mp member with before | behind
    · exact draining.inside other before
    · exact (mem_waitingFor.mp behind).1
  · intro other bound
    rw [← List.append_assoc, ← whole, List.mem_append, draining.released other bound,
      mem_waitingFor, and_iff_right bound]
    constructor
    · rintro (before | waits) producer made
      · exact List.mem_append_left _ (before producer made)
      · cases made.symm.trans waits
        exact List.mem_append_right _ (List.mem_singleton_self _)
    · intro all
      by_cases waits : dependency other = some index
      · exact .inr waits
      · refine .inl fun producer made => ?_
        rcases List.mem_append.mp (all producer made) with before | last
        · exact before
        · exact absurd (List.mem_singleton.mp last ▸ made) waits
  · intro other bound
    rw [known other, ← List.append_assoc, ← whole]
    by_cases waits : other ∈ waitingFor dependency count index
    · rw [if_pos waits, if_pos (List.mem_append_right _ waits)]
    · rw [if_neg waits, draining.counted other bound]
      simp only [List.mem_append, waits, or_false]

theorem Draining.length_le (draining : Draining dependency count counts ready order) :
    order.length + ready.length ≤ count := by
  rw [← List.length_append]
  have within : order ++ ready ⊆ List.range count :=
    fun index member => List.mem_range.mpr (draining.inside index member)
  have bound := (draining.distinct.subperm within).length_le
  rwa [List.length_range] at bound

theorem drain_cons {dependents : List (List Nat)} {waiting counts' queue' : List Nat}
    (here : dependents[index]? = some waiting)
    (released : release counts queue waiting = some (counts', queue')) :
    DeferredLinks.drain dependents counts (index :: queue) order =
      DeferredLinks.drain dependents counts' queue' (order ++ [index]) := by
  rw [DeferredLinks.drain]
  simp only [here]
  split
  next none => cases none.symm.trans released
  next again =>
    cases again.symm.trans released
    rfl

/-- **The queue is worked off.** The loop ends, as working off the queue alone does, and what it
leaves out waits for something left out. -/
theorem Draining.drain (draining : Draining dependency count counts ready order)
    (dependents : ∀ index < count, (tablesAt dependency count count).dependents[index]? =
      some (waitingFor dependency count index)) :
    ∃ all counts', DeferredLinks.drain (tablesAt dependency count count).dependents counts ready
        order = some all ∧
      all = order ++ readyOrder dependency count (count - order.length) ready ∧
      Draining dependency count counts' [] all := by
  induction left : count - order.length generalizing counts ready order with
  | zero =>
    have full : order.length + ready.length ≤ count := draining.length_le
    obtain rfl : ready = [] := List.eq_nil_of_length_eq_zero (by omega)
    exact ⟨order, counts, by rw [DeferredLinks.drain], by simp [readyOrder], draining⟩
  | succ steps ih =>
    cases ready with
    | nil => exact ⟨order, counts, by rw [DeferredLinks.drain], by simp [readyOrder], draining⟩
    | cons index queue =>
      have small : index < count := draining.inside index (by simp)
      obtain ⟨counts', released, draining'⟩ := draining.round
      obtain ⟨all, final, drained, same, ended⟩ := ih draining' (by
        rw [List.length_append, List.length_singleton]
        omega)
      refine ⟨all, final, ?_, ?_, ended⟩
      · rw [drain_cons (dependents index small) released, drained]
      · rw [same, readyOrder, List.append_assoc, List.singleton_append]
        rfl

/-! ## The order -/

theorem ready_eq (dependency : Nat → Option Nat) (count : Nat) :
    (tablesAt dependency count count).dependencyCounts.zipIdx.filterMap (fun entry =>
      if entry.1 = 0 then some entry.2 else none) =
        (List.range count).filter fun index => dependency index = none := by
  have indexed : (tablesAt dependency count count).dependencyCounts.zipIdx =
      (List.range count).map fun index => (if (dependency index).isSome then 1 else 0, index) := by
    refine List.ext_getElem (by simp [tablesAt]) fun index inside within => ?_
    rw [List.length_map, List.length_range] at within
    simp [tablesAt, within]
  rw [indexed, List.filterMap_map, ← List.filterMap_eq_filter]
  refine List.filterMap_congr fun index _ => ?_
  cases waits : dependency index <;> simp [waits, Option.guard]

theorem dependents_eq (dependency : Nat → Option Nat) (count : Nat) :
    ∀ index < count, (tablesAt dependency count count).dependents[index]? =
      some (waitingFor dependency count index) := by
  intro index small
  unfold tablesAt
  rw [List.getElem?_map, List.getElem?_range small]
  rfl

end

section

variable {Content : Type} (fs : FileSystem Content) (links : List (PathBuf × PathBuf))

/-- What the loops come to once the sources have been checked. -/
theorem exists_draining : ∃ all counts',
    drain (tablesAt (dependency links) links.length links.length).dependents
      (tablesAt (dependency links) links.length links.length).dependencyCounts
      ((List.range links.length).filter fun index => dependency links index = none) [] = some all ∧
    all = readyOrder (dependency links) links.length links.length
      ((List.range links.length).filter fun index => dependency links index = none) ∧
    Draining (dependency links) links.length counts' [] all :=
  Draining.start.drain (dependents_eq _ _)

theorem countDependencies_start : countDependencies fs (destinations links) links 0
      ⟨List.replicate links.length 0, List.replicate links.length []⟩ =
    (links.forM (checkSource fs (destinationIndex links))).map fun _ =>
      tablesAt (dependency links) links.length links.length := by
  have counted := @countDependencies_eq _ fs (dependency links) (destinationIndex links)
    links.length links 0 fun offset link here => by
      unfold dependency
      rw [Nat.zero_add, here, Option.bind_some]
  rw [tablesAt_zero, Nat.zero_add] at counted
  rw [destinations_eq, counted]

/-- The sources are checked, and then the queue is worked off. -/
theorem deferredLinkDependencyOrder_eq_bind : deferredLinkDependencyOrder fs links =
    (links.forM (checkSource fs (destinationIndex links))).bind fun _ =>
      let order := readyOrder (dependency links) links.length links.length
        ((List.range links.length).filter fun index => dependency links index = none)
      if order.length ≠ links.length then
        .error ⟨.invalidData, "deferred link dependency cycle"⟩
      else .ok order := rfl

/-- **Counting and the queue alone come to the same order**, and counting does not panic. -/
theorem dependencyOrder_eq :
    dependencyOrder fs links = some (deferredLinkDependencyOrder fs links) := by
  obtain ⟨all, counts', drained, same, -⟩ := exists_draining links
  unfold dependencyOrder
  rw [countDependencies_start, deferredLinkDependencyOrder_eq_bind]
  cases links.forM (checkSource fs (destinationIndex links)) with
  | error failed => rfl
  | ok _ =>
    simp only [Except.map, Except.bind, ready_eq, drained, Option.map_some]
    rw [same]

theorem checkSource_eq_ok (link : PathBuf × PathBuf) :
    checkSource fs (destinationIndex links) link = .ok () ↔
      ((∀ other ∈ links, other.2 ≠ link.1) → ∃ fileType, fs.lstat link.1 = .ok fileType) := by
  unfold checkSource
  rw [← destinationIndex_eq_none]
  cases destinationIndex links link.1 with
  | some producer => simp
  | none => cases fs.lstat link.1 <;> simp

/-- A link waits for the last one that makes its source. -/
def WaitsFor (index producer : Nat) : Prop :=
  ∃ link, links[index]? = some link ∧ MakesLast links link.1 producer

theorem waitsFor_eq :
    (fun index producer => dependency links index = some producer) = WaitsFor links := by
  funext index producer
  unfold dependency WaitsFor
  rw [Option.bind_eq_some_iff]
  simp only [destinationIndex_eq_some]

theorem waitsFor_inside (index producer : Nat) (waits : WaitsFor links index producer) :
    index ∈ List.range links.length ∧ producer ∈ List.range links.length := by
  obtain ⟨link, here, made, there, -⟩ := waits
  exact ⟨List.mem_range.mpr (List.getElem?_eq_some_iff.mp here).1,
    List.mem_range.mpr (List.getElem?_eq_some_iff.mp there).1⟩

end

/-- **Deferred links are ordered when they can be.** An order is returned exactly when every
source that no link makes is on the disk and no link waits for itself; it lists every link
once, each behind the last one that makes its source. -/
theorem deferred_links_are_ordered_iff {Content : Type} (fs : FileSystem Content)
    (links : List (PathBuf × PathBuf)) :
    ((∃ order, dependencyOrder fs links = some (.ok order)) ↔
      (∀ link ∈ links, (∀ other ∈ links, other.2 ≠ link.1) →
        ∃ fileType, fs.lstat link.1 = .ok fileType) ∧
      ¬Dependency.Cyclic (WaitsFor links)) ∧
    ∀ order, dependencyOrder fs links = some (.ok order) →
      order.Perm (List.range links.length) ∧
      ∀ index producer, WaitsFor links index producer →
        order.idxOf producer < order.idxOf index := by
  obtain ⟨all, counts', -, same, draining⟩ := exists_draining links
  have settled := draining.settled
  have distinct := draining.distinct
  rw [waitsFor_eq] at settled
  rw [List.append_nil] at distinct
  have subset : all ⊆ List.range links.length := fun index member =>
    List.mem_range.mpr (draining.inside index (List.mem_append_left _ member))
  have counting := settled.length_eq_iff distinct List.nodup_range subset (waitsFor_inside links)
    fun index small free => by
      have taken := (draining.released index (List.mem_range.mp small)).mpr fun other waits =>
        free other (waitsFor_eq links ▸ waits)
      rwa [List.append_nil] at taken
  rw [List.length_range] at counting
  have returned {order : List Nat} : dependencyOrder fs links = some (.ok order) ↔
      (∀ link ∈ links, (∀ other ∈ links, other.2 ≠ link.1) →
        ∃ fileType, fs.lstat link.1 = .ok fileType) ∧ all.length = links.length ∧ all = order := by
    rw [dependencyOrder_eq, Option.some.injEq, deferredLinkDependencyOrder_eq_bind, ← same]
    simp only [← checkSource_eq_ok]
    rw [← Except.forM_eq_ok_iff]
    cases links.forM (checkSource fs (destinationIndex links)) with
    | error failed => simp [Except.bind]
    | ok _ =>
      simp only [Except.bind, true_and]
      split
      next short => simp [short]
      next long => simp [not_not.mp long]
  simp only [returned]
  refine ⟨?_, ?_⟩
  · rw [← counting.1]
    constructor
    · rintro ⟨order, present, long, -⟩
      exact ⟨present, long⟩
    · rintro ⟨present, long⟩
      exact ⟨all, present, long, rfl⟩
  · rintro order ⟨-, long, rfl⟩
    have perm := counting.2 long
    refine ⟨perm, fun index producer waits => ?_⟩
    apply settled.idxOf_lt distinct
    · exact perm.mem_iff.mpr (waitsFor_inside links index producer waits).1
    · exact waits

end DeferredLinks

end ZManager
