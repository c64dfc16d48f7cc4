import Mathlib.Data.List.Nodup
import ZManager.Jobs.Progress

/-! # Windows of recent paths

The coalescer, its batches and the consumer's state keep windows of recent paths, each with rules
of its own for what goes. All of them stay within the same bounds and name no path twice.
-/

namespace ZManager

namespace Jobs

variable {Identity : Type}

/-- Recent paths with their identities, few and short. -/
structure Window (paths : List Text) (identities : List Identity) : Prop where
  aligned : paths.length = identities.length
  apart : identities.Nodup
  few : paths.length ≤ progressRecentPathLimit
  short : pathBytes paths ≤ progressRecentPathBytesLimit

theorem Window.empty : Window ([] : List Text) ([] : List Identity) where
  aligned := rfl
  apart := List.nodup_nil
  few := Nat.zero_le _
  short := Nat.zero_le _

/-- Fewer paths have fewer bytes. -/
theorem pathBytes_le {fewer paths : List Text} (sub : fewer.Sublist paths) :
    pathBytes fewer ≤ pathBytes paths := by
  unfold pathBytes
  induction sub with
  | slnil => exact Nat.le_refl _
  | cons path sub ih =>
    rw [List.map_cons, List.sum_cons]
    omega
  | cons_cons path sub ih =>
    rw [List.map_cons, List.map_cons, List.sum_cons, List.sum_cons]
    omega

/-! ## The consumer's window -/

/-- Paths go from the front, each with its identity, until the rest is short. -/
theorem evictLong_eq (paths : List Text) (identities : List Identity) :
    ∃ count, evictLong paths identities = (paths.drop count, identities.drop count) ∧
      pathBytes (paths.drop count) ≤ progressRecentPathBytesLimit := by
  induction paths generalizing identities with
  | nil => exact ⟨0, rfl, Nat.zero_le _⟩
  | cons path paths ih =>
    rw [evictLong]
    split
    · obtain ⟨count, equal, short⟩ := ih (identities.drop 1)
      refine ⟨count + 1, ?_, short⟩
      rw [equal, List.drop_drop, Nat.add_comm 1, List.drop_succ_cons]
    · exact ⟨0, rfl, Nat.le_of_not_lt ‹_›⟩

/-- Dropping a path by the place of its identity. -/
theorem not_mem_eraseIdx {identities : List Identity} {identity : Identity} {index : Nat}
    (apart : identities.Nodup) (inside : index < identities.length)
    (found : identities[index] = identity) : identity ∉ identities.eraseIdx index := by
  intro member
  obtain ⟨other, within, elsewhere, same⟩ := List.mem_eraseIdx_iff_getElem.mp member
  exact elsewhere (apart.getElem_inj_iff.mp (same.trans found.symm))

section

variable {paths : List Text} {identities : List Identity}

/-- A window gives up the place of an identity. -/
theorem Window.withoutIdentity [DecidableEq Identity] (window : Window paths identities)
    (identity : Identity) :
    Window (withoutIdentity paths identities identity).1
        (withoutIdentity paths identities identity).2 ∧
      identity ∉ (Jobs.withoutIdentity paths identities identity).2 := by
  unfold Jobs.withoutIdentity
  cases place : identities.findIdx? (· = identity) with
  | none =>
    refine ⟨window, fun member => ?_⟩
    have all := List.findIdx?_eq_none_iff.mp place identity member
    simp at all
  | some index =>
    obtain ⟨inside, found, -⟩ := List.findIdx?_eq_some_iff_getElem.mp place
    have found : identities[index] = identity := by simpa using found
    have within : index < paths.length := window.aligned ▸ inside
    have few := window.few
    have shorter := pathBytes_le (List.eraseIdx_sublist paths index)
    refine ⟨⟨?_, window.apart.sublist (List.eraseIdx_sublist ..), ?_,
      Nat.le_trans shorter window.short⟩, not_mem_eraseIdx window.apart inside found⟩
    · rw [List.length_eraseIdx_of_lt within, List.length_eraseIdx_of_lt inside, window.aligned]
    · rw [List.length_eraseIdx_of_lt within]
      omega

/-- A new identity joins, and what is too much goes. -/
theorem Window.push (window : Window paths identities) {identity : Identity}
    (new : identity ∉ identities) (path : Text) :
    Window
      (evictLong (dropOldest (paths ++ [path]) (identities ++ [identity])).1
        (dropOldest (paths ++ [path]) (identities ++ [identity])).2).1
      (evictLong (dropOldest (paths ++ [path]) (identities ++ [identity])).1
        (dropOldest (paths ++ [path]) (identities ++ [identity])).2).2 := by
  obtain ⟨one, oldest, few⟩ : ∃ count,
      dropOldest (paths ++ [path]) (identities ++ [identity]) =
        ((paths ++ [path]).drop count, (identities ++ [identity]).drop count) ∧
      ((paths ++ [path]).drop count).length ≤ progressRecentPathLimit := by
    have room := window.few
    unfold dropOldest
    split
    · refine ⟨1, rfl, ?_⟩
      rw [List.length_drop, List.length_append, List.length_singleton]
      omega
    · exact ⟨0, rfl, Nat.le_of_not_lt ‹_›⟩
  rw [oldest]
  obtain ⟨two, evicted, short⟩ := evictLong_eq ((paths ++ [path]).drop one)
    ((identities ++ [identity]).drop one)
  rw [evicted]
  have pushed : (identities ++ [identity]).Nodup := by
    refine List.nodup_append.mpr ⟨window.apart, List.nodup_singleton _, ?_⟩
    rintro other member last found rfl
    exact new (List.mem_singleton.mp found ▸ member)
  refine ⟨?_, ?_, ?_, short⟩
  · simp only [List.length_drop, List.length_append, window.aligned, List.length_singleton]
  · exact (pushed.sublist (List.drop_sublist ..)).sublist (List.drop_sublist ..)
  · rw [List.length_drop]
    omega

namespace JobProgressState

variable [DecidableEq Identity] (pathIdentity : Text → Identity) {state : JobProgressState Identity}

/-- The window of a state. -/
def HasWindow (state : JobProgressState Identity) : Prop :=
  Window state.recentPaths state.recentPathIdentities

theorem HasWindow.recordPathWithIdentity (window : state.HasWindow) (path : Text)
    (identity : Identity) : (state.recordPathWithIdentity path identity).HasWindow :=
  (Window.withoutIdentity window identity).1.push (Window.withoutIdentity window identity).2
    (truncateUtf8 path progressPathDisplayBytesLimit)

theorem HasWindow.recordRecent (window : state.HasWindow) (recent : List Text)
    (identities : List Identity) :
    (state.recordRecent pathIdentity recent identities).HasWindow := by
  induction recent generalizing state identities with
  | nil => exact window
  | cons path recent ih => exact ih (window.recordPathWithIdentity _ _) _

theorem HasWindow.recordPaths (window : state.HasWindow) (current : Option Text)
    (recent : List Text) (identities : List Identity) :
    (state.recordPaths pathIdentity current recent identities).HasWindow := by
  have recorded := window.recordRecent pathIdentity recent identities
  cases current with
  | none => exact recorded
  | some path => exact recorded.recordPathWithIdentity _ _

theorem HasWindow.apply (window : state.HasWindow) (event : JobEvent Identity) :
    (state.apply pathIdentity event).HasWindow := by
  unfold JobProgressState.apply
  split
  · exact window
  · cases event with
    | entryStarted => exact window.recordPathWithIdentity _ _
    | entryFinished => exact HasWindow.recordPathWithIdentity window _ _
    | bytesProcessed =>
      refine HasWindow.recordPaths pathIdentity ?_ _ _ _
      exact window
    | phaseBytesProcessed =>
      refine HasWindow.recordPaths pathIdentity ?_ _ _ _
      exact window
    | _ => exact window

/-- After any events the paths of a state are few, short and told apart. -/
theorem hasWindow_after (events : List (JobEvent Identity)) :
    (after pathIdentity events).HasWindow := by
  unfold after
  suffices all : ∀ state : JobProgressState Identity, state.HasWindow →
      (events.foldl (JobProgressState.apply pathIdentity) state).HasWindow from all {} .empty
  induction events with
  | nil => exact fun state window => window
  | cons event events ih => exact fun state window => ih _ (window.apply pathIdentity event)

end JobProgressState

/-! ## The coalescer's window -/

theorem evictPaths_eq (recent : List (Identity × Text)) :
    ∃ count, (evictPaths recent).1 = recent.drop count ∧
      pathBytes ((recent.drop count).map Prod.snd) ≤ progressRecentPathBytesLimit := by
  induction recent with
  | nil => exact ⟨0, rfl, Nat.zero_le _⟩
  | cons first rest ih =>
    rw [evictPaths]
    split
    · obtain ⟨count, equal, short⟩ := ih
      exact ⟨count + 1, equal, short⟩
    · exact ⟨0, rfl, Nat.le_of_not_lt ‹_›⟩

/-- The newest path of the coalescer's window. -/
theorem pushPair {recent : List (Identity × Text)}
    (window : Window (recent.map Prod.snd) (recent.map Prod.fst)) {identity : Identity}
    (new : identity ∉ recent.map Prod.fst) (display : Text) :
    Window
      ((evictPaths (if progressRecentPathLimit < (recent ++ [(identity, display)]).length then
        (recent ++ [(identity, display)]).drop 1 else recent ++ [(identity, display)])).1.map
          Prod.snd)
      ((evictPaths (if progressRecentPathLimit < (recent ++ [(identity, display)]).length then
        (recent ++ [(identity, display)]).drop 1 else recent ++ [(identity, display)])).1.map
          Prod.fst) := by
  have room := window.few
  rw [List.length_map] at room
  obtain ⟨one, bounded, few⟩ : ∃ count,
      (if progressRecentPathLimit < (recent ++ [(identity, display)]).length then
        (recent ++ [(identity, display)]).drop 1 else recent ++ [(identity, display)]) =
          (recent ++ [(identity, display)]).drop count ∧
      ((recent ++ [(identity, display)]).drop count).length ≤ progressRecentPathLimit := by
    split
    · refine ⟨1, rfl, ?_⟩
      rw [List.length_drop, List.length_append, List.length_singleton]
      omega
    · exact ⟨0, rfl, Nat.le_of_not_lt ‹_›⟩
  rw [bounded]
  obtain ⟨two, evicted, short⟩ := evictPaths_eq ((recent ++ [(identity, display)]).drop one)
  rw [evicted]
  have pushed : ((recent ++ [(identity, display)]).map Prod.fst).Nodup := by
    rw [List.map_append]
    refine List.nodup_append.mpr ⟨window.apart, List.nodup_singleton _, ?_⟩
    rintro other member last found rfl
    obtain rfl : other = identity := List.mem_singleton.mp found
    exact new member
  refine ⟨by simp, ?_, ?_, short⟩
  · exact pushed.sublist
      (((List.drop_sublist ..).trans (List.drop_sublist ..)).map Prod.fst)
  · rw [List.length_map, List.length_drop]
    omega

namespace ProgressCoalescer

variable [DecidableEq Identity] (pathIdentity : Text → Identity)
  {coalescer : ProgressCoalescer Identity}

def HasWindow (coalescer : ProgressCoalescer Identity) : Prop :=
  Window (coalescer.recentPaths.map Prod.snd) (coalescer.recentPaths.map Prod.fst)

/-- Without the path of an identity. -/
theorem HasWindow.eraseIdentity (window : coalescer.HasWindow) (identity : Identity) :
    Window ((coalescer.recentPaths.eraseP fun recent => recent.1 = identity).map Prod.snd)
        ((coalescer.recentPaths.eraseP fun recent => recent.1 = identity).map Prod.fst) ∧
      identity ∉ (coalescer.recentPaths.eraseP fun recent => recent.1 = identity).map Prod.fst := by
  have sub := List.eraseP_sublist (l := coalescer.recentPaths)
    (p := fun recent : Identity × Text => decide (recent.1 = identity))
  have few := sub.length_le
  have bound := window.few
  have apart : ((coalescer.recentPaths.eraseP fun recent => recent.1 = identity).map
      Prod.fst).Nodup := window.apart.sublist (sub.map Prod.fst)
  refine ⟨⟨by simp, apart, ?_, ?_⟩, ?_⟩
  · rw [List.length_map] at bound ⊢
    omega
  · exact Nat.le_trans (pathBytes_le (sub.map Prod.snd)) window.short
  · have same : (coalescer.recentPaths.eraseP fun recent => recent.1 = identity).map Prod.fst =
        (coalescer.recentPaths.map Prod.fst).erase identity := by
      rw [List.erase_eq_eraseP', List.eraseP_map]
      rfl
    rw [same]
    exact window.apart.not_mem_erase

theorem HasWindow.recordPath (window : coalescer.HasWindow) (path : Text) :
    (coalescer.recordPath pathIdentity path).HasWindow := by
  have erased := window.eraseIdentity (pathIdentity path)
  unfold ProgressCoalescer.recordPath
  split
  · exact window
  · dsimp only
    split
    · exact pushPair erased.1 erased.2 _
    · exact window

end ProgressCoalescer

end

end Jobs

end ZManager
