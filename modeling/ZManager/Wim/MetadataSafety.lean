import Mathlib.Logic.Relation
import ZManager.Wim.Metadata

/-! # Where parsing a directory tree panics

The walk over the sibling lists as a machine that reads one entry a step. Parsing panics
exactly when it comes to an entry whose declared length wraps.
-/

namespace ZManager

namespace Wim

open Relation

variable {visited cursors : List Nat} {cursor : Nat} {dentry : Dentry} {result : Parsed Walked}

/-- Where a walk stands: the lists it has entered, and where it goes on in the open ones,
the innermost first. -/
structure WalkState where
  visited : List Nat
  cursors : List Nat

variable {buf : Slice}

variable {start : WalkState}

/-- One entry is read. -/
inductive WalkStep (buf : Slice) : WalkState → WalkState → Prop
  /-- The end of a list. -/
  | leave {visited cursors : List Nat} {cursor : Nat} (read : readDentry buf cursor = .ok none) :
      WalkStep buf ⟨visited, cursor :: cursors⟩ ⟨visited, cursors⟩
  /-- An entry without a list to enter. -/
  | next {visited cursors : List Nat} {cursor nextCursor : Nat} {dentry : Dentry}
      {unnamed : Option (List UInt8)} (read : readDentry buf cursor = .ok (some dentry))
      (streams : readExtraStreams buf dentry.numExtraStreams 0
        (wrappingAdd cursor (align8 dentry.length)) none = .ok (nextCursor, unnamed))
      (flat : ¬(dentry.hasUsableName ∧ dentry.hasList buf.bytes.length)) :
      WalkStep buf ⟨visited, cursor :: cursors⟩ ⟨visited, nextCursor :: cursors⟩
  /-- An entry with a list. -/
  | enter {visited cursors : List Nat} {cursor nextCursor : Nat} {dentry : Dentry}
      {unnamed : Option (List UInt8)} (read : readDentry buf cursor = .ok (some dentry))
      (streams : readExtraStreams buf dentry.numExtraStreams 0
        (wrappingAdd cursor (align8 dentry.length)) none = .ok (nextCursor, unnamed))
      (deeper : dentry.hasUsableName ∧ dentry.hasList buf.bytes.length)
      (shallow : cursors.length + 1 ≤ maxDentryDepth) (new : dentry.subdirOffset ∉ visited) :
      WalkStep buf ⟨visited, cursor :: cursors⟩
        ⟨dentry.subdirOffset :: visited, dentry.subdirOffset :: nextCursor :: cursors⟩

/-- The walk is about to read an entry whose end wraps. -/
def WalkState.Wraps (buf : Slice) (state : WalkState) : Prop :=
  ∃ cursor ∈ state.cursors.head?, Wim.Wraps buf cursor

def WalkState.Stuck (buf : Slice) (state : WalkState) : Prop := ∀ next, ¬WalkStep buf state next

theorem walkStep_rightUnique : Relator.RightUnique (WalkStep buf) := by
  intro state one two first second
  cases first with
  | leave read =>
    cases second with
    | leave => rfl
    | next read' => cases read.symm.trans read'
    | enter read' => cases read.symm.trans read'
  | next read streams flat =>
    cases second with
    | leave read' => cases read.symm.trans read'
    | next read' streams' =>
      cases read.symm.trans read'
      cases streams.symm.trans streams'
      rfl
    | enter read' streams' deeper =>
      cases read.symm.trans read'
      exact absurd deeper flat
  | enter read streams deeper =>
    cases second with
    | leave read' => cases read.symm.trans read'
    | next read' streams' flat =>
      cases read.symm.trans read'
      exact absurd deeper flat
    | enter read' streams' =>
      cases read.symm.trans read'
      cases streams.symm.trans streams'
      rfl

/-- A walk has one end. -/
theorem eq_of_stuck {one two : WalkState} (first : ReflTransGen (WalkStep buf) start one)
    (second : ReflTransGen (WalkStep buf) start two) (stuck : one.Stuck buf)
    (stuck' : two.Stuck buf) : one = two := by
  rcases first.total_of_right_unique walkStep_rightUnique second with further | further
  · rcases further.cases_head with same | ⟨next, step, -⟩
    · exact same
    · exact absurd step (stuck next)
  · rcases further.cases_head with same | ⟨next, step, -⟩
    · exact same.symm
    · exact absurd step (stuck' next)

/-- A walk is stuck where reading the entry stops it. -/
theorem stuck_of_error {stopped : Stop String} (failed : readDentry buf cursor = .error stopped) :
    WalkState.Stuck buf ⟨visited, cursor :: cursors⟩ := by
  intro next step
  cases step with
  | leave read => cases failed.symm.trans read
  | next read => cases failed.symm.trans read
  | enter read => cases failed.symm.trans read

theorem stuck_of_streams {stopped : Stop String}
    (read : readDentry buf cursor = .ok (some dentry))
    (failed : readExtraStreams buf dentry.numExtraStreams 0
      (wrappingAdd cursor (align8 dentry.length)) none = .error stopped) :
    WalkState.Stuck buf ⟨visited, cursor :: cursors⟩ := by
  intro next step
  cases step with
  | leave read' => cases read.symm.trans read'
  | next read' streams =>
    cases read.symm.trans read'
    cases failed.symm.trans streams
  | enter read' streams =>
    cases read.symm.trans read'
    cases failed.symm.trans streams

/-- A list that may not be entered stops the machine. -/
theorem stuck_of_refused (read : readDentry buf cursor = .ok (some dentry))
    (deeper : dentry.hasUsableName ∧ dentry.hasList buf.bytes.length)
    (refused : ¬(cursors.length + 1 ≤ maxDentryDepth ∧ dentry.subdirOffset ∉ visited)) :
    WalkState.Stuck buf ⟨visited, cursor :: cursors⟩ := by
  intro next step
  cases step with
  | leave read' => cases read.symm.trans read'
  | next read' _ flat =>
    cases read.symm.trans read'
    exact flat deeper
  | enter read' _ _ shallow new =>
    cases read.symm.trans read'
    exact refused ⟨shallow, new⟩

theorem stuck_of_wraps {state : WalkState} (wraps : state.Wraps buf) : state.Stuck buf := by
  obtain ⟨visited, cursors⟩ := state
  obtain ⟨cursor, first, wraps⟩ := wraps
  cases cursors with
  | nil => cases first
  | cons head rest =>
    cases first
    exact stuck_of_error (readDentry_of_wraps wraps)

/-- The result of the loop in terms of the machine: a list is left, or the machine gets
stuck, before an entry that wraps when the loop panics. -/
def Ends (buf : Slice) (start : WalkState) (cursors : List Nat) : Parsed Walked → Prop
  | .ok walked => ReflTransGen (WalkStep buf) start ⟨walked.visited, cursors⟩
  | .error stopped => ∃ last, ReflTransGen (WalkStep buf) start last ∧ last.Stuck buf ∧
      (stopped = .panicked ↔ last.Wraps buf)

theorem Ends.of_step {next : WalkState} (step : WalkStep buf start next)
    (ends : Ends buf next cursors result) :
    Ends buf start cursors result := by
  cases result with
  | ok walked => exact ReflTransGen.head step ends
  | error stopped =>
    obtain ⟨last, run, stuck⟩ := ends
    exact ⟨last, ReflTransGen.head step run, stuck⟩

/-- A list that is left, and what the walk comes to behind it. -/
theorem Ends.of_run {next : WalkState} (run : ReflTransGen (WalkStep buf) start next)
    (ends : Ends buf next cursors result) :
    Ends buf start cursors result := by
  induction run using ReflTransGen.head_induction_on with
  | refl => exact ends
  | head step _ ih => exact ih.of_step step

/-- A refusal stops the machine before an entry that does not wrap. -/
theorem Ends.of_refused {rest : List Nat} {message : String} (sound : ¬Wim.Wraps buf cursor)
    (stuck : WalkState.Stuck buf ⟨visited, cursor :: cursors⟩) :
    Ends buf ⟨visited, cursor :: cursors⟩ rest (.error (.refused message)) := by
  refine ⟨_, .refl, stuck, nofun, ?_⟩
  rintro ⟨_, first, wraps⟩
  cases first
  exact absurd wraps sound

theorem not_wraps_of_readDentry (read : readDentry buf cursor = .ok (some dentry)) :
    ¬Wim.Wraps buf cursor := by
  intro wraps
  cases read.symm.trans (readDentry_of_wraps wraps)

/-- A list that is refused stops the machine. -/
theorem enterList_cases (offset depth : Nat) (walked : Walked) :
    (depth ≤ maxDentryDepth ∧ offset ∉ walked.visited ∧ enterList offset depth walked =
      .ok { walked with visited := offset :: walked.visited }) ∨
    (¬(depth ≤ maxDentryDepth ∧ offset ∉ walked.visited) ∧
      ∃ message, enterList offset depth walked = .error (.refused message)) := by
  unfold enterList
  by_cases deep : maxDentryDepth < depth
  · rw [if_pos deep]
    exact .inr ⟨fun fits => Nat.not_lt.mpr fits.1 deep, _, rfl⟩
  rw [if_neg deep]
  by_cases seen : offset ∈ walked.visited
  · rw [if_pos seen]
    exact .inr ⟨fun fits => fits.2 seen, _, rfl⟩
  · rw [if_neg seen]
    exact .inl ⟨Nat.le_of_not_lt deep, seen, rfl⟩

theorem walkStep_of_enterList {walked entered : Walked} {currentPath : Text}
    {nextCursor depth : Nat} {unnamed : Option (List UInt8)} (cursors : List Nat)
    (deep : depth = cursors.length) (read : readDentry buf cursor = .ok (some dentry))
    (streams : readExtraStreams buf dentry.numExtraStreams 0
        (wrappingAdd cursor (align8 dentry.length)) none = .ok (nextCursor, unnamed))
    (usable : dentry.hasUsableName) (listed : dentry.hasList buf.bytes.length)
    (inner : enterList dentry.subdirOffset (depth + 1)
      (dentry.push currentPath unnamed walked) = .ok entered) :
    WalkStep buf ⟨walked.visited, cursor :: cursors⟩
      ⟨entered.visited, dentry.subdirOffset :: nextCursor :: cursors⟩ := by
  rcases enterList_cases dentry.subdirOffset (depth + 1) (dentry.push currentPath unnamed walked)
    with ⟨shallow, new, entered'⟩ | ⟨-, message, refused⟩
  · cases entered'.symm.trans inner
    exact .enter read streams ⟨usable, listed⟩ (deep ▸ shallow) new
  · cases refused.symm.trans inner

/-- **The loop and the machine** come to the same end. -/
theorem walkFrom_ends (cursor : Nat) (currentPath : Text) (walked : Walked) (depth : Nat)
    (cursors : List Nat) (deep : depth = cursors.length) (near : cursor ≤ buf.bytes.length + 7) :
    Ends buf ⟨walked.visited, cursor :: cursors⟩ cursors
      (walkFrom buf cursor currentPath walked depth) := by
  have addressable := buf.addressable
  fun_induction walkFrom buf cursor currentPath walked depth generalizing cursors with
  | case1 cursor currentPath walked depth stopped read =>
    refine ⟨_, .refl, stuck_of_error read, ?_⟩
    rcases @readDentry_cases buf cursor (by omega) with
      none | ⟨-, -, some⟩ | ⟨sound, message, failed⟩ | ⟨wraps, panicked⟩
    · cases none.symm.trans read
    · cases some.symm.trans read
    · cases failed.symm.trans read
      refine ⟨nofun, ?_⟩
      rintro ⟨_, first, wraps⟩
      cases first
      exact absurd wraps sound
    · cases panicked.symm.trans read
      exact ⟨fun _ => ⟨cursor, rfl, wraps⟩, fun _ => rfl⟩
  | case2 cursor currentPath walked depth read => exact .single (.leave read)
  | case3 cursor currentPath walked depth dentry read stopped streams =>
    have inside := inside_of_readDentry read
    have start := streamsAt_of_inside inside.2.1
    have same := streams
    rw [inside.2.2] at same
    change readExtraStreams buf _ 0 (streamsAt buf cursor) none = _ at same
    rcases @readExtraStreams_cases buf (streamsAt buf cursor) _ 0 none (by omega) with
      ⟨next, unnamed, read', -⟩ | ⟨message, failed⟩
    · cases read'.symm.trans same
    · cases failed.symm.trans same
      exact .of_refused (not_wraps_of_readDentry read) (stuck_of_streams read streams)
  | case4 cursor currentPath walked depth dentry read nextCursor unnamed streams usable pushed
      listed stopped refused =>
      rcases enterList_cases dentry.subdirOffset (depth + 1) pushed with
        ⟨-, -, entered⟩ | ⟨closed, message, refused'⟩
      · cases entered.symm.trans refused
      · cases refused'.symm.trans refused
        refine .of_refused (not_wraps_of_readDentry read)
          (stuck_of_refused read ⟨usable, listed⟩ ?_)
        rwa [deep] at closed
  | case5 cursor currentPath walked depth dentry read nextCursor unnamed streams usable pushed
      listed entered inner stopped failed ih =>
      have step := walkStep_of_enterList cursors deep read streams usable listed inner
      have ends := ih (nextCursor :: cursors) (congrArg (· + 1) deep) (by
        have low := listed.2.2.2
        omega)
      rw [failed] at ends
      exact .of_step step ends
  | case6 cursor currentPath walked depth dentry read nextCursor unnamed streams usable pushed
      listed entered inner left finished ihInner ih =>
      have step := walkStep_of_enterList cursors deep read streams usable listed inner
      have run := ihInner (nextCursor :: cursors) (congrArg (· + 1) deep) (by
        have low := listed.2.2.2
        omega)
      rw [finished] at run
      exact .of_step step (.of_run run (ih cursors deep (lt_next read streams).2))
  | case7 cursor currentPath walked depth dentry read nextCursor unnamed streams usable pushed flat
      ih =>
      exact .of_step (.next read streams fun deeper => flat deeper.2)
        (ih cursors deep (lt_next read streams).2)
  | case8 cursor currentPath walked depth dentry read nextCursor unnamed streams unusable ih =>
    exact .of_step (.next read streams fun deeper => unusable deeper.1)
      (ih cursors deep (lt_next read streams).2)

/-- Parsing comes to read the entry at an offset: the root, or an entry the walk over the
lists of the root comes to. -/
inductive Comes (metadata : Slice) : Nat → Prop
  | root (long : 8 ≤ metadata.bytes.length)
      (inside : align8 (max (Bytes.readU32 metadata.bytes 0) 8) < metadata.bytes.length) :
      Comes metadata (align8 (max (Bytes.readU32 metadata.bytes 0) 8))
  | walked {root : Dentry} {last : WalkState} {cursor : Nat}
      (long : 8 ≤ metadata.bytes.length)
      (inside : align8 (max (Bytes.readU32 metadata.bytes 0) 8) < metadata.bytes.length)
      (read : readDentry metadata (align8 (max (Bytes.readU32 metadata.bytes 0) 8)) =
        .ok (some root))
      (listed : 0 < root.subdirOffset ∧ root.subdirOffset < metadata.bytes.length)
      (new : root.subdirOffset ≠ align8 (max (Bytes.readU32 metadata.bytes 0) 8))
      (run : ReflTransGen (WalkStep metadata)
        ⟨[root.subdirOffset, align8 (max (Bytes.readU32 metadata.bytes 0) 8)],
          [root.subdirOffset]⟩ last) (next : cursor ∈ last.cursors.head?) :
      Comes metadata cursor

/-- The computation returns, with a value or an error. -/
def Returns {α : Type} (result : Parsed α) : Prop :=
  (∃ value, result = .ok value) ∨ ∃ message, result = .error (.refused message)

theorem returns_iff {α : Type} {result : Parsed α} :
    Returns result ↔ result ≠ .error .panicked := by
  match result with
  | .ok value => exact ⟨fun _ => nofun, fun _ => .inl ⟨value, rfl⟩⟩
  | .error (.refused message) => exact ⟨fun _ => nofun, fun _ => .inr ⟨message, rfl⟩⟩
  | .error .panicked =>
    constructor
    · rintro (⟨_, same⟩ | ⟨_, same⟩)
      · cases same
      · cases same
    · exact fun differs => absurd rfl differs

theorem stuck_of_nil (visited : List Nat) : WalkState.Stuck buf ⟨visited, []⟩ := nofun

/-- A walk returns when no entry that it comes to wraps. -/
theorem Ends.returns_iff (ends : Ends buf start [] result) :
    Returns result ↔ ∀ last, ReflTransGen (WalkStep buf) start last → ¬last.Wraps buf := by
  rw [Wim.returns_iff]
  match result, ends with
  | .ok walked, run =>
    refine ⟨fun _ last run' wraps => ?_, fun _ => nofun⟩
    have same := eq_of_stuck run run' (stuck_of_nil _) (stuck_of_wraps wraps)
    subst same
    obtain ⟨cursor, first, -⟩ := wraps
    cases first
  | .error stopped, ⟨last, run, stuck, panics⟩ =>
    constructor
    · intro returned last' run' wraps
      have same := eq_of_stuck run run' stuck (stuck_of_wraps wraps)
      subst same
      exact returned (congrArg Except.error (panics.mpr wraps))
    · intro sound same
      exact sound last run (panics.mp (Except.error.inj same))

section

variable {metadata : Slice} {under : Option Text} {nextIndex rootOffset : Nat}

theorem parseDentries_of_short (short : metadata.bytes.length < 8) :
    Returns (parseDentries metadata under nextIndex) := by
  unfold parseDentries
  rw [if_pos short]
  exact .inr ⟨_, rfl⟩

theorem parseDentries_of_secured (long : 8 ≤ metadata.bytes.length)
    (same : rootOffset = align8 (max (Bytes.readU32 metadata.bytes 0) 8)) :
    parseDentries metadata under nextIndex =
      if metadata.bytes.length ≤ rootOffset then
        throw (.refused (s!"security block ends at {rootOffset}, past the {
          metadata.bytes.length} byte metadata resource"))
      else
        readDentry metadata rootOffset >>= fun read =>
          match read with
          | none => pure ([], nextIndex)
          | some root =>
            if 0 < root.subdirOffset ∧ root.subdirOffset < metadata.bytes.length then do
              let walked ← walkDentryList metadata root.subdirOffset (under.getD [])
                { nextIndex := nextIndex, visited := [rootOffset] } 0
              pure (walked.entries, walked.nextIndex)
            else pure ([], nextIndex) := by
  have field : Bytes.readU32 ((metadata.bytes.drop 0).take (4 - 0)) 0 =
      Bytes.readU32 metadata.bytes 0 := readU32_take_drop (by decide)
  subst same
  unfold parseDentries
  rw [if_neg (Nat.not_lt.mpr long), slice_of_le (by decide) (by omega)]
  change (if metadata.bytes.length ≤
    align8 (max (Bytes.readU32 ((metadata.bytes.drop 0).take (4 - 0)) 0) 8) then _ else _) = _
  generalize Bytes.readU32 ((metadata.bytes.drop 0).take (4 - 0)) 0 = value at field ⊢
  subst field
  rfl

end

section

variable {metadata : Slice} {rootOffset : Nat} {root : Dentry}

/-- Without a list behind the root, nothing but the root is read. -/
theorem not_wraps_of_comes {cursor : Nat}
    (same : align8 (max (Bytes.readU32 metadata.bytes 0) 8) = rootOffset)
    (alone : ∀ root, readDentry metadata rootOffset = .ok (some root) →
      ¬(0 < root.subdirOffset ∧ root.subdirOffset < metadata.bytes.length) ∨
        root.subdirOffset = rootOffset)
    (sound : ¬Wim.Wraps metadata rootOffset) (comes : Comes metadata cursor) :
    ¬Wim.Wraps metadata cursor := by
  cases comes with
  | root => rwa [same]
  | walked _ _ read listed new =>
    rw [same] at read new
    rcases alone _ read with unlisted | seen
    · exact absurd listed unlisted
    · exact absurd seen new

/-- The list behind the root returns when nothing that it leads to wraps. -/
theorem walkDentryList_returns_iff {currentPath : Text} {nextIndex : Nat}
    (new : root.subdirOffset ≠ rootOffset) (inside : root.subdirOffset < metadata.bytes.length) :
    Returns (walkDentryList metadata root.subdirOffset currentPath
      { nextIndex := nextIndex, visited := [rootOffset] } 0) ↔
    ∀ last, ReflTransGen (WalkStep metadata)
      ⟨[root.subdirOffset, rootOffset], [root.subdirOffset]⟩ last → ¬last.Wraps metadata := by
  have entered : enterList root.subdirOffset 0 { nextIndex := nextIndex, visited := [rootOffset] } =
      .ok { nextIndex := nextIndex, visited := [root.subdirOffset, rootOffset] } := by
    unfold enterList
    rw [if_neg (by decide), if_neg (fun seen => new (List.mem_singleton.mp seen))]
  unfold walkDentryList
  rw [entered]
  exact Ends.returns_iff (walkFrom_ends root.subdirOffset currentPath
    { nextIndex := nextIndex, visited := [root.subdirOffset, rootOffset] } 0 [] rfl (by omega))

/-- A list at the root's own offset is a cycle. -/
theorem walkDentryList_of_seen {currentPath : Text} {nextIndex : Nat}
    (seen : root.subdirOffset = rootOffset) :
    ∃ message, walkDentryList metadata root.subdirOffset currentPath
      { nextIndex := nextIndex, visited := [rootOffset] } 0 = .error (.refused message) := by
  unfold walkDentryList enterList
  rw [if_neg (by decide), if_pos (List.mem_singleton.mpr seen)]
  exact ⟨_, rfl⟩

theorem returns_map {α β : Type} {result : Parsed α} (value : α → β) :
    Returns (result >>= fun found => pure (value found)) ↔ Returns result := by
  rw [Wim.returns_iff, Wim.returns_iff]
  match result with
  | .ok found => exact ⟨fun _ => nofun, fun _ => nofun⟩
  | .error stopped => exact ⟨fun differs same => differs (by rw [same]; rfl),
      fun differs same => differs (congrArg Except.error (Except.error.inj same))⟩

end

/-- **Parsing never panics, but for lengths that wrap.** Parsing a metadata resource returns a
tree or an error exactly when no entry that it comes to declares a length which reaches, with
the offset of the entry, the end of the address space. -/
theorem parse_dentries_returns_iff (metadata : Slice) (under : Option Text) (nextIndex : Nat) :
    Returns (parseDentries metadata under nextIndex) ↔
      ∀ cursor, Comes metadata cursor → ¬Wraps metadata cursor := by
  by_cases short : metadata.bytes.length < 8
  · refine ⟨fun _ cursor comes => ?_, fun _ => parseDentries_of_short short⟩
    cases comes with
    | root long => exact absurd short (Nat.not_lt.mpr long)
    | walked long => exact absurd short (Nat.not_lt.mpr long)
  have long := Nat.le_of_not_lt short
  rw [parseDentries_of_secured long rfl]
  generalize offset : align8 (max (Bytes.readU32 metadata.bytes 0) 8) = rootOffset
  by_cases past : metadata.bytes.length ≤ rootOffset
  · rw [if_pos past]
    refine ⟨fun _ cursor comes => ?_, fun _ => .inr ⟨_, rfl⟩⟩
    cases comes with
    | root _ inside => exact absurd (offset ▸ inside) (Nat.not_lt.mpr past)
    | walked _ inside => exact absurd (offset ▸ inside) (Nat.not_lt.mpr past)
  rw [if_neg past]
  have inside : align8 (max (Bytes.readU32 metadata.bytes 0) 8) < metadata.bytes.length :=
    offset ▸ Nat.lt_of_not_le past
  have addressable := metadata.addressable
  rcases @readDentry_cases metadata rootOffset (by omega) with
    read | ⟨-, -, read⟩ | ⟨sound, message, read⟩ | ⟨wraps, read⟩
  · -- no root
    have sound : ¬Wraps metadata rootOffset := fun wraps =>
      nomatch read.symm.trans (readDentry_of_wraps wraps)
    rw [read]
    exact ⟨fun _ cursor comes => not_wraps_of_comes offset
      (fun _ found => nomatch read.symm.trans found) sound comes, fun _ => .inl ⟨_, rfl⟩⟩
  · have sound := not_wraps_of_readDentry read
    rw [read]
    generalize dentryAt metadata rootOffset = root at read
    change Returns (if 0 < root.subdirOffset ∧ root.subdirOffset < metadata.bytes.length then _
      else _) ↔ _
    by_cases listed : 0 < root.subdirOffset ∧ root.subdirOffset < metadata.bytes.length
    · rw [if_pos listed, returns_map]
      by_cases seen : root.subdirOffset = rootOffset
      · have refused := @walkDentryList_of_seen metadata rootOffset root (under.getD [])
          nextIndex seen
        refine ⟨fun _ cursor comes => not_wraps_of_comes offset (fun found same => ?_) sound comes,
          fun _ => .inr refused⟩
        cases read.symm.trans same
        exact .inr seen
      · rw [walkDentryList_returns_iff seen listed.2]
        constructor
        · intro walk cursor comes
          cases comes with
          | root => rwa [offset]
          | walked _ _ read' _ _ run next =>
            rw [offset] at read' run
            cases read.symm.trans read'
            exact fun wraps => walk _ run ⟨cursor, next, wraps⟩
        · rintro all last run ⟨cursor, next, wraps⟩
          subst offset
          exact all cursor (.walked long inside read listed seen run next) wraps
    · rw [if_neg listed]
      refine ⟨fun _ cursor comes => not_wraps_of_comes offset (fun found same => ?_) sound comes,
        fun _ => .inl ⟨_, rfl⟩⟩
      cases read.symm.trans same
      exact .inl listed
  · rw [read]
    exact ⟨fun _ cursor comes => not_wraps_of_comes offset
      (fun _ found => nomatch read.symm.trans found) sound comes, fun _ => .inr ⟨_, rfl⟩⟩
  · rw [read]
    constructor
    · intro returned
      exact absurd rfl (Wim.returns_iff.mp returned)
    · intro all
      subst offset
      exact absurd wraps (all _ (.root long inside))

/-- A security block of eight bytes, and a root that declares all lengths there are. -/
def wrappingMetadata : Slice :=
  ⟨[8, 0, 0, 0, 0, 0, 0, 0, 255, 255, 255, 255, 255, 255, 255, 255], by decide⟩

/-- The root's end wraps around to the byte before the root. -/
theorem wrapping_length_panics : ¬∀ (metadata : Slice) (under : Option Text) (nextIndex : Nat),
    Returns (parseDentries metadata under nextIndex) := by
  intro all
  have panicked : parseDentries wrappingMetadata none 0 = .error .panicked := by
    rw [parseDentries_of_secured (by decide) rfl, if_neg (by decide +kernel),
      readDentry_of_wraps ⟨by decide +kernel, by decide +kernel⟩]
    rfl
  exact returns_iff.mp (all wrappingMetadata none 0) panicked

end Wim

end ZManager
