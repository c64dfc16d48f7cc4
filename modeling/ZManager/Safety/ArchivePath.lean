import ZManager.Safety.Policy

/-! # Archive path normalization

Raw archive paths are arbitrary texts. `normalizeArchivePath` rejects the
hazardous ones and returns a slash-separated relative path; the components of
an accepted path are entry names (`normalizeArchivePath_ok`). Stripping leading
components and lexical normalization of joined paths complete the textual part
of extraction planning.
-/

namespace ZManager

variable {rawPath : Text} {input parts : List Text}

/-- `str::replace('\\', "/")`. -/
def replaceBackslash (text : Text) : Text :=
  text.map fun c => if c = '\\' then '/' else c

/-- A leading drive letter or a leading double separator. The drive check is
deliberately conservative. -/
def hasWindowsPrefix : Text → Bool
  | first :: ':' :: _ => first.isAlpha
  | '/' :: '/' :: _ => true
  | _ => false

/-- Refuses NUL bytes and paths that are not relative. -/
def rejectRawPathHazards (rawPath : Text) : Except ExtractionSafetyError Unit :=
  if '\x00' ∈ rawPath then .error (.nulByte rawPath)
  else if hasWindowsPrefix (replaceBackslash rawPath) then .error (.windowsPrefix rawPath)
  else if (replaceBackslash rawPath).head? = some '/' then .error (.absolutePath rawPath)
  else .ok ()

/-- The Windows device names no component may have as its stem. -/
def windowsReservedStems : List Text :=
  ["CON", "PRN", "AUX", "NUL", "COM1", "COM2", "COM3", "COM4", "COM5", "COM6", "COM7", "COM8",
    "COM9", "LPT1", "LPT2", "LPT3", "LPT4", "LPT5", "LPT6", "LPT7", "LPT8", "LPT9"].map
    String.toList

/-- The length of a text in UTF-8 bytes, as `str::len`. -/
def utf8Length (text : Text) : Nat :=
  (text.map Char.utf8Size).sum

/-- Whether a component's text before its first dot is a device name. -/
def isWindowsReserved (part : Text) : Bool :=
  match ((part.map Char.toUpper).splitOn '.').head? with
  | some stem => stem ∈ windowsReservedStems
  | none => false

/-- The loop of `normalize_archive_path` over the slash-separated parts. -/
def normalizeParts (rawPath : Text) : List Text → Except ExtractionSafetyError (List Text)
  | [] => .ok []
  | part :: rest =>
    if 255 < utf8Length part then .error (.pathTooLong rawPath)
    else if isWindowsReserved part then .error (.windowsReservedName rawPath part)
    else if part = [] ∨ part = ['.'] then normalizeParts rawPath rest
    else if part = ['.', '.'] then .error (.parentTraversal rawPath)
    else (normalizeParts rawPath rest).map (part :: ·)

/-- Normalizes a raw archive path into a slash-separated relative path. -/
def normalizeArchivePath (rawPath : Text) : Except ExtractionSafetyError Text := do
  rejectRawPathHazards rawPath
  let parts ← normalizeParts rawPath ((replaceBackslash rawPath).splitOn '/')
  if parts = [] then .error .emptyPath else .ok (['/'].intercalate parts)

/-- Drops leading components; `none` when none are left. -/
def stripArchiveComponents (path : Text) (count : Nat) : Option Text :=
  let components := (path.splitOn '/').drop count
  if components = [] then none else some (['/'].intercalate components)

/-- Resolves `.` and `..` components textually. -/
def lexicallyNormalize (path : PathBuf) : PathBuf :=
  path.foldl (fun normalized component =>
    match component with
    | .curDir => normalized
    | .parentDir => PathBuf.pop normalized
    | .normal name => PathBuf.push normalized (.normal name)
    | .rootDir => PathBuf.push normalized .rootDir) []

/-! ## Components of accepted paths -/

/-- A relative path given by its nonempty list of entry names. -/
structure IsMemberPath (path : Text) (names : List Text) : Prop where
  ne_nil : names ≠ []
  valid : ∀ name ∈ names, IsEntryName name
  text : path = ['/'].intercalate names

/-- The parts kept by the loop are parts of the input and entry names. -/
theorem normalizeParts_ok (noSlash : ∀ part ∈ input, '/' ∉ part)
    (accepted : normalizeParts rawPath input = .ok parts) :
    ∀ part ∈ parts, part ∈ input ∧ IsEntryName part := by
  induction input generalizing parts with
  | nil =>
    cases accepted
    simp
  | cons head rest ih =>
    have restSlash : ∀ part ∈ rest, '/' ∉ part :=
      fun part member => noSlash part (List.mem_cons_of_mem _ member)
    unfold normalizeParts at accepted
    split_ifs at accepted with _ _ dropped dotdot
    · intro part member
      obtain ⟨inside, name⟩ := ih restSlash accepted part member
      exact ⟨List.mem_cons_of_mem _ inside, name⟩
    · cases tail : normalizeParts rawPath rest with
      | error failure =>
        rw [tail] at accepted
        cases accepted
      | ok kept =>
        rw [tail] at accepted
        cases accepted
        intro part member
        rcases List.mem_cons.mp member with rfl | member
        · exact ⟨List.mem_cons_self .., fun empty => dropped (.inl empty),
            fun dot => dropped (.inr dot), dotdot, noSlash _ (List.mem_cons_self ..)⟩
        · obtain ⟨inside, name⟩ := ih restSlash tail part member
          exact ⟨List.mem_cons_of_mem _ inside, name⟩

/-- An accepted archive path is a nonempty list of entry names. -/
theorem normalizeArchivePath_ok {path : Text} (accepted : normalizeArchivePath rawPath = .ok path) :
    ∃ names, IsMemberPath path names := by
  unfold normalizeArchivePath at accepted
  cases hazards : rejectRawPathHazards rawPath with
  | error failure =>
    rw [hazards] at accepted
    cases accepted
  | ok _ =>
    cases loop : normalizeParts rawPath ((replaceBackslash rawPath).splitOn '/') with
    | error failure =>
      rw [hazards, loop] at accepted
      cases accepted
    | ok parts =>
      rw [hazards, loop] at accepted
      change (if parts = [] then _ else _) = _ at accepted
      split_ifs at accepted with empty
      cases accepted
      exact ⟨parts, empty, fun name member => (normalizeParts_ok
        (Text.separator_not_mem_of_mem_splitOn '/' _) loop name member).2, rfl⟩

namespace IsMemberPath

variable {path : Text} {names : List Text}

theorem splitOn_eq (member : IsMemberPath path names) : path.splitOn '/' = names := by
  rw [member.text]
  exact List.splitOn_intercalate '/' (fun name inside => (member.valid name inside).no_slash)
    member.ne_nil

/-- Stripping drops leading names and keeps the form. -/
theorem strip (member : IsMemberPath path names) {count : Nat} {stripped : Text}
    (kept : stripArchiveComponents path count = some stripped) :
    IsMemberPath stripped (names.drop count) := by
  unfold stripArchiveComponents at kept
  rw [member.splitOn_eq] at kept
  dsimp only at kept
  split_ifs at kept with empty
  cases kept
  exact ⟨empty, fun name inside => member.valid name (List.mem_of_mem_drop inside), rfl⟩

end IsMemberPath

theorem segmentComponent_of_isEntryName {name : Text} (valid : IsEntryName name) :
    PathBuf.segmentComponent name = some (.normal name) := by
  unfold PathBuf.segmentComponent
  rw [if_neg (not_or.mpr ⟨valid.ne_nil, valid.ne_dot⟩), if_neg valid.ne_dotdot]

theorem filterMap_segmentComponent {names : List Text} (valid : ∀ name ∈ names, IsEntryName name) :
    names.filterMap PathBuf.segmentComponent = PathBuf.ofNames names := by
  induction names with
  | nil => rfl
  | cons head rest ih =>
    rw [List.filterMap_cons_some (segmentComponent_of_isEntryName (valid head (by simp))),
      ih fun name member => valid name (List.mem_cons_of_mem _ member)]
    rfl

/-- The first character of a member path belongs to its first name. -/
theorem IsMemberPath.not_absolute {path : Text} {names : List Text}
    (member : IsMemberPath path names) : PathBuf.isAbsoluteText path = false := by
  obtain ⟨head, rest, rfl⟩ := List.exists_cons_of_ne_nil member.ne_nil
  have valid := member.valid head (by simp)
  obtain ⟨first, tail, rfl⟩ := List.exists_cons_of_ne_nil valid.ne_nil
  have different : first ≠ '/' := fun same => valid.no_slash (by simp [same])
  rw [member.text]
  cases rest with
  | nil => simpa [PathBuf.isAbsoluteText] using different
  | cons second others => simpa [PathBuf.isAbsoluteText] using different

/-- A member path does not start with a dot directory. -/
theorem IsMemberPath.head_ne_dot {path : Text} {names : List Text}
    (member : IsMemberPath path names) : (path.splitOn '/').head? ≠ some ['.'] := by
  rw [member.splitOn_eq]
  intro dot
  exact (member.valid _ (List.mem_of_mem_head? dot)).ne_dot rfl

theorem IsEntryName.isMemberPath {name : Text} (valid : IsEntryName name) :
    IsMemberPath name [name] :=
  ⟨List.cons_ne_nil name [], fun _ member => List.mem_singleton.mp member ▸ valid, by simp⟩

/-- Joining a member path appends its names. -/
theorem IsMemberPath.join {path : Text} {names : List Text} (member : IsMemberPath path names)
    (base : PathBuf) : base.join path = base ++ PathBuf.ofNames names := by
  have relative : PathBuf.relativeComponents path = PathBuf.ofNames names := by
    unfold PathBuf.relativeComponents
    rw [member.splitOn_eq, filterMap_segmentComponent member.valid]
  unfold PathBuf.join PathBuf.ofText
  rw [member.not_absolute, if_neg member.head_ne_dot, relative]
  by_cases empty : base = []
  · simp [empty]
  · simp [empty]

/-! ## Normalizing again -/

/-- A name that normalization keeps: an entry name that is short enough, no
device name, and free of NUL bytes and backslashes. -/
structure IsPlainName (name : Text) : Prop extends IsEntryName name where
  short : utf8Length name ≤ 255
  unreserved : isWindowsReserved name = false
  no_nul : '\x00' ∉ name
  no_backslash : '\\' ∉ name

theorem normalizeParts_kept (accepted : normalizeParts rawPath input = .ok parts) :
    ∀ part ∈ parts, utf8Length part ≤ 255 ∧ isWindowsReserved part = false := by
  induction input generalizing parts with
  | nil =>
    cases accepted
    simp
  | cons head rest ih =>
    unfold normalizeParts at accepted
    split_ifs at accepted with long reserved dropped dotdot
    · exact ih accepted
    · cases tail : normalizeParts rawPath rest with
      | error failure =>
        rw [tail] at accepted
        cases accepted
      | ok kept =>
        rw [tail] at accepted
        cases accepted
        intro part member
        rcases List.mem_cons.mp member with rfl | member
        · exact ⟨Nat.le_of_not_lt long, by simpa using reserved⟩
        · exact ih tail part member

theorem no_backslash_replaceBackslash (text : Text) : '\\' ∉ replaceBackslash text := by
  unfold replaceBackslash
  intro member
  obtain ⟨c, -, replaced⟩ := List.mem_map.mp member
  split_ifs at replaced with same
  · cases replaced
  · exact same replaced

theorem replaceBackslash_of_plain {text : Text} (plain : '\\' ∉ text) :
    replaceBackslash text = text := by
  unfold replaceBackslash
  refine (List.map_congr_left fun c member => ?_).trans (List.map_id text)
  have different : c ≠ '\\' := fun same => plain (same ▸ member)
  exact if_neg different

theorem no_nul_replaceBackslash {text : Text} (plain : '\x00' ∉ text) :
    '\x00' ∉ replaceBackslash text := by
  unfold replaceBackslash
  intro member
  obtain ⟨c, inside, replaced⟩ := List.mem_map.mp member
  split_ifs at replaced with same
  · cases replaced
  · exact plain (replaced ▸ inside)

/-- The names of an accepted path are plain. -/
theorem normalizeArchivePath_plain {path : Text}
    (accepted : normalizeArchivePath rawPath = .ok path) :
    ∃ names, IsMemberPath path names ∧ ∀ name ∈ names, IsPlainName name := by
  obtain ⟨_, hazards, rest⟩ := Except.bind_eq_ok_iff.mp accepted
  obtain ⟨parts, loop, finished⟩ := Except.bind_eq_ok_iff.mp rest
  split_ifs at finished with empty
  cases finished
  have noNul : '\x00' ∉ rawPath := by
    intro nul
    rw [rejectRawPathHazards, if_pos nul] at hazards
    cases hazards
  have kept := normalizeParts_ok (Text.separator_not_mem_of_mem_splitOn '/' _) loop
  refine ⟨parts, ⟨empty, fun name member => (kept name member).2, rfl⟩, fun name member => ?_⟩
  obtain ⟨inside, valid⟩ := kept name member
  obtain ⟨short, unreserved⟩ := normalizeParts_kept loop name member
  exact ⟨valid, short, unreserved,
    fun nul => no_nul_replaceBackslash noNul (Text.mem_of_mem_splitOn '/' _ name inside _ nul),
    fun backslash => no_backslash_replaceBackslash rawPath
      (Text.mem_of_mem_splitOn '/' _ name inside _ backslash)⟩

theorem normalizeParts_of_plain {names : List Text} (plain : ∀ name ∈ names, IsPlainName name) :
    normalizeParts rawPath names = .ok names := by
  induction names with
  | nil => rfl
  | cons head rest ih =>
    have valid := plain head (by simp)
    unfold normalizeParts
    rw [if_neg (Nat.not_lt.mpr valid.short), if_neg (by simp [valid.unreserved]),
      if_neg (not_or.mpr ⟨valid.ne_nil, valid.ne_dot⟩), if_neg valid.ne_dotdot,
      ih fun name member => plain name (List.mem_cons_of_mem _ member)]
    rfl

/-- A joined list of plain names is accepted as it stands, unless it looks like
a drive. -/
theorem normalizeArchivePath_of_plain {path : Text} {names : List Text}
    (member : IsMemberPath path names) (plain : ∀ name ∈ names, IsPlainName name) :
    normalizeArchivePath path =
      if hasWindowsPrefix path then .error (.windowsPrefix path) else .ok path := by
  have noNul : '\x00' ∉ path := by
    intro nul
    rw [member.text] at nul
    rcases Text.mem_intercalate nul with slash | ⟨name, inside, nul⟩
    · cases slash
    · exact (plain name inside).no_nul nul
  have noBackslash : '\\' ∉ path := by
    intro backslash
    rw [member.text] at backslash
    rcases Text.mem_intercalate backslash with slash | ⟨name, inside, backslash⟩
    · cases slash
    · exact (plain name inside).no_backslash backslash
  have relative : path.head? ≠ some '/' := by
    have := member.not_absolute
    unfold PathBuf.isAbsoluteText at this
    simpa using this
  unfold normalizeArchivePath rejectRawPathHazards
  rw [if_neg noNul, replaceBackslash_of_plain noBackslash, member.splitOn_eq,
    normalizeParts_of_plain plain]
  by_cases drive : hasWindowsPrefix path = true
  · rw [if_pos drive, if_pos drive]
    rfl
  · rw [if_neg drive, if_neg drive, if_neg relative]
    change (if names = [] then _ else _) = _
    rw [if_neg member.ne_nil, ← member.text]

theorem normalizeParts_eq (named : ∀ part ∈ input, part ≠ [] ∧ part ≠ ['.'])
    (accepted : normalizeParts rawPath input = .ok parts) :
    parts = input ∧ ['.', '.'] ∉ input := by
  induction input generalizing parts with
  | nil =>
    cases accepted
    exact ⟨rfl, List.not_mem_nil⟩
  | cons head rest ih =>
    unfold normalizeParts at accepted
    split_ifs at accepted with _ _ dropped dotdot
    · exact absurd dropped (not_or.mpr (named head (by simp)))
    · cases tail : normalizeParts rawPath rest with
      | error failure =>
        rw [tail] at accepted
        cases accepted
      | ok kept =>
        rw [tail] at accepted
        cases accepted
        obtain ⟨rfl, absent⟩ :=
            ih (fun part member => named part (List.mem_cons_of_mem _ member))
          tail
        refine ⟨rfl, fun member => ?_⟩
        rcases List.mem_cons.mp member with same | member
        · exact dotdot same.symm
        · exact absent member

/-- A joined list of names that is accepted is left as it is and does not climb. -/
theorem normalizeArchivePath_joined {pieces : List Text} {path : Text}
    (named : ∀ piece ∈ pieces, piece ≠ [] ∧ piece ≠ ['.'] ∧ '/' ∉ piece ∧ '\\' ∉ piece)
    (accepted : normalizeArchivePath (['/'].intercalate pieces) = .ok path) :
    pieces ≠ [] ∧ path = ['/'].intercalate pieces ∧ ['.', '.'] ∉ pieces := by
  by_cases empty : pieces = []
  · subst empty
    cases accepted
  have noBackslash : '\\' ∉ ['/'].intercalate pieces := by
    intro backslash
    rcases Text.mem_intercalate backslash with slash | ⟨piece, inside, backslash⟩
    · cases slash
    · exact (named piece inside).2.2.2 backslash
  obtain ⟨_, -, rest⟩ := Except.bind_eq_ok_iff.mp accepted
  rw [replaceBackslash_of_plain noBackslash, List.splitOn_intercalate '/'
    (fun piece inside => (named piece inside).2.2.1) empty] at rest
  obtain ⟨parts, loop, finished⟩ := Except.bind_eq_ok_iff.mp rest
  obtain ⟨rfl, level⟩ := normalizeParts_eq
    (fun piece inside => ⟨(named piece inside).1, (named piece inside).2.1⟩) loop
  rw [if_neg empty] at finished
  cases finished
  exact ⟨empty, rfl, level⟩

/-! ## Lexical normalization -/

/-- An absolute path without `.` and `..` components. -/
def IsCanonical (path : PathBuf) : Prop :=
  ∃ names, (∀ name ∈ names, IsEntryName name) ∧ path = .rootDir :: PathBuf.ofNames names

theorem IsCanonical.ne_nil {path : PathBuf} (canonical : IsCanonical path) : path ≠ [] := by
  obtain ⟨names, _, rfl⟩ := canonical
  exact List.cons_ne_nil _ _

theorem lexicallyNormalize_append_ofNames (path : PathBuf) (names : List Text) :
    lexicallyNormalize (path ++ PathBuf.ofNames names) =
      lexicallyNormalize path ++ PathBuf.ofNames names := by
  induction names generalizing path with
  | nil => simp [PathBuf.ofNames]
  | cons head rest ih =>
    have step : lexicallyNormalize (path ++ [Component.normal head]) =
        lexicallyNormalize path ++ [Component.normal head] := by
      simp [lexicallyNormalize, PathBuf.push]
    have regroup : path ++ PathBuf.ofNames (head :: rest) =
        (path ++ [Component.normal head]) ++ PathBuf.ofNames rest := by
      simp [PathBuf.ofNames]
    rw [regroup, ih, step]
    simp [PathBuf.ofNames]

/-- A canonical path is its own lexical normal form. -/
theorem IsCanonical.lexicallyNormalize {path : PathBuf} (canonical : IsCanonical path) :
    lexicallyNormalize path = path := by
  obtain ⟨names, _, rfl⟩ := canonical
  exact lexicallyNormalize_append_ofNames [.rootDir] names

/-- The planned destination of a member path below a canonical root. -/
theorem IsMemberPath.lexicallyNormalize_join {path : Text} {names : List Text}
    (member : IsMemberPath path names) {root : PathBuf} (canonical : IsCanonical root) :
    lexicallyNormalize (root.join path) = root ++ PathBuf.ofNames names := by
  rw [member.join, lexicallyNormalize_append_ofNames,
    canonical.lexicallyNormalize]

end ZManager
