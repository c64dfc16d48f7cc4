import ZManager.Safety.ArchivePath

/-! # Normalizing an archive path twice

The names of an accepted path are plain, so a second normalization keeps them;
but the prefix is tested on the raw path, and a drive letter behind dropped
components comes to the front of the result
(`normalizeArchivePath_idempotent_iff`).
-/

namespace ZManager

/-- A letter and a colon at the start. -/
def hasDriveLetter : Text → Bool
  | first :: ':' :: _ => first.isAlpha
  | _ => false

/-- The first component that normalization keeps. -/
def firstName (rawPath : Text) : Option Text :=
  ((replaceBackslash rawPath).splitOn '/').find? fun part => part ≠ [] && part ≠ ['.']

/-- What an accepted path has to be free of. -/
structure NoHazard (path : Text) : Prop where
  noPrefix : hasWindowsPrefix path = false
  relative : path.head? ≠ some '/'
  components : ∀ part ∈ path.splitOn '/', utf8Length part ≤ 255 ∧ isWindowsReserved part = false

section

variable {rawPath path : Text} {names : List Text}

theorem normalizeParts_eq_filter {input parts : List Text}
    (accepted : normalizeParts rawPath input = .ok parts) :
    parts = input.filter fun part => part ≠ [] && part ≠ ['.'] := by
  induction input generalizing parts with
  | nil =>
    cases accepted
    rfl
  | cons head rest ih =>
    unfold normalizeParts at accepted
    split_ifs at accepted with long reserved dropped dotdot
    · rw [List.filter_cons_of_neg, ih accepted]
      rcases dropped with rfl | rfl <;> simp
    · cases tail : normalizeParts rawPath rest with
      | error failure =>
        rw [tail] at accepted
        cases accepted
      | ok kept =>
        rw [tail] at accepted
        cases accepted
        obtain ⟨named, undotted⟩ := not_or.mp dropped
        rw [List.filter_cons_of_pos (by simp [named, undotted]), ← ih tail]

/-- The names of an accepted path begin with the first component that is kept. -/
theorem head?_names (accepted : normalizeArchivePath rawPath = .ok path)
    (member : IsMemberPath path names) : names.head? = firstName rawPath := by
  obtain ⟨_, -, rest⟩ := Except.bind_eq_ok_iff.mp accepted
  obtain ⟨parts, loop, finished⟩ := Except.bind_eq_ok_iff.mp rest
  split_ifs at finished with empty
  cases finished
  have kept := normalizeParts_ok (Text.separator_not_mem_of_mem_splitOn '/' _) loop
  have same : IsMemberPath (['/'].intercalate parts) parts :=
    ⟨empty, fun name inside => (kept name inside).2, rfl⟩
  rw [← member.splitOn_eq, same.splitOn_eq, normalizeParts_eq_filter loop, List.head?_filter]
  rfl

theorem hasWindowsPrefix_of_names {head : Text} {rest : List Text}
    (member : IsMemberPath path (head :: rest)) :
    hasWindowsPrefix path = hasDriveLetter head := by
  have valid := member.valid head List.mem_cons_self
  have text := member.text
  obtain ⟨first, tail, rfl⟩ := List.exists_cons_of_ne_nil valid.ne_nil
  have plain : first ≠ '/' := fun same => valid.no_slash (by simp [same])
  have front : ∃ others, path = first :: tail ++ others ∧ (others = [] ∨ others.head? =
      some '/') := by
    cases rest with
    | nil => exact ⟨[], by simpa using text, .inl rfl⟩
    | cons second others => exact ⟨_, by simpa using text, .inr rfl⟩
  obtain ⟨others, rfl, next⟩ := front
  cases tail with
  | nil =>
    rcases next with rfl | slash
    · simp [hasWindowsPrefix, hasDriveLetter]
    · obtain ⟨later, rfl⟩ : ∃ later, others = '/' :: later := by
        cases others with
        | nil => cases slash
        | cons char later => exact ⟨later, by rw [Option.some.inj slash]⟩
      simp [hasWindowsPrefix, hasDriveLetter, plain]
  | cons second later =>
    by_cases colon : second = ':'
    · simp [hasWindowsPrefix, hasDriveLetter, colon]
    · simp [hasWindowsPrefix, hasDriveLetter, colon, plain]

/-- **Normalization is idempotent**, and its results are free of hazards, exactly where the
first component that is kept does not look like a drive. -/
theorem normalizeArchivePath_idempotent_iff {rawPath path : Text}
    (accepted : normalizeArchivePath rawPath = .ok path) :
    normalizeArchivePath path = .ok path ∧ NoHazard path ↔
      (firstName rawPath).all (fun name => !hasDriveLetter name) = true := by
  obtain ⟨names, member, plain⟩ := normalizeArchivePath_plain accepted
  have first := head?_names accepted member
  obtain ⟨head, rest, rfl⟩ := List.exists_cons_of_ne_nil member.ne_nil
  have drive := hasWindowsPrefix_of_names member
  rw [← first, List.head?_cons, Option.all_some, Bool.not_eq_true', ← drive]
  have again := normalizeArchivePath_of_plain member plain
  constructor
  · rintro ⟨-, safe⟩
    exact safe.noPrefix
  · intro free
    rw [free] at again
    refine ⟨again, free, ?_, ?_⟩
    · have relative := member.not_absolute
      unfold PathBuf.isAbsoluteText at relative
      simpa using relative
    · rw [member.splitOn_eq]
      exact fun part inside => ⟨(plain part inside).short, (plain part inside).unreserved⟩

/-- A dropped dot component in front of a plain name. -/
theorem dotted_path_idempotent :
    normalizeArchivePath "a/b".toList = .ok "a/b".toList ∧ NoHazard "a/b".toList :=
  (@normalizeArchivePath_idempotent_iff "./a/./b".toList "a/b".toList (by decide +kernel)).mpr
    (by decide +kernel)

/-- A drive behind a dropped dot component is accepted once, and refused the second time. -/
theorem drive_behind_dot :
    normalizeArchivePath "./C:/x".toList = .ok "C:/x".toList ∧
      normalizeArchivePath "C:/x".toList = .error (.windowsPrefix "C:/x".toList) ∧
      ¬ NoHazard "C:/x".toList := by
  refine ⟨by decide +kernel, by decide +kernel, fun safe => ?_⟩
  exact Bool.noConfusion safe.noPrefix

end

end ZManager
