import ZManager.Safety.Containment

/-! # Collision keys

The collision key folds a text character by character, so it splits where the
text splits. A numbered sibling's key determines the key of the name it was
made from (`caseCollisionKey_renamedFileName_inj`), and below a canonical root
the key of a path determines the key of the member name
(`pathKey_ofNames_inj`).
-/

namespace ZManager

variable {fold : CaseFolding}

variable {index index' : Nat}

/-- The ASCII shortcut of the key agrees with the general case. -/
theorem caseCollisionKey_eq (path : Text) : caseCollisionKey fold path =
    path.flatMap fold.lower := by
  unfold caseCollisionKey
  split_ifs with ascii
  · induction path with
    | nil => rfl
    | cons head rest ih =>
      simp only [List.all_cons, Bool.and_eq_true, decide_eq_true_eq] at ascii
      rw [List.map_cons, List.flatMap_cons, fold.lower_ascii head ascii.1, ih ascii.2]
      rfl
  · rfl

theorem caseCollisionKey_append (left right : Text) :
    caseCollisionKey fold (left ++ right) =
      caseCollisionKey fold left ++ caseCollisionKey fold right := by
  simp only [caseCollisionKey_eq, List.flatMap_append]

theorem caseCollisionKey_cons (head : Char) (rest : Text) :
    caseCollisionKey fold (head :: rest) = fold.lower head ++ caseCollisionKey fold rest := by
  simp only [caseCollisionKey_eq, List.flatMap_cons]

/-- The characters that folding neither changes nor produces. -/
def IsPlain (c : Char) : Prop :=
  c.toNat < 128 ∧ c.isAlpha = false ∧ c.toLower = c

theorem isPlain_slash : IsPlain '/' := ⟨by decide, by decide, by decide⟩

theorem isPlain_dot : IsPlain '.' := ⟨by decide, by decide, by decide⟩

theorem isPlain_space : IsPlain ' ' := ⟨by decide, by decide, by decide⟩

theorem IsPlain.caseCollisionKey_cons {c : Char} (plain : IsPlain c) (rest : Text) :
    caseCollisionKey fold (c :: rest) = c :: caseCollisionKey fold rest := by
  rw [ZManager.caseCollisionKey_cons, fold.lower_ascii c plain.1, plain.2.2]
  rfl

theorem IsPlain.mem_of_mem_key {c : Char} (plain : IsPlain c) {text : Text}
    (member : c ∈ caseCollisionKey fold text) : c ∈ text := by
  rw [caseCollisionKey_eq] at member
  obtain ⟨original, inside, folded⟩ := List.mem_flatMap.mp member
  rw [← fold.eq_of_mem_lower original c folded plain.1 plain.2.1]
  exact inside

theorem IsPlain.not_mem_decimal {c : Char} (plain : IsPlain c) (noDigit : c.isDigit = false)
    (number : Nat) : c ∉ caseCollisionKey fold (Nat.toDigits 10 number) := by
  intro member
  have digit := Text.isDigit_of_mem_decimal (plain.mem_of_mem_key member)
  rw [noDigit] at digit
  cases digit

/-! ## Numbered siblings -/

/-- A text behind the last blank is a number, before it the key of a stem. -/
theorem key_stem_inj {stem stem' : Text}
    (same : caseCollisionKey fold (stem ++ ' ' :: Nat.toDigits 10 index) =
      caseCollisionKey fold (stem' ++ ' ' :: Nat.toDigits 10 index')) :
    caseCollisionKey fold stem = caseCollisionKey fold stem' := by
  simp only [caseCollisionKey_append, isPlain_space.caseCollisionKey_cons] at same
  exact (Text.append_cons_inj_of_last same
    (isPlain_space.not_mem_decimal (by decide) index)
    (isPlain_space.not_mem_decimal (by decide) index')).1

/-- A name without extension holds no dot behind its first character. -/
theorem dot_not_mem_tail {first : Char} {rest : Text}
    (valid : IsEntryName (first :: rest))
    (split : PathBuf.stemAndExtension (first :: rest) = (first :: rest, none)) : '.' ∉ rest := by
  intro member
  unfold PathBuf.stemAndExtension at split
  rw [if_neg valid.ne_dotdot] at split
  have found : Text.rsplitOnce '.' rest ≠ none := fun absent =>
    Text.rsplitOnce_eq_none_iff.mp absent member
  obtain ⟨⟨before, suffix⟩, inner⟩ := Option.ne_none_iff_exists'.mp found
  simp [Text.rsplitOnce, inner] at split

/-- A renamed name without extension differs from every renamed name with one. -/
theorem key_renamed_ne_of_extension {stem suffix name : Text} (valid : IsEntryName name)
    (split : PathBuf.stemAndExtension name = (name, none)) :
    caseCollisionKey fold (stem ++ ' ' :: Nat.toDigits 10 index ++ '.' :: suffix) ≠
      caseCollisionKey fold (name ++ ' ' :: Nat.toDigits 10 index') := by
  obtain ⟨first, rest, rfl⟩ := List.exists_cons_of_ne_nil valid.ne_nil
  intro same
  -- The only dot of the right side can be its first character, and the dot of
  -- the left side has a stem or a blank before it.
  have noDot : '.' ∉ caseCollisionKey fold (rest ++ ' ' :: Nat.toDigits 10 index') := by
    intro member
    rw [caseCollisionKey_append, isPlain_space.caseCollisionKey_cons] at member
    rcases List.mem_append.mp member with member | member
    · exact dot_not_mem_tail valid split (isPlain_dot.mem_of_mem_key member)
    · rcases List.mem_cons.mp member with member | member
      · revert member
        decide
      · exact isPlain_dot.not_mem_decimal (by decide) index' member
  rw [List.cons_append, caseCollisionKey_cons, caseCollisionKey_append,
    isPlain_dot.caseCollisionKey_cons] at same
  obtain ⟨before, split', rest'⟩ | ⟨before, -, tail⟩ := List.append_eq_append_iff.mp same
  · -- The dot lies inside the folded first character, which then is the dot.
    cases before with
    | nil =>
      simp only [List.nil_append] at rest'
      exact noDot (rest' ▸ List.mem_cons_self ..)
    | cons head tail =>
      have headDot : head = '.' := (List.cons.inj rest').1.symm
      subst headDot
      have folded : '.' ∈ fold.lower first := by
        rw [split']
        simp
      have firstDot := fold.eq_of_mem_lower first '.' folded (by decide) (by decide)
      rw [firstDot, fold.lower_ascii '.' (by decide), caseCollisionKey_append,
        isPlain_space.caseCollisionKey_cons] at split'
      have lengths := congrArg List.length split'
      simp only [List.length_append, List.length_cons, List.length_nil] at lengths
      omega
  · have member : '.' ∈ caseCollisionKey fold (rest ++ ' ' :: Nat.toDigits 10 index') := by
      rw [tail]
      simp
    exact noDot member

/-- The key of a numbered sibling determines the key of the name. -/
theorem caseCollisionKey_renamedFileName_inj {name name' : Text} (valid : IsEntryName name)
    (valid' : IsEntryName name')
    (same : caseCollisionKey fold (Planner.renamedFileName name index) =
      caseCollisionKey fold (Planner.renamedFileName name' index')) :
    caseCollisionKey fold name = caseCollisionKey fold name' := by
  unfold Planner.renamedFileName at same
  rcases split : PathBuf.stemAndExtension name with ⟨stem, extension⟩
  rcases split' : PathBuf.stemAndExtension name' with ⟨stem', extension'⟩
  rw [split, split'] at same
  rcases Planner.stemAndExtension_spec split with ⟨rfl, rfl⟩ | ⟨suffix, rfl, recomposed, last⟩
  · rcases Planner.stemAndExtension_spec split' with ⟨rfl, rfl⟩ | ⟨suffix', rfl, recomposed', last'⟩
    · exact key_stem_inj same
    · exact absurd same.symm (key_renamed_ne_of_extension valid split)
  · rcases Planner.stemAndExtension_spec split' with ⟨rfl, rfl⟩ | ⟨suffix', rfl, recomposed', last'⟩
    · exact absurd same (key_renamed_ne_of_extension valid' split')
    · dsimp only at same
      rw [caseCollisionKey_append, caseCollisionKey_append (_ ++ _),
        isPlain_dot.caseCollisionKey_cons, isPlain_dot.caseCollisionKey_cons] at same
      obtain ⟨stems, suffixes⟩ := Text.append_cons_inj_of_last same
        (fun member => last (isPlain_dot.mem_of_mem_key member))
        (fun member => last' (isPlain_dot.mem_of_mem_key member))
      rw [recomposed, recomposed', caseCollisionKey_append, caseCollisionKey_append,
        isPlain_dot.caseCollisionKey_cons, isPlain_dot.caseCollisionKey_cons,
        key_stem_inj stems, suffixes]

/-! ## Paths below a canonical root -/

/-- The key of a path below a canonical root starts with a part that depends on
the root only. -/
theorem pathKey_ofNames {root : PathBuf} (canonical : IsCanonical root) :
    ∃ front, ∀ names, names ≠ [] → Planner.pathKey fold (root ++ PathBuf.ofNames names) =
      front ++ caseCollisionKey fold (['/'].intercalate names) := by
  obtain ⟨rootNames, valid, rfl⟩ := canonical
  have texts : ∀ names, (PathBuf.ofNames names).map PathBuf.componentText = names := by
    intro names
    simp [PathBuf.ofNames, Function.comp_def, PathBuf.componentText]
  have whole : ∀ names, Planner.pathKey fold
      ((.rootDir :: PathBuf.ofNames rootNames) ++ PathBuf.ofNames names) =
        caseCollisionKey fold ('/' :: ['/'].intercalate (rootNames ++ names)) := by
    intro names
    unfold Planner.pathKey
    rw [List.cons_append, PathBuf.toText, List.map_append, texts, texts]
  cases rootNames with
  | nil =>
    refine ⟨['/'], fun names _ => ?_⟩
    rw [whole, List.nil_append, isPlain_slash.caseCollisionKey_cons]
    rfl
  | cons head rest =>
    refine ⟨caseCollisionKey fold ('/' :: ['/'].intercalate (head :: rest) ++ ['/']),
      fun names nonempty => ?_⟩
    rw [whole, Text.intercalate_append '/' (List.cons_ne_nil head rest) nonempty,
      ← caseCollisionKey_append]
    simp

/-- Equal keys below a canonical root come from members with equal keys. -/
theorem pathKey_ofNames_inj {root : PathBuf} (canonical : IsCanonical root)
    {names names' : List Text} (nonempty : names ≠ []) (nonempty' : names' ≠ [])
    (same : Planner.pathKey fold (root ++ PathBuf.ofNames names) =
      Planner.pathKey fold (root ++ PathBuf.ofNames names')) :
    caseCollisionKey fold (['/'].intercalate names) =
      caseCollisionKey fold (['/'].intercalate names') := by
  obtain ⟨front, split⟩ := pathKey_ofNames canonical
  rw [split names nonempty, split names' nonempty'] at same
  exact List.append_cancel_left same

/-- A separator before a joined path sets off its last name. -/
theorem slash_intercalate_concat (front : List Text) :
    ∃ directory, ∀ last, '/' :: ['/'].intercalate (front ++ [last]) = directory ++ '/' :: last := by
  cases front with
  | nil => exact ⟨[], fun last => by simp⟩
  | cons head rest =>
    refine ⟨'/' :: ['/'].intercalate (head :: rest), fun last => ?_⟩
    rw [Text.intercalate_append '/' (List.cons_ne_nil head rest) (List.cons_ne_nil last []),
      List.intercalate_singleton, List.cons_append]

/-- The key of a renamed member path determines the key of the member. -/
theorem caseCollisionKey_renamed_inj {front front' : List Text} {last last' : Text}
    (valid : IsEntryName last) (valid' : IsEntryName last')
    (same : caseCollisionKey fold
        (['/'].intercalate (front ++ [Planner.renamedFileName last index])) =
      caseCollisionKey fold
        (['/'].intercalate (front' ++ [Planner.renamedFileName last' index']))) :
    caseCollisionKey fold (['/'].intercalate (front ++ [last])) =
      caseCollisionKey fold (['/'].intercalate (front' ++ [last'])) := by
  obtain ⟨directory, split⟩ := slash_intercalate_concat front
  obtain ⟨directory', split'⟩ := slash_intercalate_concat front'
  have noSlash : ∀ {name : Text}, IsEntryName name → '/' ∉ caseCollisionKey fold name :=
    fun entryName member => entryName.no_slash (isPlain_slash.mem_of_mem_key member)
  have slashed := congrArg (List.cons '/') same
  rw [← isPlain_slash.caseCollisionKey_cons, ← isPlain_slash.caseCollisionKey_cons, split, split',
    caseCollisionKey_append, caseCollisionKey_append, isPlain_slash.caseCollisionKey_cons,
    isPlain_slash.caseCollisionKey_cons] at slashed
  obtain ⟨directories, names⟩ := Text.append_cons_inj_of_last slashed
    (noSlash (Planner.renamedFileName_isEntryName valid index))
    (noSlash (Planner.renamedFileName_isEntryName valid' index'))
  have restored : caseCollisionKey fold ('/' :: ['/'].intercalate (front ++ [last])) =
      caseCollisionKey fold ('/' :: ['/'].intercalate (front' ++ [last'])) := by
    rw [split, split', caseCollisionKey_append, caseCollisionKey_append,
      isPlain_slash.caseCollisionKey_cons, isPlain_slash.caseCollisionKey_cons, directories,
      caseCollisionKey_renamedFileName_inj valid valid' names]
  rw [isPlain_slash.caseCollisionKey_cons, isPlain_slash.caseCollisionKey_cons] at restored
  exact (List.cons.inj restored).2

end ZManager
