import ZManager.Create.LowerNames

/-! # The names of split ZIP volumes

A sidecar is recognized alike when creation looks for volumes that exist and
when reading discovers a set. The writer derives the sidecar names from the
destination's stem, from which `with_extension` strips whatever it takes for an
extension of its own.
-/

namespace ZManager

variable {name before after : Text} {index : Nat}

/-! ## Recognizing sidecars -/

/-- An extension of a sidecar in lower case: a `z` and at least two digits. -/
def IsSidecarExtension (extension : Text) : Prop :=
  extension.head? = some 'z' ∧ 3 ≤ extension.length ∧ (extension.drop 1).all Char.isDigit

instance (extension : Text) : Decidable (IsSidecarExtension extension) :=
  inferInstanceAs (Decidable (_ ∧ _ ∧ _))

/-- The part number that an extension in lower case carries. -/
def sidecarNumber (extension : Text) : Option Nat :=
  if IsSidecarExtension extension then (parseU32 (extension.drop 1)).filter (0 < ·) else none

theorem bind_positive {α : Type} (number : Option Nat) (wrap : Nat → α) :
    (number.bind fun part => if 0 < part then some (wrap part) else none) =
      (number.filter (0 < ·)).map wrap := by
  cases number with
  | none => rfl
  | some part =>
    rw [Option.bind_some, Option.filter_some]
    by_cases positive : 0 < part <;> simp [positive]

/-- A numeral behind the `z` is refused when it is too short or no numeral. -/
theorem refuses_sidecarNumber_iff (number : Text) :
    (decide (number.length < zipSplitSideCarExtensionWidth) || !number.all Char.isDigit) = true ↔
      ¬IsSidecarExtension ('z' :: number) := by
  have width : zipSplitSideCarExtensionWidth = 2 := rfl
  unfold IsSidecarExtension
  rw [Bool.or_eq_true, decide_eq_true_eq, Bool.not_eq_true', width, ← Bool.not_eq_true]
  simp only [List.head?_cons, List.length_cons, List.drop_succ_cons, List.drop_zero, true_and]
  by_cases digits : number.all Char.isDigit = true
  · simp only [digits, not_true_eq_false, or_false, and_true]
    omega
  · simp only [digits, not_false_eq_true, or_true, Bool.false_eq_true, and_false]

theorem parseSplitZipSidecarName_eq (name : Text) :
    parseSplitZipSidecarName name = (Text.rsplitOnce '.' name).bind fun parts =>
      (sidecarNumber (toAsciiLowercase parts.2)).map (parts.1, ·) := by
  unfold parseSplitZipSidecarName
  cases Text.rsplitOnce '.' name with
  | none => rfl
  | some parts =>
    obtain ⟨before, after⟩ := parts
    simp only [Option.bind_eq_bind, Option.bind_some]
    unfold sidecarNumber
    split
    next number lowered =>
      rw [lowered]
      by_cases fits : IsSidecarExtension ('z' :: number)
      · rw [if_neg ((refuses_sidecarNumber_iff number).not.mpr (not_not_intro fits)),
          bind_positive, if_pos fits]
        rfl
      · rw [if_pos ((refuses_sidecarNumber_iff number).mpr fits), if_neg fits]
        rfl
    next other =>
      rw [if_neg]
      · rfl
      · rintro ⟨leads, -⟩
        cases lowered : toAsciiLowercase after with
        | nil => simp [lowered] at leads
        | cons c number =>
          rw [lowered, List.head?_cons, Option.some.injEq] at leads
          exact other number (by rw [lowered, leads])

theorem toLower_ne_upperZ (c : Char) : c.toLower ≠ 'Z' := by
  intro same
  have twice := toLower_toLower c
  rw [same] at twice
  exact absurd twice (by decide)

/-- Discovery's test for a sidecar name, on a name in lower case. -/
theorem isSplitZipSidecarExtension_lower (split : Text.rsplitOnce '.' name = some (before, after)) :
    isSplitZipSidecarExtension (toAsciiLowercase name) = true ↔
      before ≠ [] ∧ IsSidecarExtension (toAsciiLowercase after) := by
  have upper : (toAsciiLowercase after).head? ≠ some 'Z' := by
    intro leads
    obtain ⟨original, -, same⟩ := List.mem_map.mp (List.mem_of_mem_head? leads)
    exact toLower_ne_upperZ original same
  have nonempty : toAsciiLowercase before = [] ↔ before = [] := List.map_eq_nil_iff
  unfold isSplitZipSidecarExtension IsSidecarExtension
  rw [rsplitOnce_toAsciiLowercase, split]
  simp only [Option.map_some, ne_eq, decide_not, Bool.and_eq_true, Bool.not_eq_true',
    decide_eq_false_iff_not, decide_eq_true_eq, Bool.or_eq_true, upper, or_false, nonempty]
  tauto

/-- An extension in lower case of a numbered part, with the base it goes with. -/
def IsNumberedExtension (base extension : Text) : Prop :=
  extension.length = 3 ∧ extension.all Char.isDigit ∧ ".zip".toList <:+ base

instance (base extension : Text) : Decidable (IsNumberedExtension base extension) :=
  inferInstanceAs (Decidable (_ ∧ _ ∧ _))

/-- How discovery reads a name whose last dot is known. -/
theorem parseSplitZipPart_lower (split : Text.rsplitOnce '.' name = some (before, after)) :
    parseSplitZipPart (toAsciiLowercase name) =
      if toAsciiLowercase after = "zip".toList then some (toAsciiLowercase before, .final)
      else if before ≠ [] ∧ IsSidecarExtension (toAsciiLowercase after) then
        ((parseU32 ((toAsciiLowercase after).drop 1)).filter (0 < ·)).map fun index =>
          (toAsciiLowercase before, .sidecar index)
      else if IsNumberedExtension (toAsciiLowercase before) (toAsciiLowercase after) then
        ((parseU32 (toAsciiLowercase after)).filter (0 < ·)).map fun index =>
          (toAsciiLowercase before, .numbered index)
      else none := by
  have sidecar := isSplitZipSidecarExtension_lower split
  have numbered : ((decide ((toAsciiLowercase after).length = 3) &&
      (toAsciiLowercase after).all Char.isDigit &&
        ".zip".toList.isSuffixOf (toAsciiLowercase (toAsciiLowercase before))) = true) ↔
      IsNumberedExtension (toAsciiLowercase before) (toAsciiLowercase after) := by
    unfold IsNumberedExtension
    rw [toAsciiLowercase_toAsciiLowercase, Bool.and_eq_true, Bool.and_eq_true, decide_eq_true_eq,
      List.isSuffixOf_iff_suffix, and_assoc]
  unfold parseSplitZipPart
  rw [rsplitOnce_toAsciiLowercase, split]
  simp only [Option.map_some, Option.bind_eq_bind, Option.bind_some, sidecar, numbered,
    bind_positive]

/-- Discovery takes a name for a sidecar by its extension in lower case. -/
theorem parseSplitZipPart_sidecar_iff {stem : Text} :
    parseSplitZipPart (toAsciiLowercase name) = some (stem, .sidecar index) ↔
      ∃ before after, Text.rsplitOnce '.' name = some (before, after) ∧ before ≠ [] ∧
        stem = toAsciiLowercase before ∧ sidecarNumber (toAsciiLowercase after) = some index := by
  cases split : Text.rsplitOnce '.' name with
  | none =>
    unfold parseSplitZipPart
    simp [rsplitOnce_toAsciiLowercase, split]
  | some parts =>
    obtain ⟨before, after⟩ := parts
    rw [parseSplitZipPart_lower split]
    unfold sidecarNumber
    by_cases last : toAsciiLowercase after = "zip".toList
    · have other : ¬IsSidecarExtension "zip".toList := by decide
      rw [if_pos last]
      constructor
      · intro read
        cases read
      · rintro ⟨_, _, same, -, -, found⟩
        cases same
        rw [last, if_neg other] at found
        cases found
    · rw [if_neg last]
      by_cases recognized : before ≠ [] ∧ IsSidecarExtension (toAsciiLowercase after)
      · rw [if_pos recognized]
        simp only [Option.map_eq_some_iff, Prod.mk.injEq, SplitZipPart.sidecar.injEq,
          Option.some.injEq]
        constructor
        · rintro ⟨_, found, rfl, rfl⟩
          exact ⟨before, after, ⟨rfl, rfl⟩, recognized.1, rfl, by rwa [if_pos recognized.2]⟩
        · rintro ⟨_, _, ⟨rfl, rfl⟩, -, rfl, found⟩
          rw [if_pos recognized.2] at found
          exact ⟨index, found, rfl, rfl⟩
      · rw [if_neg recognized]
        constructor
        · intro read
          split_ifs at read with numbered
          obtain ⟨_, -, same⟩ := Option.map_eq_some_iff.mp read
          cases same
        · rintro ⟨_, _, same, nonempty, -, found⟩
          cases same
          rw [if_neg fun fits => recognized ⟨nonempty, fits⟩] at found
          cases found

/-- A sidecar of a stem by its base and its extension. -/
theorem matchSplitZipSidecar_split {stem : Text}
    (split : Text.rsplitOnce '.' name = some (before, after)) :
    matchSplitZipSidecar stem name =
      if toAsciiLowercase before = toAsciiLowercase stem then
        sidecarNumber (toAsciiLowercase after)
      else none := by
  unfold matchSplitZipSidecar
  rw [parseSplitZipSidecarName_eq, split, Option.bind_some]
  cases sidecarNumber (toAsciiLowercase after) with
  | none => simp
  | some part => rfl

/-- Creation and discovery recognize the same sidecars of a stem. -/
theorem matchSplitZipSidecar_eq_some_iff {stem : Text} (nonempty : stem ≠ []) :
    matchSplitZipSidecar stem name = some index ↔
      parseSplitZipPart (toAsciiLowercase name) =
        some (toAsciiLowercase stem, .sidecar index) := by
  rw [parseSplitZipPart_sidecar_iff]
  cases split : Text.rsplitOnce '.' name with
  | none =>
    unfold matchSplitZipSidecar
    rw [parseSplitZipSidecarName_eq, split]
    simp
  | some parts =>
    obtain ⟨before, after⟩ := parts
    rw [matchSplitZipSidecar_split split]
    constructor
    · intro matched
      split_ifs at matched with same
      refine ⟨before, after, rfl, ?_, same.symm, matched⟩
      intro empty
      rw [empty] at same
      exact nonempty (List.map_eq_nil_iff.mp same.symm)
    · rintro ⟨_, _, same, -, stemmed, found⟩
      cases same
      rw [if_pos stemmed.symm]
      exact found

/-! ## Sidecar names -/

/-- The name of a sidecar of a stem. -/
def sidecarName (stem : Text) (index : Nat) : Text :=
  stem ++ '.' :: 'z' :: Text.padded 2 index

theorem rsplitOnce_sidecarName (stem : Text) (index : Nat) :
    Text.rsplitOnce '.' (sidecarName stem index) = some (stem, 'z' :: Text.padded 2 index) := by
  apply Text.rsplitOnce_append
  rw [List.mem_cons, not_or]
  exact ⟨by decide, dot_not_mem_padded 2 index⟩

theorem toAsciiLowercase_sidecarExtension (index : Nat) :
    toAsciiLowercase ('z' :: Text.padded 2 index) = 'z' :: Text.padded 2 index := by
  rw [toAsciiLowercase_cons, toAsciiLowercase_padded]
  rfl

theorem sidecarNumber_padded (index : Nat) :
    sidecarNumber ('z' :: Text.padded 2 index) =
      if 0 < index ∧ index < 2 ^ 32 then some index else none := by
  have fits : IsSidecarExtension ('z' :: Text.padded 2 index) := by
    refine ⟨rfl, ?_, all_isDigit_padded 2 index⟩
    have width := Text.le_length_padded 2 index
    rw [List.length_cons]
    omega
  unfold sidecarNumber
  rw [if_pos fits, List.drop_succ_cons, List.drop_zero, parseU32_padded_eq]
  generalize 2 ^ 32 = bound
  by_cases small : index < bound
  · by_cases positive : 0 < index
    · simp [small, positive]
    · simp [Nat.eq_zero_of_not_pos positive]
  · simp [small]

theorem matchSplitZipSidecar_sidecarName {stem other : Text} :
    matchSplitZipSidecar stem (sidecarName other index) =
      if toAsciiLowercase other = toAsciiLowercase stem ∧ 0 < index ∧ index < 2 ^ 32 then
        some index
      else none := by
  rw [matchSplitZipSidecar_split (rsplitOnce_sidecarName other index),
    toAsciiLowercase_sidecarExtension, sidecarNumber_padded]
  by_cases same : toAsciiLowercase other = toAsciiLowercase stem <;> simp [same]

/-! ## Sidecar paths -/

/-- A name whose only dot may be its first has no extension of its own. -/
theorem stemAndExtension_simple {stem : Text} (simple : '.' ∉ stem.tail) :
    PathBuf.stemAndExtension stem = (stem, none) := by
  unfold PathBuf.stemAndExtension
  by_cases dots : stem = ['.', '.']
  · rw [if_pos dots]
  · rw [if_neg dots]
    cases split : Text.rsplitOnce '.' stem with
    | none => rfl
    | some parts =>
      obtain ⟨before, after⟩ := parts
      obtain ⟨recomposed, -⟩ := Text.rsplitOnce_eq_some split
      cases before with
      | nil => rfl
      | cons head rest =>
        rw [recomposed] at simple
        exact absurd (by simp) simple

/-- A name with an extension is its stem, a dot and the extension. -/
theorem stemAndExtension_eq_some {stem extension : Text}
    (split : PathBuf.stemAndExtension name = (stem, some extension)) :
    stem ≠ [] ∧ name = stem ++ '.' :: extension ∧ '.' ∉ extension := by
  unfold PathBuf.stemAndExtension at split
  split_ifs at split with dots
  · simp at split
  · cases parted : Text.rsplitOnce '.' name with
    | none => simp [parted] at split
    | some parts =>
      obtain ⟨before, after⟩ := parts
      by_cases empty : before = []
      · simp [parted, empty] at split
      · simp only [parted, empty, ↓reduceIte, Prod.mk.injEq, Option.some.injEq] at split
        obtain ⟨rfl, rfl⟩ := split
        exact ⟨empty, Text.rsplitOnce_eq_some parted⟩

/-- A name with a dot behind its first character is split at the last of them. -/
theorem stemAndExtension_dotted {stem : Text} (dotted : '.' ∈ stem.tail)
    (noParent : stem ≠ ['.', '.']) :
    ∃ before after, before ≠ [] ∧ stem = before ++ '.' :: after ∧
      PathBuf.stemAndExtension stem = (before, some after) := by
  unfold PathBuf.stemAndExtension
  rw [if_neg noParent]
  cases split : Text.rsplitOnce '.' stem with
  | none =>
    exact absurd (List.mem_of_mem_tail dotted) (Text.rsplitOnce_eq_none_iff.mp split)
  | some parts =>
    obtain ⟨before, after⟩ := parts
    obtain ⟨recomposed, last⟩ := Text.rsplitOnce_eq_some split
    have nonempty : before ≠ [] := by
      rintro rfl
      rw [recomposed] at dotted
      exact last dotted
    exact ⟨before, after, nonempty, recomposed, by simp only [nonempty, ↓reduceIte]⟩

theorem join_entryName (valid : IsEntryName name) (directory : PathBuf) :
    PathBuf.join directory name = directory ++ [Component.normal name] :=
  valid.isMemberPath.join directory

theorem slash_not_mem_padded (width number : Nat) : '/' ∉ Text.padded width number := by
  intro member
  have digit := Text.isDigit_of_mem_padded member
  cases digit

theorem isEntryName_sidecarName {stem : Text} (nonempty : stem ≠ []) (noSlash : '/' ∉ stem)
    (index : Nat) : IsEntryName (sidecarName stem index) := by
  apply isEntryName_append nonempty noSlash
  · rw [List.mem_cons, List.mem_cons, not_or, not_or]
    exact ⟨by decide, by decide, slash_not_mem_padded 2 index⟩
  · simp

/-- Setting a sidecar extension keeps the stem of the name. -/
theorem setExtension_sidecar {directory : PathBuf} {stem : Text}
    (stemmed : (PathBuf.stemAndExtension name).1 = stem) (nonempty : stem ≠ [])
    (noSlash : '/' ∉ stem) (index : Nat) :
    PathBuf.setExtension (directory ++ [Component.normal name]) ('z' :: Text.padded 2 index) =
      directory ++ [Component.normal (sidecarName stem index)] := by
  unfold PathBuf.setExtension
  simp only [fileName_concat, List.cons_ne_nil, ↓reduceIte, stemmed, List.dropLast_concat]
  exact join_entryName (isEntryName_sidecarName nonempty noSlash index) directory

theorem join_dotdot (directory : PathBuf) :
    PathBuf.join directory ['.', '.'] = directory ++ [Component.parentDir] := by
  by_cases bare : directory = []
  · rw [bare]
    decide
  · have plain : PathBuf.isAbsoluteText ['.', '.'] = false := rfl
    unfold PathBuf.join
    rw [plain, if_neg (by simpa using bare)]
    congr 1

theorem fileName_parentDir (directory : PathBuf) :
    PathBuf.fileName (directory ++ [Component.parentDir]) = none := by
  simp [PathBuf.fileName]

theorem setExtension_parentDir (directory : PathBuf) (extension : Text) :
    PathBuf.setExtension (directory ++ [Component.parentDir]) extension = directory ++
        [Component.parentDir] := by
  unfold PathBuf.setExtension
  rw [fileName_parentDir]

/-- The name up to the dot of its extension, with that dot. -/
theorem stemAndExtension_dot {stem : Text} (nonempty : stem ≠ []) (noDot : stem ≠ ['.']) :
    PathBuf.stemAndExtension (stem ++ ['.']) = (stem, some []) := by
  have noParent : stem ++ ['.'] ≠ ['.', '.'] := fun same =>
    noDot (List.append_cancel_right (same.trans rfl))
  unfold PathBuf.stemAndExtension
  rw [if_neg noParent, Text.rsplitOnce_append (List.not_mem_nil)]
  simp only [nonempty, ↓reduceIte]

theorem isEntryName_dot {stem : Text} (nonempty : stem ≠ []) (noDot : stem ≠ ['.'])
    (noSlash : '/' ∉ stem) : IsEntryName (stem ++ ['.']) := by
  refine ⟨by simp, ?_, ?_, ?_⟩
  · intro same
    exact nonempty (List.append_cancel_right (same.trans rfl))
  · intro same
    exact noDot (List.append_cancel_right (same.trans rfl))
  · rw [List.mem_append, not_or]
    exact ⟨noSlash, by decide⟩

section

variable {directory : PathBuf} {stem : Text}

/-- The sidecars of a stem without an extension of its own. -/
theorem splitZipSidecarPath_simple (valid : IsEntryName stem) (simple : '.' ∉ stem.tail)
    (index : Nat) :
    splitZipSidecarPath (directory ++ [Component.normal stem]) index =
      directory ++ [Component.normal (sidecarName stem index)] := by
  have stemmed := stemAndExtension_simple simple
  unfold splitZipSidecarPath PathBuf.withExtension
  rw [fileName_concat, Option.map_some, stemmed]
  exact setExtension_sidecar (by rw [stemmed]) valid.ne_nil valid.no_slash index

/-- A stem with an extension of its own loses it: no sidecar has the stem. -/
theorem splitZipSidecarPath_dotted (valid : IsEntryName stem) (dotted : '.' ∈ stem.tail) :
    (∀ index, splitZipSidecarPath (directory ++ [Component.normal stem]) index =
        directory ++ [Component.parentDir]) ∨
      ∃ shorter : Text, shorter.length < stem.length ∧
        ∀ index, splitZipSidecarPath (directory ++ [Component.normal stem]) index =
          directory ++ [Component.normal (sidecarName shorter index)] := by
  obtain ⟨before, after, nonempty, recomposed, split⟩ :=
    stemAndExtension_dotted dotted valid.ne_dotdot
  have noSlash : '/' ∉ before := by
    intro member
    apply valid.no_slash
    rw [recomposed]
    exact List.mem_append_left _ member
  have computed : ∀ index, splitZipSidecarPath (directory ++ [Component.normal stem]) index =
      PathBuf.setExtension (PathBuf.join directory (before ++ ['.']))
        ('z' :: Text.padded 2 index) := by
    intro index
    unfold splitZipSidecarPath PathBuf.withExtension
    rw [fileName_concat, Option.map_some, split, List.dropLast_concat]
    rfl
  by_cases dot : before = ['.']
  · left
    intro index
    rw [computed, dot, List.singleton_append, join_dotdot, setExtension_parentDir]
  · right
    refine ⟨before, by rw [recomposed]; simp, ?_⟩
    intro index
    rw [computed, join_entryName (isEntryName_dot nonempty dot noSlash)]
    exact setExtension_sidecar (by rw [stemAndExtension_dot nonempty dot]) nonempty noSlash index

theorem splitZipSidecarPath_parentDir (index : Nat) :
    splitZipSidecarPath (directory ++ [Component.parentDir]) index = directory ++
        [Component.parentDir] := by
  unfold splitZipSidecarPath PathBuf.withExtension
  rw [fileName_parentDir]
  exact setExtension_parentDir directory _

end

end ZManager
