import ZManager.Create.VolumeNames
import ZManager.Safety.Planner

/-! # Volume names in lower case

Discovery compares names in lower case. Lowering keeps every character that is
no letter where it stands, so it commutes with splitting a name at its last dot
and leaves numerals alone.
-/

namespace ZManager

theorem toLower_of_plain {c : Char} (plain : c.isAlpha = false) : c.toLower = c := by
  unfold Char.toLower
  split_ifs with upper
  · exfalso
    obtain ⟨notUpper, -⟩ := Bool.or_eq_false_iff.mp plain
    exact of_decide_eq_false notUpper upper
  · rfl

theorem isAlpha_eq_false_of_isDigit {c : Char} (digit : c.isDigit) : c.isAlpha = false := by
  simp only [Char.isDigit, ge_iff_le, Bool.and_eq_true, decide_eq_true_eq,
    UInt32.le_iff_toNat_le] at digit
  have bound : c.val.toNat ≤ 57 := digit.2
  refine Bool.or_eq_false_iff.mpr ⟨decide_eq_false fun upper => ?_,
    Bool.and_eq_false_iff.mpr (.inl (decide_eq_false fun lower => ?_))⟩
  · have first : 65 ≤ c.val.toNat := UInt32.le_iff_toNat_le.mp upper.1
    omega
  · have first : 97 ≤ c.val.toNat := UInt32.le_iff_toNat_le.mp lower
    omega

theorem toAsciiLowercase_append (front back : Text) :
    toAsciiLowercase (front ++ back) = toAsciiLowercase front ++ toAsciiLowercase back :=
  List.map_append

theorem toAsciiLowercase_cons (c : Char) (rest : Text) :
    toAsciiLowercase (c :: rest) = c.toLower :: toAsciiLowercase rest := rfl

/-- A character that is no letter stands where it stood before lowering. -/
theorem mem_toAsciiLowercase {c : Char} (plain : c.isAlpha = false) {text : Text} :
    c ∈ toAsciiLowercase text ↔ c ∈ text := by
  constructor
  · intro member
    obtain ⟨original, inside, lowered⟩ := List.mem_map.mp member
    have same := eq_toLower_of_toLower_plain (by rw [lowered]; exact plain)
    rwa [same, lowered] at inside
  · intro member
    exact List.mem_map.mpr ⟨c, member, toLower_of_plain plain⟩

theorem toAsciiLowercase_of_digits {text : Text} (digits : ∀ c ∈ text, c.isDigit) :
    toAsciiLowercase text = text := by
  have kept : ∀ c ∈ text, c.toLower = id c := fun c member =>
    toLower_of_plain (isAlpha_eq_false_of_isDigit (digits c member))
  rw [toAsciiLowercase, List.map_congr_left kept, List.map_id]

theorem toAsciiLowercase_padded (width number : Nat) :
    toAsciiLowercase (Text.padded width number) = Text.padded width number :=
  toAsciiLowercase_of_digits fun _ => Text.isDigit_of_mem_padded

theorem toLower_toLower (c : Char) : c.toLower.toLower = c.toLower := by
  by_cases alpha : c.toLower.isAlpha
  · have lower : ¬(c.toLower.val ≥ 'A'.val ∧ c.toLower.val ≤ 'Z'.val) := by
      unfold Char.toLower
      split_ifs with upper
      · obtain ⟨low, high⟩ := upper
        rw [ge_iff_le, UInt32.le_iff_toNat_le] at low
        rw [UInt32.le_iff_toNat_le] at high
        have shifted : (c.val + ('a'.val - 'A'.val)).toNat = c.val.toNat + 32 := by
          have bound : c.val.toNat ≤ 90 := high
          rw [UInt32.toNat_add]
          exact Nat.mod_eq_of_lt (by change c.val.toNat + 32 < 4294967296; omega)
        simp only [ge_iff_le, UInt32.le_iff_toNat_le, shifted]
        have first : 'A'.val.toNat = 65 := rfl
        have last : 'Z'.val.toNat = 90 := rfl
        omega
      · exact upper
    generalize c.toLower = folded at lower
    unfold Char.toLower
    rw [dif_neg lower]
  · exact toLower_of_plain (by simpa using alpha)

theorem toAsciiLowercase_toAsciiLowercase (text : Text) :
    toAsciiLowercase (toAsciiLowercase text) = toAsciiLowercase text := by
  unfold toAsciiLowercase
  rw [List.map_map]
  exact List.map_congr_left fun c _ => toLower_toLower c

/-- Lowering commutes with the split at the last dot. -/
theorem rsplitOnce_toAsciiLowercase (text : Text) :
    Text.rsplitOnce '.' (toAsciiLowercase text) =
      (Text.rsplitOnce '.' text).map fun parts =>
        (toAsciiLowercase parts.1, toAsciiLowercase parts.2) := by
  have plain : '.'.isAlpha = false := by decide
  cases split : Text.rsplitOnce '.' text with
  | none =>
    rw [Text.rsplitOnce_eq_none_iff] at split
    rw [Option.map_none, Text.rsplitOnce_eq_none_iff, mem_toAsciiLowercase plain]
    exact split
  | some parts =>
    obtain ⟨recomposed, last⟩ := Text.rsplitOnce_eq_some split
    have dot : '.'.toLower = '.' := toLower_of_plain plain
    rw [recomposed, toAsciiLowercase_append, toAsciiLowercase_cons, dot]
    exact Text.rsplitOnce_append (by rwa [mem_toAsciiLowercase plain])

theorem IsEntryName.toAsciiLowercase {name : Text} (valid : IsEntryName name) :
    IsEntryName (toAsciiLowercase name) := by
  have lengths : (ZManager.toAsciiLowercase name).length = name.length := List.length_map _
  have dotOnly : ∀ count, ZManager.toAsciiLowercase name = List.replicate count '.' →
      name = List.replicate count '.' := by
    intro count same
    rw [List.eq_replicate_iff]
    refine ⟨by rw [← lengths, same, List.length_replicate], ?_⟩
    intro c member
    have lowered : c.toLower = '.' := by
      have inside : c.toLower ∈ ZManager.toAsciiLowercase name := List.mem_map_of_mem member
      rw [same] at inside
      exact List.eq_of_mem_replicate inside
    have kept := eq_toLower_of_toLower_plain (by rw [lowered]; decide : c.toLower.isAlpha = false)
    rw [kept, lowered]
  refine ⟨?_, ?_, ?_, ?_⟩
  · intro empty
    exact valid.ne_nil (dotOnly 0 empty)
  · intro dot
    exact valid.ne_dot (dotOnly 1 dot)
  · intro dots
    exact valid.ne_dotdot (dotOnly 2 dots)
  · rw [mem_toAsciiLowercase (by decide)]
    exact valid.no_slash

/-- The extension of a bare name. -/
theorem extension_ofText {name : Text} (valid : IsEntryName name) :
    PathBuf.extension (PathBuf.ofText name) = (PathBuf.stemAndExtension name).2 := by
  have path : PathBuf.ofText name = [.normal name] := by
    have joined := valid.isMemberPath.join []
    simpa [PathBuf.join, PathBuf.ofNames] using joined
  rw [path]
  rfl

/-- A text of three or more characters is a name that a directory can hold. -/
theorem isEntryName_append {front suffix : Text} (nonempty : front ≠ []) (noSlash : '/' ∉ front)
    (noSlash' : '/' ∉ suffix) (long : 2 ≤ suffix.length) : IsEntryName (front ++ suffix) := by
  have positive := List.length_pos_iff.mpr nonempty
  have lengths : 3 ≤ (front ++ suffix).length := by
    rw [List.length_append]
    omega
  refine ⟨?_, ?_, ?_, ?_⟩
  · intro same
    simp [same] at lengths
  · intro same
    simp [same] at lengths
  · intro same
    simp [same] at lengths
  · rw [List.mem_append, not_or]
    exact ⟨noSlash, noSlash'⟩

theorem IsEntryName.append {name suffix : Text} (valid : IsEntryName name)
    (noSlash : '/' ∉ suffix) (long : 2 ≤ suffix.length) : IsEntryName (name ++ suffix) :=
  isEntryName_append valid.ne_nil valid.no_slash noSlash long

/-! ## Numerals -/

theorem parseU32_padded_eq (width number : Nat) :
    parseU32 (Text.padded width number) = if number < 2 ^ 32 then some number else none := by
  have value := Text.ofDigitChars_padded width number
  rw [Nat.ofDigitChars_eq_foldl] at value
  unfold parseU32
  simp only [value]

theorem parseU32_padded {width number : Nat} (small : number < 2 ^ 32) :
    parseU32 (Text.padded width number) = some number := by
  rw [parseU32_padded_eq, if_pos small]

theorem dot_not_mem_padded (width number : Nat) : '.' ∉ Text.padded width number := by
  intro member
  have digit := Text.isDigit_of_mem_padded member
  cases digit

theorem all_isDigit_padded (width number : Nat) :
    (Text.padded width number).all Char.isDigit = true :=
  List.all_eq_true.mpr fun _ => Text.isDigit_of_mem_padded

end ZManager
