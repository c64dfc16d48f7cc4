import Mathlib.Tactic.SplitIfs
import ZManager.Foundation.Bytes

/-! # Call translation in LZX chunks

Before a chunk is compressed, the relative operand of each byte that looks like a call is made
absolute, so that calls of one function look alike. The decoder scans the chunk for the same
bytes and undoes this.
-/

namespace ZManager

open Bytes

namespace Wim

variable {data : List UInt8} {position : Nat}

/-- The value of a two's complement word. -/
def asI32 (value : Int) : Int :=
  if value % 4294967296 < 2147483648 then value % 4294967296
  else value % 4294967296 - 4294967296

/-- `i32::from_le_bytes` of the four bytes at an offset. -/
def readI32 (bytes : List UInt8) (offset : Nat) : Int := asI32 (readU32 bytes offset)

/-- `i32::to_le_bytes`. -/
def leI32 (value : Int) : List UInt8 := leU32 (value % 4294967296).toNat

def wimE8TranslationSize : Int := 12000000

/-- The relative operand for an absolute one; other values are left alone. -/
def relativeOperand (translationSize : Int) (currentPointer : Nat) (absVal : Int) : Int :=
  if -asI32 currentPointer ≤ absVal ∧ absVal < translationSize then
    if 0 < absVal then asI32 (absVal - asI32 currentPointer)
    else asI32 (absVal + translationSize)
  else absVal

/-- The loop of `postprocess`; a value that is left alone is written back as it is. -/
def postprocessLoop (translationSize : Int) (chunkOffset : Nat) :
    (fuel processed : Nat) → List UInt8 → List UInt8
  | 0, _, idata => idata
  | fuel + 1, processed, idata =>
    match (idata.drop processed).findIdx? (· = 0xE8) with
    | none => idata
    | some found =>
      let pos := processed + found
      -- Fixups are only performed for up to 10 bytes before the end of a chunk.
      if idata.length - pos ≤ 10 then idata
      else
        let absVal := readI32 idata (pos + 1)
        let relVal := relativeOperand translationSize (chunkOffset + pos) absVal
        postprocessLoop translationSize chunkOffset fuel (pos + 5)
          (overwrite idata (pos + 1) (leI32 relVal))

/-- Every round passes five bytes, so the length is enough. -/
def postprocess (translationSize : Int) (chunkOffset : Nat) (idata : List UInt8) : List UInt8 :=
  postprocessLoop translationSize chunkOffset (idata.length + 1) 0 idata

/-! ## Scanning for calls -/

/-- The bytes with the operands of their calls rewritten, from a position on. -/
def rewriteCalls (operand : Nat → Int → Int) : Nat → List UInt8 → List UInt8
  | position, call :: a :: b :: c :: d :: rest =>
    if call = 0xE8 then
      if rest.length < 6 then call :: a :: b :: c :: d :: rest
      else call :: (leI32 (operand position (readI32 [a, b, c, d] 0)) ++
        rewriteCalls operand (position + 5) rest)
    else call :: rewriteCalls operand (position + 1) (a :: b :: c :: d :: rest)
  | _, short => short

/-- The calls of the bytes, with their positions and operands. -/
def callsOf : Nat → List UInt8 → List (Nat × Int)
  | position, call :: a :: b :: c :: d :: rest =>
    if call = 0xE8 then
      if rest.length < 6 then []
      else (position, readI32 [a, b, c, d] 0) :: callsOf (position + 5) rest
    else callsOf (position + 1) (a :: b :: c :: d :: rest)
  | _, _ => []

/-- The absolute operand for a relative one. -/
def absoluteOperand (size : Int) (position : Nat) (relVal : Int) : Int :=
  if -position ≤ relVal ∧ relVal < size - position then relVal + position
  else if size - position ≤ relVal ∧ relVal < size then relVal - size
  else relVal

/-- The forward filter of the compressor. -/
def translateCalls (size : Int) (data : List UInt8) : List UInt8 :=
  rewriteCalls (absoluteOperand size) 0 data

/-! ## Words -/

theorem asI32_of_bounds {value : Int} (low : -2147483648 ≤ value) (high : value < 2147483648) :
    asI32 value = value := by
  unfold asI32
  split_ifs with small
  · omega
  · omega

theorem asI32_bounds (value : Int) : -2147483648 ≤ asI32 value ∧ asI32 value < 2147483648 := by
  unfold asI32
  split_ifs with small
  · omega
  · omega

/-- A word is read back. -/
theorem readI32_leI32 {value : Int} (low : -2147483648 ≤ value) (high : value < 2147483648) :
    readI32 (leI32 value) 0 = value := by
  have read := @readU32_leU32 (value % 4294967296).toNat (by omega) []
  rw [List.append_nil] at read
  unfold readI32 leI32
  rw [read]
  unfold asI32
  split_ifs with small
  · omega
  · omega

theorem length_leI32 (value : Int) : (leI32 value).length = 4 := rfl

/-- Four bytes are those of the word they are read as. -/
theorem leI32_readI32 {field : List UInt8} (width : field.length = 4) :
    leI32 (readI32 field 0) = field := by
  have small := readU32_lt field 0
  have same : (readI32 field 0 % 4294967296).toNat = readU32 field 0 := by
    unfold readI32 asI32
    split_ifs
    · omega
    · omega
  have back := leU32_readU32 width []
  rw [List.append_nil] at back
  unfold leI32
  rw [same, back]

theorem readI32_bounds (bytes : List UInt8) (offset : Nat) :
    -2147483648 ≤ readI32 bytes offset ∧ readI32 bytes offset < 2147483648 :=
  asI32_bounds _

/-- Two words with the same bytes are the same. -/
theorem leI32_inj {first second : Int} (low : -2147483648 ≤ first) (high : first < 2147483648)
    (low' : -2147483648 ≤ second) (high' : second < 2147483648) :
    leI32 first = leI32 second ↔ first = second := by
  refine ⟨fun same => ?_, fun same => by rw [same]⟩
  rw [← readI32_leI32 low high, same, readI32_leI32 low' high']

/-! ## The loop is the scan -/

section

variable {operand : Nat → Int → Int}

theorem rewriteCalls_cons_of_ne {byte : UInt8} (other : byte ≠ 0xE8) (position : Nat)
    (rest : List UInt8) :
    rewriteCalls operand position (byte :: rest) =
      byte :: rewriteCalls operand (position + 1) rest := by
  match rest with
  | [] | [_] | [_, _] | [_, _, _] => rfl
  | a :: b :: c :: d :: more =>
    rw [rewriteCalls, if_neg other]

/-- Bytes that are no calls are passed. -/
theorem rewriteCalls_append {front : List UInt8} (plain : ∀ byte ∈ front, byte ≠ 0xE8)
    (position : Nat) (rest : List UInt8) :
    rewriteCalls operand position (front ++ rest) =
      front ++ rewriteCalls operand (position + front.length) rest := by
  induction front generalizing position with
  | nil => rfl
  | cons byte front ih =>
    obtain ⟨here, later⟩ := List.forall_mem_cons.mp plain
    rw [List.cons_append, rewriteCalls_cons_of_ne here, ih later, List.cons_append,
      List.length_cons, Nat.add_assoc, Nat.add_comm 1]

theorem rewriteCalls_of_plain {data : List UInt8} (plain : ∀ byte ∈ data, byte ≠ 0xE8)
    (position : Nat) : rewriteCalls operand position data = data := by
  have passed := @rewriteCalls_append operand data plain position []
  rwa [List.append_nil, show rewriteCalls operand (position + data.length) [] = [] from rfl,
    List.append_nil] at passed

/-- A call near the end is left alone, with all that follows. -/
theorem rewriteCalls_near_end {rest : List UInt8} (short : rest.length < 10) (position : Nat) :
    rewriteCalls operand position (0xE8 :: rest) = 0xE8 :: rest := by
  match rest with
  | [] | [_] | [_, _] | [_, _, _] => rfl
  | a :: b :: c :: d :: more =>
    simp only [List.length_cons] at short
    rw [rewriteCalls, if_pos rfl, if_pos (by omega)]

/-- The operand of a call is the word behind it. -/
theorem rewriteCalls_call {word rest : List UInt8} (width : word.length = 4)
    (long : ¬rest.length < 6) (position : Nat) :
    rewriteCalls operand position (0xE8 :: (word ++ rest)) =
      0xE8 :: (leI32 (operand position (readI32 word 0)) ++
        rewriteCalls operand (position + 5) rest) := by
  obtain ⟨a, b, c, d, rfl⟩ := List.length_eq_four.mp width
  simp only [List.cons_append, List.nil_append]
  rw [rewriteCalls, if_pos rfl, if_neg long]

theorem length_rewriteCalls (position : Nat) (data : List UInt8) :
    (rewriteCalls operand position data).length = data.length := by
  fun_induction callsOf position data with
  | case1 position a b c d rest short => rw [rewriteCalls, if_pos rfl, if_pos short]
  | case2 position a b c d rest long ih =>
    rw [rewriteCalls, if_pos rfl, if_neg long, List.length_cons, List.length_append, ih]
    simp only [length_leI32, List.length_cons]
    omega
  | case3 position call a b c d rest other ih =>
    rw [rewriteCalls_cons_of_ne other, List.length_cons, ih]
    rfl
  | case4 position data short =>
    rw [rewriteCalls]
    exact short

end

theorem exists_four {α : Type} {data : List α} (long : 4 ≤ data.length) :
    ∃ a b c d rest, data = a :: b :: c :: d :: rest := by
  match data, long with
  | a :: b :: c :: d :: rest, _ => exact ⟨a, b, c, d, rest, rfl⟩

theorem exists_split_of_findIdx? {index : Nat} (found : data.findIdx? (· = 0xE8) = some index) :
    ∃ front back, data = front ++ 0xE8 :: back ∧ front.length = index ∧
      ∀ byte ∈ front, byte ≠ 0xE8 := by
  obtain ⟨inside, here, before⟩ := List.findIdx?_eq_some_iff_getElem.mp found
  refine ⟨data.take index, data.drop (index + 1), ?_, ?_, ?_⟩
  · rw [← of_decide_eq_true here, ← List.drop_eq_getElem_cons inside, List.take_append_drop]
  · exact List.length_take_of_le (Nat.le_of_lt inside)
  · intro byte member
    obtain ⟨earlier, early, rfl⟩ := List.mem_take_iff_getElem.mp member
    simpa using before earlier (by omega)

/-- **The loop is a scan** of what it has not passed yet. -/
theorem postprocessLoop_eq {size : Int} {chunkOffset fuel : Nat} {front back : List UInt8}
    (enough : back.length < fuel) :
    postprocessLoop size chunkOffset fuel front.length (front ++ back) =
      front ++ rewriteCalls (fun position => relativeOperand size (chunkOffset + position))
        front.length back := by
  induction fuel generalizing front back with
  | zero => exact absurd enough (Nat.not_lt_zero _)
  | succ fuel ih =>
    unfold postprocessLoop
    rw [List.drop_left]
    cases found : back.findIdx? (· = 0xE8) with
    | none =>
      have plain : ∀ byte ∈ back, byte ≠ 0xE8 := by
        simpa using List.findIdx?_eq_none_iff.mp found
      rw [rewriteCalls_of_plain plain]
    | some index =>
      obtain ⟨skipped, tail, rfl, rfl, plain⟩ := exists_split_of_findIdx? found
      rw [rewriteCalls_append plain]
      have left : (front ++ (skipped ++ 0xE8 :: tail)).length -
          (front.length + skipped.length) = tail.length + 1 := by
        simp only [List.length_append, List.length_cons]
        omega
      dsimp only
      rw [left]
      by_cases short : tail.length + 1 ≤ 10
      · rw [if_pos short, rewriteCalls_near_end (by omega)]
      rw [if_neg short]
      obtain ⟨a, b, c, d, rest, rfl⟩ := exists_four (by omega : 4 ≤ tail.length)
      simp only [List.length_cons, List.length_append] at short enough
      have whole : front ++ (skipped ++ 0xE8 :: a :: b :: c :: d :: rest) =
          (front ++ (skipped ++ [0xE8])) ++ [a, b, c, d] ++ rest := by
        simp only [List.append_assoc, List.cons_append, List.nil_append]
      have start : front.length + skipped.length + 1 =
          (front ++ (skipped ++ [0xE8])).length := by
        simp only [List.length_append, List.length_singleton, Nat.add_assoc]
      have operandRead : readI32 (front ++ (skipped ++ 0xE8 :: a :: b :: c :: d :: rest))
          (front.length + skipped.length + 1) = readI32 [a, b, c, d] 0 := by
        have read := readU32_append_right (front ++ (skipped ++ [0xE8])) ([a, b, c, d] ++ rest) 0
        unfold readI32
        rw [whole, start, List.append_assoc, ← Nat.add_zero (List.length _), read,
          readU32_append_left rest (Nat.le_refl 4)]
      have patched : ∀ value, overwrite
          (front ++ (skipped ++ 0xE8 :: a :: b :: c :: d :: rest))
          (front.length + skipped.length + 1) (leI32 value) =
            (front ++ (skipped ++ 0xE8 :: leI32 value)) ++ rest := by
        intro value
        rw [whole, start, @overwrite_middle _ _ [a, b, c, d] (leI32 value) rest rfl]
        simp only [List.append_assoc, List.cons_append, List.nil_append]
      have passed : ∀ value, (front ++ (skipped ++ 0xE8 :: leI32 value)).length =
          front.length + skipped.length + 5 := by
        intro value
        simp only [List.length_append, List.length_cons, length_leI32]
        omega
      rw [operandRead, patched, ← passed, ih (by omega), passed, rewriteCalls, if_pos rfl,
        if_neg (by omega)]
      simp only [List.append_assoc, List.cons_append]

/-- **Post-processing** rewrites the absolute operands of the calls. -/
theorem postprocess_eq (size : Int) (chunkOffset : Nat) (idata : List UInt8) :
    postprocess size chunkOffset idata =
      rewriteCalls (fun position => relativeOperand size (chunkOffset + position)) 0 idata := by
  have whole := @postprocessLoop_eq size chunkOffset (idata.length + 1) [] idata
    (Nat.lt_succ_self _)
  rw [List.nil_append, List.nil_append] at whole
  exact whole

/-! ## Undoing the translation -/

/-- Rewriting twice changes nothing where the two functions undo each other. -/
theorem rewriteCalls_rewriteCalls_iff {forth back : Nat → Int → Int}
    (fits : ∀ call ∈ callsOf position data, -2147483648 ≤ forth call.1 call.2 ∧
      forth call.1 call.2 < 2147483648)
    (fits' : ∀ call ∈ callsOf position data, -2147483648 ≤ back call.1 (forth call.1 call.2) ∧
      back call.1 (forth call.1 call.2) < 2147483648) :
    rewriteCalls back position (rewriteCalls forth position data) = data ↔
      ∀ call ∈ callsOf position data, back call.1 (forth call.1 call.2) = call.2 := by
  fun_induction callsOf position data with
  | case1 position a b c d rest short =>
    rw [rewriteCalls, if_pos rfl, if_pos short, rewriteCalls, if_pos rfl, if_pos short]
    simp
  | case2 position a b c d rest long ih =>
    obtain ⟨low, high⟩ := fits _ (List.mem_cons_self ..)
    obtain ⟨low', high'⟩ := fits' _ (List.mem_cons_self ..)
    have behind := ih (fun call member => fits call (List.mem_cons_of_mem _ member))
      (fun call member => fits' call (List.mem_cons_of_mem _ member))
    have word : leI32 (readI32 [a, b, c, d] 0) = [a, b, c, d] := leI32_readI32 rfl
    have bounds := readI32_bounds [a, b, c, d] 0
    rw [rewriteCalls, if_pos rfl, if_neg long,
      rewriteCalls_call (length_leI32 _) (by rwa [length_rewriteCalls]),
      readI32_leI32 low high, List.forall_mem_cons, ← behind,
      ← leI32_inj low' high' bounds.1 bounds.2, word]
    constructor
    · intro same
      exact List.append_inj (List.tail_eq_of_cons_eq same) (length_leI32 _)
    · rintro ⟨here, later⟩
      rw [here, later]
      rfl
  | case3 position call a b c d rest other ih =>
    rw [rewriteCalls_cons_of_ne other, rewriteCalls_cons_of_ne other, List.cons_eq_cons,
      ih fits fits']
    simp
  | case4 position data short =>
    have unchanged : ∀ operand, rewriteCalls operand position data = data := by
      intro operand
      rw [rewriteCalls]
      exact short
    rw [unchanged, unchanged]
    simp

theorem callsOf_position {call : Nat × Int} (member : call ∈ callsOf position data) :
    call.1 < position + data.length := by
  fun_induction callsOf position data with
  | case1 position a b c d rest short => cases member
  | case2 position a b c d rest long ih =>
    simp only [List.length_cons]
    rcases List.mem_cons.mp member with rfl | later
    · dsimp only
      omega
    · have bound := ih later
      omega
  | case3 position byte a b c d rest other ih =>
    have bound := ih member
    simp only [List.length_cons] at bound ⊢
    omega
  | case4 position data short => cases member

theorem callsOf_bounds {call : Nat × Int} (member : call ∈ callsOf position data) :
    -2147483648 ≤ call.2 ∧ call.2 < 2147483648 := by
  fun_induction callsOf position data with
  | case1 position a b c d rest short => cases member
  | case2 position a b c d rest long ih =>
    rcases List.mem_cons.mp member with rfl | later
    · dsimp only
      exact readI32_bounds [a, b, c, d] 0
    · exact ih later
  | case3 position byte a b c d rest other ih => exact ih member
  | case4 position data short => cases member

theorem absoluteOperand_bounds {relVal : Int} (near : position < 32768)
    (low : -2147483648 ≤ relVal) (high : relVal < 2147483648) :
    -2147483648 ≤ absoluteOperand wimE8TranslationSize position relVal ∧
      absoluteOperand wimE8TranslationSize position relVal < 2147483648 := by
  unfold absoluteOperand wimE8TranslationSize
  split_ifs with inside outside
  · omega
  · omega
  · omega

theorem relativeOperand_bounds {pointer : Nat} {absVal : Int}
    (low : -2147483648 ≤ absVal) (high : absVal < 2147483648) :
    -2147483648 ≤ relativeOperand wimE8TranslationSize pointer absVal ∧
      relativeOperand wimE8TranslationSize pointer absVal < 2147483648 := by
  unfold relativeOperand
  split_ifs with inside positive
  · exact asI32_bounds _
  · exact asI32_bounds _
  · exact ⟨low, high⟩

/-- The one operand that is not found back is that of a call to the start of the chunk: its
absolute value is zero, and zero is taken for negative. -/
theorem relativeOperand_absoluteOperand_iff {relVal : Int} (near : position < 32768)
    (low : -2147483648 ≤ relVal) (high : relVal < 2147483648) :
    relativeOperand wimE8TranslationSize position
        (absoluteOperand wimE8TranslationSize position relVal) = relVal ↔
      relVal ≠ -(position : Int) := by
  have pointer : asI32 position = position := asI32_of_bounds (by omega) (by omega)
  unfold relativeOperand
  rw [pointer]
  unfold absoluteOperand
  by_cases inside : -(position : Int) ≤ relVal ∧ relVal < wimE8TranslationSize - position
  · rw [if_pos inside]
    unfold wimE8TranslationSize at inside ⊢
    rw [if_pos (by omega)]
    by_cases start : relVal = -(position : Int)
    · rw [if_neg (by omega), asI32_of_bounds (by omega) (by omega)]
      omega
    · rw [if_pos (by omega), asI32_of_bounds (by omega) (by omega)]
      omega
  rw [if_neg inside]
  by_cases outside : wimE8TranslationSize - position ≤ relVal ∧ relVal < wimE8TranslationSize
  · rw [if_pos outside]
    unfold wimE8TranslationSize at outside ⊢
    rw [if_pos (by omega), if_neg (by omega), asI32_of_bounds (by omega) (by omega)]
    omega
  · rw [if_neg outside]
    unfold wimE8TranslationSize at inside outside ⊢
    rw [if_neg (by omega)]
    omega

/-- **Call translation is undone** exactly on the chunks without a call to their own start. -/
theorem postprocess_translateCalls_iff {data : List UInt8} (chunk : data.length ≤ 32768) :
    postprocess wimE8TranslationSize 0 (translateCalls wimE8TranslationSize data) = data ↔
      ∀ call ∈ callsOf 0 data, call.2 ≠ -(call.1 : Int) := by
  have near : ∀ call ∈ callsOf 0 data, call.1 < 32768 := by
    intro call member
    have inside := callsOf_position member
    omega
  have fits : ∀ call ∈ callsOf 0 data,
      -2147483648 ≤ absoluteOperand wimE8TranslationSize call.1 call.2 ∧
        absoluteOperand wimE8TranslationSize call.1 call.2 < 2147483648 := by
    intro call member
    obtain ⟨low, high⟩ := callsOf_bounds member
    exact absoluteOperand_bounds (near call member) low high
  rw [postprocess_eq]
  simp only [Nat.zero_add]
  unfold translateCalls
  rw [rewriteCalls_rewriteCalls_iff fits
    (fun call member => relativeOperand_bounds (fits call member).1 (fits call member).2)]
  refine forall₂_congr fun call member => ?_
  obtain ⟨low, high⟩ := callsOf_bounds member
  exact relativeOperand_absoluteOperand_iff (near call member) low high

/-- A call three bytes ahead comes back. -/
theorem postprocess_translateCalls_sample :
    postprocess wimE8TranslationSize 0
        (translateCalls wimE8TranslationSize [0xE8, 3, 0, 0, 0, 1, 2, 3, 4, 5, 6]) =
      [0xE8, 3, 0, 0, 0, 1, 2, 3, 4, 5, 6] :=
  (postprocess_translateCalls_iff (by decide)).mpr (by decide +kernel)

/-- A call to the start of the chunk comes back with another operand. -/
theorem start_call_is_lost :
    ¬ ∀ data : List UInt8, data.length ≤ 32768 →
      postprocess wimE8TranslationSize 0 (translateCalls wimE8TranslationSize data) = data := by
  intro undone
  have changed : postprocess wimE8TranslationSize 0
      (translateCalls wimE8TranslationSize [0xE8, 0, 0, 0, 0, 1, 2, 3, 4, 5, 6]) =
        0xE8 :: leI32 12000000 ++ [1, 2, 3, 4, 5, 6] := by decide +kernel
  have same := undone [0xE8, 0, 0, 0, 0, 1, 2, 3, 4, 5, 6] (by decide)
  rw [changed] at same
  exact absurd same (by decide +kernel)

end Wim

end ZManager
