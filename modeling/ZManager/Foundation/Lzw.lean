import Mathlib.Data.List.Basic
import Mathlib.Data.List.Induction
import Mathlib.Data.List.Infix

/-! # LZW

The decoder keeps a dictionary of strings. The codes of the literals come first;
every further code adds the string before it, extended by one symbol. A table
keeps a dictionary as chains: an entry names the code of its string without the
last symbol, and that symbol.
-/

namespace ZManager.Lzw

variable {α : Type*}

variable {sequence : List Nat} {code parent : Nat}

/-! ## The dictionary -/

/-- The codes of a stream and the strings of the literals. -/
structure Codes (α : Type*) where
  literals : Nat
  literal : Nat → α
  /-- The first code that is not assigned from the start. -/
  first : Nat
  resetCode : Option Nat
  /-- Codes from here on are never assigned. -/
  capacity : Nat

/-- The strings added so far and the string of the code before. -/
structure Dictionary (α : Type*) where
  entries : List (List α)
  old : Option (List α)

/-- Nothing is added yet. -/
def Dictionary.empty : Dictionary α := ⟨[], none⟩

variable (codes : Codes α)

/-- The code of the next string that is added. -/
def Codes.next (dictionary : Dictionary α) : Nat := codes.first + dictionary.entries.length

def Codes.lookup (dictionary : Dictionary α) (code : Nat) : Option (List α) :=
  if code < codes.literals then some [codes.literal code]
  else if code < codes.first then none
  else dictionary.entries[code - codes.first]?

/-- The string that is added behind an old one when the given string comes next. -/
def extended (old : List α) : List α → List α
  | symbol :: _ => old ++ [symbol]
  | [] => old

/-- The string of a code. The code that is just being added stands for the string
before it, extended by its own first symbol. -/
def Codes.meaning (dictionary : Dictionary α) (code : Nat) : Option (List α) :=
  match codes.lookup dictionary code, dictionary.old with
  | some string, _ => some string
  | none, some old =>
    if code = codes.next dictionary ∧ code < codes.capacity then some (extended old old)
    else none
  | none, none => none

/-- The dictionary behind a code of the given string. -/
def Codes.add (dictionary : Dictionary α) (string : List α) : Dictionary α where
  entries :=
    match dictionary.old with
    | some old =>
      if codes.next dictionary < codes.capacity then dictionary.entries ++ [extended old string]
      else dictionary.entries
    | none => dictionary.entries
  old := some string

def Codes.step (dictionary : Dictionary α) (code : Nat) : Option (List α × Dictionary α) :=
  if codes.resetCode = some code then some ([], .empty)
  else (codes.meaning dictionary code).map fun string => (string, codes.add dictionary string)

/-- What a sequence of codes decodes to, unless one of them is undefined. -/
def Codes.run (sequence : List Nat) : Option (List α × Dictionary α) :=
  sequence.foldl (fun decoded code => decoded.bind fun (bytes, dictionary) =>
    (codes.step dictionary code).map fun (string, dictionary) => (bytes ++ string, dictionary))
    (some ([], .empty))

def Codes.decode (sequence : List Nat) : Option (List α) := (codes.run sequence).map (·.1)

theorem Codes.run_concat (sequence : List Nat) (code : Nat) :
    codes.run (sequence ++ [code]) = (codes.run sequence).bind fun (bytes, dictionary) =>
      (codes.step dictionary code).map fun (string, dictionary) =>
        (bytes ++ string, dictionary) := by
  unfold run
  rw [List.foldl_append]
  rfl

variable {codes} in
theorem Codes.run_concat_reset {bytes : List α} {dictionary : Dictionary α}
    (ran : codes.run sequence = some (bytes, dictionary)) (reset : codes.resetCode = some code) :
    codes.run (sequence ++ [code]) = some (bytes, .empty) := by
  rw [codes.run_concat, ran]
  dsimp only [Option.bind_some]
  unfold step
  rw [if_pos reset, Option.map_some, List.append_nil]

variable {codes} in
theorem Codes.run_concat_meaning {bytes string : List α} {dictionary : Dictionary α}
    (ran : codes.run sequence = some (bytes, dictionary)) (plain : codes.resetCode ≠ some code)
    (meaning : codes.meaning dictionary code = some string) :
    codes.run (sequence ++ [code]) = some (bytes ++ string, codes.add dictionary string) := by
  rw [codes.run_concat, ran]
  dsimp only [Option.bind_some]
  unfold step
  rw [if_neg plain, meaning]
  rfl

/-! ## The codes without the strings -/

/-- The next code that is assigned, and whether there was a code before. -/
structure Count where
  next : Nat
  started : Bool

def Codes.initialCount : Count := ⟨codes.first, false⟩

/-- A code is assigned or is just being added. -/
def Codes.Assigned (count : Count) (code : Nat) : Prop :=
  code < codes.literals ∨ (codes.first ≤ code ∧ code < count.next) ∨
    (code = count.next ∧ count.started = true ∧ code < codes.capacity)

instance (count : Count) (code : Nat) : Decidable (codes.Assigned count code) :=
  inferInstanceAs (Decidable (_ ∨ _ ∨ _))

/-- A code is the one that would be added, were there room for it. -/
def Codes.Overruns (count : Count) (code : Nat) : Prop :=
  code = count.next ∧ count.started = true ∧ codes.capacity ≤ code

instance (count : Count) (code : Nat) : Decidable (codes.Overruns count code) :=
  inferInstanceAs (Decidable (_ ∧ _ ∧ _))

def Codes.counted (count : Count) (code : Nat) : Count :=
  if codes.resetCode = some code then codes.initialCount
  else ⟨if count.started = true ∧ count.next < codes.capacity then count.next + 1 else count.next,
    true⟩

def Codes.count (sequence : List Nat) : Count := sequence.foldl codes.counted codes.initialCount

/-- All codes of a sequence but resets meet a condition where they stand. -/
def Codes.Every (condition : Count → Nat → Prop) (sequence : List Nat) : Prop :=
  ∀ front code, front ++ [code] <+: sequence →
    codes.resetCode = some code ∨ condition (codes.count front) code

theorem Codes.count_concat (sequence : List Nat) (code : Nat) :
    codes.count (sequence ++ [code]) = codes.counted (codes.count sequence) code := by
  unfold count
  rw [List.foldl_append]
  rfl

theorem Codes.every_nil (condition : Count → Nat → Prop) : codes.Every condition [] := by
  intro front code starts
  have short := starts.length_le
  rw [List.length_append] at short
  exact absurd short (by simp)

theorem Codes.every_concat (condition : Count → Nat → Prop) (sequence : List Nat) (code : Nat) :
    codes.Every condition (sequence ++ [code]) ↔
      codes.Every condition sequence ∧
        (codes.resetCode = some code ∨ condition (codes.count sequence) code) := by
  constructor
  · intro every
    exact ⟨fun front code starts => every front code (starts.trans (List.prefix_append _ _)),
      every sequence code (List.prefix_refl _)⟩
  · rintro ⟨every, last⟩ front code' starts
    rw [List.prefix_concat_iff] at starts
    rcases starts with same | starts
    · obtain ⟨rfl, one⟩ := List.append_inj' same rfl
      cases one
      exact last
    · exact every front code' starts

theorem Codes.first_le_next (sequence : List Nat) :
    codes.first ≤ (codes.count sequence).next := by
  induction sequence using List.reverseRecOn with
  | nil => exact Nat.le_refl _
  | append_singleton sequence code ih =>
    rw [codes.count_concat]
    unfold counted
    split
    · exact Nat.le_refl _
    · dsimp only
      split <;> omega

variable {codes}

theorem Codes.Every.imp {condition condition' : Count → Nat → Prop}
    (every : codes.Every condition sequence)
    (weaker : ∀ front code, condition (codes.count front) code →
      condition' (codes.count front) code) :
    codes.Every condition' sequence :=
  fun front code starts => (every front code starts).imp_right (weaker front code)

/-- The codes of a run are counted as its strings are. -/
structure Counted (codes : Codes α) (count : Count) (dictionary : Dictionary α) : Prop where
  next : codes.next dictionary = count.next
  started : dictionary.old.isSome = count.started

theorem Counted.empty : Counted codes codes.initialCount .empty := ⟨rfl, rfl⟩

variable {count : Count} {dictionary : Dictionary α}

theorem Counted.meaning_isSome_iff (counted : Counted codes count dictionary) (code : Nat) :
    (codes.meaning dictionary code).isSome ↔ codes.Assigned count code := by
  obtain ⟨next, started⟩ := counted
  unfold Codes.next at next
  unfold Codes.meaning Codes.lookup Codes.Assigned Codes.next
  rw [next]
  by_cases literal : code < codes.literals
  · rw [if_pos literal]
    exact ⟨fun _ => .inl literal, fun _ => rfl⟩
  rw [if_neg literal]
  by_cases reserved : code < codes.first
  · rw [if_pos reserved]
    have outside : ¬(code = count.next ∧ code < codes.capacity) := by omega
    cases old : dictionary.old with
    | none => simp only [Option.isSome_none, Bool.false_eq_true, false_iff]; omega
    | some string =>
      dsimp only
      rw [if_neg outside]
      simp only [Option.isSome_none, Bool.false_eq_true, false_iff]
      omega
  rw [if_neg reserved]
  by_cases added : code < count.next
  · rw [List.getElem?_eq_getElem (by omega)]
    exact ⟨fun _ => .inr (.inl ⟨by omega, added⟩), fun _ => rfl⟩
  rw [List.getElem?_eq_none (by omega)]
  cases old : dictionary.old with
  | none =>
    rw [old] at started
    have fresh : count.started = false := started.symm
    simp only [Option.isSome_none, Bool.false_eq_true, false_iff, fresh, false_and, and_false,
      or_false]
    omega
  | some string =>
    rw [old] at started
    have begun : count.started = true := started.symm
    dsimp only
    by_cases adding : code = count.next ∧ code < codes.capacity
    · rw [if_pos adding]
      exact ⟨fun _ => .inr (.inr ⟨adding.1, begun, adding.2⟩), fun _ => rfl⟩
    · rw [if_neg adding]
      simp only [Option.isSome_none, Bool.false_eq_true, false_iff]
      omega

theorem Counted.add (counted : Counted codes count dictionary)
    (plain : codes.resetCode ≠ some code) (string : List α) :
    Counted codes (codes.counted count code) (codes.add dictionary string) := by
  obtain ⟨next, started⟩ := counted
  unfold Codes.counted
  rw [if_neg plain]
  refine ⟨?_, rfl⟩
  unfold Codes.next at next
  unfold Codes.next Codes.add Codes.next
  rw [next]
  cases old : dictionary.old with
  | none =>
    rw [old] at started
    have fresh : count.started = false := started.symm
    rw [if_neg (by rw [fresh]; exact fun both => absurd both.1 Bool.false_ne_true)]
    exact next
  | some string =>
    rw [old] at started
    have begun : count.started = true := started.symm
    dsimp only
    by_cases room : count.next < codes.capacity
    · rw [if_pos room, if_pos ⟨begun, room⟩, List.length_append, ← Nat.add_assoc, next]
      rfl
    · rw [if_neg room, if_neg fun both => room both.2]
      exact next

/-- A sequence decodes when each of its codes is assigned where it stands. -/
theorem Codes.run_spec (sequence : List Nat) :
    (codes.run sequence = none ∧ ¬codes.Every codes.Assigned sequence) ∨
      ∃ bytes dictionary, codes.run sequence = some (bytes, dictionary) ∧
        codes.Every codes.Assigned sequence ∧ Counted codes (codes.count sequence) dictionary := by
  induction sequence using List.reverseRecOn with
  | nil => exact .inr ⟨[], .empty, rfl, codes.every_nil _, .empty⟩
  | append_singleton sequence code ih =>
    rw [codes.run_concat, codes.every_concat, codes.count_concat]
    rcases ih with ⟨failed, undefined⟩ | ⟨bytes, dictionary, ran, every, counted⟩
    · rw [failed]
      exact .inl ⟨rfl, fun both => undefined both.1⟩
    rw [ran]
    dsimp only [Option.bind_some]
    unfold step
    by_cases reset : codes.resetCode = some code
    · rw [if_pos reset]
      refine .inr ⟨_, _, rfl, ⟨every, .inl reset⟩, ?_⟩
      rw [Codes.counted, if_pos reset]
      exact .empty
    rw [if_neg reset]
    have assigned := counted.meaning_isSome_iff code
    cases meaning : codes.meaning dictionary code with
    | none =>
      rw [meaning] at assigned
      refine .inl ⟨rfl, fun both => ?_⟩
      exact absurd (assigned.mpr (both.2.resolve_left reset)) Bool.false_ne_true
    | some string =>
      rw [meaning] at assigned
      exact .inr ⟨_, _, rfl, ⟨every, .inr (assigned.mp rfl)⟩, counted.add reset string⟩

/-! ## Tables -/

/-- The entries behind the literals, by the code of the string without its last symbol
and by that symbol. -/
structure Table (α : Type*) where
  parent : Nat → Nat
  symbol : Nat → α

/-- Every chain goes down to a literal. -/
def Table.Descends (literals : Nat) (table : Table α) : Prop :=
  ∀ code, literals ≤ code → table.parent code < code

def Table.set (table : Table α) (code parent : Nat) (symbol : α) : Table α where
  parent := fun other => if other = code then parent else table.parent other
  symbol := fun other => if other = code then symbol else table.symbol other

variable (codes) in
/-- The string at the end of a chain. -/
def Table.spell (table : Table α) (code : Nat) : List α :=
  if _below : codes.literals ≤ code ∧ table.parent code < code then
    Table.spell table (table.parent code) ++ [table.symbol code]
  else [codes.literal code]
termination_by code
decreasing_by exact _below.2

variable {table : Table α}

theorem Table.Descends.set {literals : Nat} (descends : table.Descends literals)
    (below : parent < code) (symbol : α) :
    (table.set code parent symbol).Descends literals := by
  intro other behind
  unfold Table.set
  dsimp only
  split
  next same => rwa [same]
  · exact descends other behind

theorem Table.spell_literal (table : Table α) (literal : code < codes.literals) :
    table.spell codes code = [codes.literal code] := by
  rw [Table.spell, dif_neg (by omega)]

theorem Table.Descends.spell_eq (descends : table.Descends codes.literals)
    (behind : codes.literals ≤ code) :
    table.spell codes code = table.spell codes (table.parent code) ++ [table.symbol code] := by
  rw [Table.spell, dif_pos ⟨behind, descends code behind⟩]

theorem Table.spell_ne_nil (table : Table α) (code : Nat) : table.spell codes code ≠ [] := by
  rw [Table.spell]
  split
  · exact List.append_ne_nil_of_right_ne_nil _ (List.cons_ne_nil _ _)
  · exact List.cons_ne_nil _ _

/-- A string is at most as long as its chain may be. -/
theorem Table.Descends.length_spell_le (descends : table.Descends codes.literals) (code : Nat) :
    (table.spell codes code).length ≤ code - codes.literals + 2 := by
  induction code using Nat.strongRecOn with
  | _ code ih =>
    by_cases behind : codes.literals ≤ code
    · have below := descends code behind
      rw [descends.spell_eq behind, List.length_append, List.length_singleton]
      by_cases parent : codes.literals ≤ table.parent code
      · have shorter := ih _ below
        omega
      · rw [table.spell_literal (by omega), List.length_singleton]
        omega
    · rw [table.spell_literal (by omega), List.length_singleton]
      omega

/-- The strings below an entry do not depend on it. -/
theorem Table.spell_set (table : Table α) (symbol : α) {other : Nat} (below : other < code) :
    (table.set code parent symbol).spell codes other =
      table.spell codes other := by
  induction other using Nat.strongRecOn with
  | _ other ih =>
    have parentEq : (table.set code parent symbol).parent other = table.parent other :=
      if_neg (by omega)
    have symbolEq : (table.set code parent symbol).symbol other = table.symbol other :=
      if_neg (by omega)
    rw [Table.spell, parentEq, symbolEq]
    conv_rhs => rw [Table.spell]
    split
    next inside => rw [ih _ inside.2 (by omega)]
    · rfl

theorem Table.Descends.spell_set_self (descends : table.Descends codes.literals)
    (behind : codes.literals ≤ code) (below : parent < code) (symbol : α) :
    (table.set code parent symbol).spell codes code = table.spell codes parent ++ [symbol] := by
  have parentEq : (table.set code parent symbol).parent code = parent := if_pos rfl
  have symbolEq : (table.set code parent symbol).symbol code = symbol := if_pos rfl
  rw [(descends.set below symbol).spell_eq behind, parentEq, symbolEq,
    table.spell_set symbol below]

/-- A table with the next code and the code before keeps a dictionary. -/
structure Keeps (codes : Codes α) (table : Table α) (next : Nat) (old : Option Nat)
    (dictionary : Dictionary α) : Prop where
  next_eq : codes.next dictionary = next
  entries : ∀ code, codes.first ≤ code → code < next →
    dictionary.entries[code - codes.first]? = some (table.spell codes code)
  old_eq : dictionary.old = old.map (table.spell codes)
  old_lt : ∀ code ∈ old, code < next

variable {next : Nat} {old : Option Nat}

theorem Keeps.empty (table : Table α) : Keeps codes table codes.first none .empty where
  next_eq := rfl
  entries := by
    intro code behind below
    omega
  old_eq := rfl
  old_lt := nofun

section

variable (keeps : Keeps codes table next old dictionary)
include keeps

/-- An assigned code stands for the string that its chain spells. -/
theorem Keeps.meaning_of_lt (assigned : code < codes.literals ∨ codes.first ≤ code)
    (below : code < next) :
        codes.meaning dictionary code = some (table.spell codes code) := by
  have found : codes.lookup dictionary code = some (table.spell codes code) := by
    unfold Codes.lookup
    by_cases literal : code < codes.literals
    · rw [if_pos literal, table.spell_literal literal]
    · rw [if_neg literal, if_neg (by omega), keeps.entries code (by omega) below]
  unfold Codes.meaning
  rw [found]

/-- The code that is just being added stands for the old string and its first symbol. -/
theorem Keeps.meaning_next (ordered : codes.literals ≤ codes.first) (before : code ∈ old)
    (room : next < codes.capacity) :
    codes.meaning dictionary next =
      some (extended (table.spell codes code) (table.spell codes code)) := by
  have behind : codes.first ≤ next := by
    rw [← keeps.next_eq]
    exact Nat.le_add_right _ _
  have length : dictionary.entries.length ≤ next - codes.first := by
    rw [← keeps.next_eq]
    unfold Codes.next
    omega
  have unfound : codes.lookup dictionary next = none := by
    unfold Codes.lookup
    rw [if_neg (by omega), if_neg (by omega), List.getElem?_eq_none length]
  have string : dictionary.old = some (table.spell codes code) := by
    rw [keeps.old_eq, before]
    rfl
  unfold Codes.meaning
  rw [unfound, string]
  dsimp only
  rw [if_pos ⟨keeps.next_eq.symm, room⟩]

/-- A new entry keeps the extended dictionary. -/
theorem Keeps.add_entry (descends : table.Descends codes.literals)
    (ordered : codes.literals ≤ codes.first) {before : Nat} (known : before ∈ old)
    (room : next < codes.capacity) {symbol : α} {string rest : List α}
    (begins : string = symbol :: rest)
    (spelled : (table.set next before symbol).spell codes code = string) (below : code ≤ next) :
    Keeps codes (table.set next before symbol) (next + 1) (some code)
      (codes.add dictionary string) := by
  have behind : codes.first ≤ next := by
    rw [← keeps.next_eq]
    exact Nat.le_add_right _ _
  have lower := keeps.old_lt before known
  have length : dictionary.entries.length = next - codes.first := by
    rw [← keeps.next_eq]
    unfold Codes.next
    omega
  have entries : (codes.add dictionary string).entries =
      dictionary.entries ++ [table.spell codes before ++ [symbol]] := by
    unfold Codes.add
    rw [keeps.old_eq, known, begins]
    change (if codes.next dictionary < codes.capacity then _ else _) = _
    rw [keeps.next_eq, if_pos room]
    rfl
  constructor
  · unfold Codes.next
    rw [entries, List.length_append, length, List.length_singleton]
    omega
  · intro other first last
    rw [entries]
    by_cases latest : other = next
    · subst latest
      rw [List.getElem?_append_right (by omega), length, Nat.sub_self,
        descends.spell_set_self (by omega) lower symbol]
      rfl
    · rw [List.getElem?_append_left (by omega), keeps.entries other first (by omega),
        table.spell_set symbol (by omega)]
  · rw [Option.map_some, spelled]
    rfl
  · intro other same
    rw [Option.mem_some_iff] at same
    omega

/-- Without a new entry only the old string changes. -/
theorem Keeps.keep_entries (full : old = none ∨ codes.capacity ≤ next) (below : code < next) :
    Keeps codes table next (some code) (codes.add dictionary (table.spell codes code)) := by
  have entries : (codes.add dictionary (table.spell codes code)).entries =
      dictionary.entries := by
    unfold Codes.add
    rcases full with rfl | full
    · rw [keeps.old_eq]
      rfl
    · cases dictionary.old with
      | none => rfl
      | some string =>
        dsimp only
        rw [keeps.next_eq, if_neg (by omega)]
  constructor
  · rw [← keeps.next_eq]
    unfold Codes.next
    rw [entries]
  · intro other first last
    rw [entries, keeps.entries other first last]
  · rfl
  · intro other same
    rw [Option.mem_some_iff] at same
    omega

end

end ZManager.Lzw
