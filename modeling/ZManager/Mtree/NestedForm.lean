import ZManager.Foundation.Text
import ZManager.Mtree.Manifest

/-! # The relative form of a manifest

A tree is written with one line for each entry: a directory's line is followed by those of its
children and a `..` line, and the keywords of an entry stand on its line or are in force from
directives before it. Parsing gives the entries back, unless a name or a link target ends in a
backslash (`parse_text_iff`): the decoder misses the double backslash at the end of a word.
-/

namespace ZManager

namespace Mtree

variable {byte : UInt8} {lines : List (List UInt8)}

/-! ## Escaping -/

/-- Whitespace, control and non-ASCII bytes, `#`, `/` and `=`. -/
def needsEscape (byte : UInt8) : Bool :=
  byte ≤ 0x20 || 0x7f ≤ byte || byte = 0x23 || byte = slash || byte = 0x3d

def escapeByte (byte : UInt8) : List UInt8 :=
  if byte = backslash then [backslash, backslash]
  else if needsEscape byte then
    [backslash, 0x30 + byte / 64, 0x30 + byte / 8 % 8, 0x30 + byte % 8]
  else [byte]

def escape (name : List UInt8) : List UInt8 := name.flatMap escapeByte

theorem forall_byte {p : UInt8 → Prop} (all : ∀ value < 256, p (UInt8.ofNat value))
    (byte : UInt8) : p byte := by
  rw [← UInt8.ofNat_toNat (x := byte)]
  exact all byte.toNat byte.toNat_lt

/-- An octal triple is decoded to its byte. -/
theorem triple_decoded (byte : UInt8) :
    isOctalDigit (0x30 + byte / 64) ∧ isOctalDigit (0x30 + byte / 8 % 8) ∧
      isOctalDigit (0x30 + byte % 8) ∧ 0x30 + byte / 64 ≠ backslash ∧
      (0x30 + byte / 64 - 0x30) * 64 + (0x30 + byte / 8 % 8 - 0x30) * 8 +
        (0x30 + byte % 8 - 0x30) = byte := by
  revert byte
  apply forall_byte
  decide +kernel

/-- A text as it is decoded once it was escaped. -/
def asDecoded (text : List UInt8) : List UInt8 := unescape (escape text)

/-- A byte is decoded, but a backslash only if more follows. -/
theorem unescapeFrom_escapeByte {rest : List UInt8} (more : byte = backslash → rest ≠ []) :
    unescapeFrom 0 (escapeByte byte ++ rest) = byte :: unescapeFrom 0 rest := by
  unfold escapeByte
  by_cases double : byte = backslash
  · subst double
    have behind := List.length_pos_iff.mpr (more rfl)
    rw [if_pos rfl]
    simp only [List.cons_append, List.nil_append]
    rw [unescapeFrom, if_pos ⟨rfl, by simp only [List.length_cons]; omega⟩, List.head?_cons,
      if_pos rfl]
    rfl
  rw [if_neg double]
  by_cases needed : needsEscape byte
  · obtain ⟨high, middle, low, single, value⟩ := triple_decoded byte
    rw [if_pos needed]
    simp only [List.cons_append, List.nil_append]
    rw [unescapeFrom, if_pos ⟨rfl, by simp only [List.length_cons]; omega⟩, List.head?_cons,
      if_neg fun same => single (Option.some.inj same), if_pos]
    · simp only [List.getD_cons_zero, List.getD_cons_succ]
      rw [value]
      rfl
    · refine ⟨by simp only [List.length_cons]; omega, ?_⟩
      simp only [List.take_succ_cons, List.take_zero, List.all_cons, high, middle, low,
        List.all_nil, Bool.and_self]
  · rw [if_neg needed, List.singleton_append, unescapeFrom, if_neg fun both => double both.1]

theorem escape_cons (byte : UInt8) (name : List UInt8) :
    escape (byte :: name) = escapeByte byte ++ escape name :=
  List.flatMap_cons

theorem escapeByte_ne_nil (byte : UInt8) : escapeByte byte ≠ [] := by
  unfold escapeByte
  split_ifs
  · exact List.cons_ne_nil _ _
  · exact List.cons_ne_nil _ _
  · exact List.cons_ne_nil _ _

theorem escape_ne_nil {name : List UInt8} (nonempty : name ≠ []) : escape name ≠ [] := by
  obtain ⟨byte, rest, rfl⟩ := List.exists_cons_of_ne_nil nonempty
  rw [escape_cons]
  exact List.append_ne_nil_of_left_ne_nil (escapeByte_ne_nil byte) _

/-- A backslash at the end is read twice, and all else is decoded. -/
theorem unescape_escape (name : List UInt8) :
    unescape (escape name) =
      if name.getLast? = some backslash then name ++ [backslash] else name := by
  unfold unescape
  induction name with
  | nil => rfl
  | cons byte rest ih =>
    rw [escape_cons]
    by_cases last : rest = []
    · subst last
      by_cases double : byte = backslash
      · subst double
        rfl
      · rw [unescapeFrom_escapeByte fun same => absurd same double, List.getLast?_singleton,
          if_neg fun same => double (Option.some.inj same)]
        rfl
    · rw [unescapeFrom_escapeByte fun _ => escape_ne_nil last, ih,
        List.getLast?_cons_of_ne_nil last]
      split_ifs
      · rfl
      · rfl

/-- A name is decoded if and only if it does not end in a backslash. -/
theorem unescape_escape_eq_iff (name : List UInt8) :
    unescape (escape name) = name ↔ name.getLast? ≠ some backslash := by
  rw [unescape_escape]
  split_ifs with ends
  · simp [ends]
  · simp [ends]

/-- What is written as it is. -/
def IsVisible (byte : UInt8) : Prop := 0x21 ≤ byte ∧ byte ≤ 0x7e

instance (byte : UInt8) : Decidable (IsVisible byte) := by
  unfold IsVisible
  infer_instance

theorem mem_escape {name : List UInt8} {byte : UInt8} (member : byte ∈ escape name) :
    IsVisible byte ∧ byte ≠ slash ∧ byte ≠ 0x23 := by
  have all : ∀ source, ((escapeByte source).all fun byte =>
      decide (IsVisible byte ∧ byte ≠ slash ∧ byte ≠ 0x23)) = true := by
    apply forall_byte
    decide +kernel
  obtain ⟨source, -, inside⟩ := List.mem_flatMap.mp member
  exact of_decide_eq_true (List.all_eq_true.mp (all source) byte inside)

/-! ## Keywords -/

/-- The keywords that are read. -/
inductive Key where
  | type
  | size
  | link

def Key.name : Key → List UInt8
  | type => ascii "type"
  | size => ascii "size"
  | link => ascii "link"

/-- A keyword with its value. -/
inductive Keyword where
  | type (fileType : FileType)
  | size (bytes : Nat) (fits : bytes < 2 ^ 64)
  | link (target : List UInt8)

def Keyword.word : Keyword → List UInt8
  | .type fileType => Key.type.name ++ 0x3d :: ascii fileType.asStr
  | .size bytes _ => Key.size.name ++ 0x3d :: utf8Bytes (Nat.toDigits 10 bytes)
  | .link target => Key.link.name ++ 0x3d :: escape target

/-- What is told of an entry. -/
structure Attributes where
  fileType : Option FileType := none
  size : Option Nat := none
  link : Option (List UInt8) := none

namespace Attributes

def given (attributes : Attributes) : Keyword → Attributes
  | .type fileType => { attributes with fileType := some fileType }
  | .size bytes _ => { attributes with size := some bytes }
  | .link target => { attributes with link := some target }

def dropped (attributes : Attributes) : Key → Attributes
  | .type => { attributes with fileType := none }
  | .size => { attributes with size := none }
  | .link => { attributes with link := none }

/-- The keywords as the parser holds them. -/
def toDefaults (attributes : Attributes) : Defaults :=
  ⟨attributes.fileType, attributes.size, attributes.link.map escape⟩

end Attributes

/-- A `/set` or `/unset` line. -/
inductive Directive where
  | set (keywords : List Keyword)
  | unset (keys : List Key)

def Directive.apply (inForce : Attributes) : Directive → Attributes
  | set keywords => keywords.foldl Attributes.given inForce
  | unset keys => keys.foldl Attributes.dropped inForce

/-- The words of a line, with a space between them. -/
def line (words : List (List UInt8)) : List UInt8 := [0x20].intercalate words

def Directive.line : Directive → List UInt8
  | set keywords => Mtree.line (ascii "/set" :: keywords.map Keyword.word)
  | unset keys => Mtree.line (ascii "/unset" :: keys.map Key.name)

/-! ## Trees -/

/-- The name of an entry below the root. -/
abbrev EntryName := { name : List UInt8 // name ≠ [] ∧ name ≠ ascii "." ∧ name ≠ ascii ".." }

/-- The children of a directory in their order. -/
inductive Forest where
  | nil
  | leaf (name : EntryName) (attributes : Attributes)
      (kind : attributes.fileType ≠ some .directory) (rest : Forest)
  | directory (name : EntryName) (attributes : Attributes)
      (kind : attributes.fileType = some .directory) (children rest : Forest)

/-- A directory with all below it. -/
structure Tree where
  attributes : Attributes
  kind : attributes.fileType = some .directory
  children : Forest

variable {tree : Tree}

/-- The record of an entry below some directories, with its texts spelled in a way. -/
def recordAt (spelled : List UInt8 → List UInt8) (above : List (List UInt8))
    (name : List UInt8) (attributes : Attributes) : Record :=
  ⟨[slash].intercalate (above ++ [spelled name]), attributes.fileType, attributes.size,
    attributes.link.map spelled⟩

/-- The records of the entries in pre-order. -/
def Forest.recordsAs (spelled : List UInt8 → List UInt8) :
    Forest → (above : List (List UInt8)) → List Record
  | nil, _ => []
  | leaf name attributes _ rest, above =>
    recordAt spelled above name attributes :: rest.recordsAs spelled above
  | directory name attributes _ children rest, above =>
    recordAt spelled above name attributes ::
      (children.recordsAs spelled (above ++ [spelled name]) ++ rest.recordsAs spelled above)

def Tree.recordsAs (spelled : List UInt8 → List UInt8) (tree : Tree) : List Record :=
  ⟨ascii ".", tree.attributes.fileType, tree.attributes.size,
    tree.attributes.link.map spelled⟩ :: tree.children.recordsAs spelled []

/-- **The records of a tree.** -/
def Tree.records (tree : Tree) : List Record := tree.recordsAs id

/-- The names and link targets of the entries. -/
def Forest.texts : Forest → List (List UInt8)
  | nil => []
  | leaf name attributes _ rest => name.1 :: (attributes.link.toList ++ rest.texts)
  | directory name attributes _ children rest =>
    name.1 :: (attributes.link.toList ++ (children.texts ++ rest.texts))

def Tree.texts (tree : Tree) : List (List UInt8) :=
  tree.attributes.link.toList ++ tree.children.texts

/-! ## Written trees -/

def entryLine (name : List UInt8) (keywords : List Keyword) : List UInt8 :=
  line (name :: keywords.map Keyword.word)

/-- The lines write a forest from some keywords in force on, and leave others in force. -/
inductive Forest.Written : Attributes → Forest → List (List UInt8) → Attributes → Prop where
  | nil {inForce : Attributes} : Written inForce nil [] inForce
  | directive {inForce after : Attributes} {forest : Forest} {lines : List (List UInt8)}
      (directive : Directive) (written : Written (directive.apply inForce) forest lines after) :
      Written inForce forest (directive.line :: lines) after
  | leaf {inForce after attributes : Attributes} {name : EntryName}
      {kind : attributes.fileType ≠ some .directory} {rest : Forest}
      {lines : List (List UInt8)} (keywords : List Keyword)
      (given : keywords.foldl Attributes.given inForce = attributes)
      (written : Written inForce rest lines after) :
      Written inForce (leaf name attributes kind rest)
        (entryLine (escape name) keywords :: lines) after
  | directory {inForce between after attributes : Attributes} {name : EntryName}
      {kind : attributes.fileType = some .directory} {children rest : Forest}
      {inside lines : List (List UInt8)} (keywords : List Keyword)
      (given : keywords.foldl Attributes.given inForce = attributes)
      (entered : Written inForce children inside between)
      (written : Written between rest lines after) :
      Written inForce (directory name attributes kind children rest)
        (entryLine (escape name) keywords :: (inside ++ ascii ".." :: lines)) after

/-- The lines write a tree; a `..` line for the root may be left out. -/
inductive Tree.Written (tree : Tree) : Attributes → List (List UInt8) → Prop where
  | directive {inForce : Attributes} {lines : List (List UInt8)} (directive : Directive)
      (written : Written tree (directive.apply inForce) lines) :
      Written tree inForce (directive.line :: lines)
  | root {inForce after : Attributes} {lines : List (List UInt8)} (keywords : List Keyword)
      (closed : Bool) (given : keywords.foldl Attributes.given inForce = tree.attributes)
      (written : tree.children.Written inForce lines after) :
      Written tree inForce
        (entryLine (ascii ".") keywords :: (lines ++ if closed then [ascii ".."] else []))

/-- Every line ends in a line feed. -/
def text (lines : List (List UInt8)) : List UInt8 := lines.flatMap (· ++ [0x0a])

/-! ## Words are found again -/

/-- What stands between blanks. -/
def IsWord (word : List UInt8) : Prop := word ≠ [] ∧ ∀ byte ∈ word, IsVisible byte

theorem isBlank_of_isVisible (visible : IsVisible byte) : isBlank byte = false := by
  revert byte
  apply forall_byte
  decide +kernel

theorem words_line {ws : List (List UInt8)} (all : ∀ word ∈ ws, IsWord word) :
    words (line ws) = ws := by
  unfold words line
  induction ws with
  | nil => rfl
  | cons word rest ih =>
    obtain ⟨⟨nonempty, visible⟩, others⟩ := List.forall_mem_cons.mp all
    have solid := fun byte member => isBlank_of_isVisible (visible byte member)
    cases rest with
    | nil =>
      rw [List.intercalate_singleton, List.splitOnP_eq_singleton solid]
      simp [nonempty]
    | cons next rest =>
      rw [List.intercalate_cons_cons, List.append_assoc, List.singleton_append,
        List.splitOnP_append_cons_of_forall_mem solid _ rfl, List.filter_cons_of_pos, ih others]
      simpa using nonempty

theorem isWord_escape {name : List UInt8} (nonempty : name ≠ []) : IsWord (escape name) :=
  ⟨escape_ne_nil nonempty, fun _ member => (mem_escape member).1⟩

theorem isWord_of_all {word : List UInt8} (nonempty : word ≠ [])
    (visible : (word.all fun byte => decide (IsVisible byte)) = true) : IsWord word :=
  ⟨nonempty, fun byte member => of_decide_eq_true (List.all_eq_true.mp visible byte member)⟩

theorem isWord_name (key : Key) : IsWord key.name := by
  cases key with
  | type => exact isWord_of_all (by decide) (by decide)
  | size => exact isWord_of_all (by decide) (by decide)
  | link => exact isWord_of_all (by decide) (by decide)

theorem isWord_set : IsWord (ascii "/set") := isWord_of_all (by decide) (by decide)

theorem isWord_unset : IsWord (ascii "/unset") := isWord_of_all (by decide) (by decide)

theorem isWord_root : IsWord (ascii ".") := isWord_of_all (by decide) (by decide)

theorem isVisible_of_mem_decimal {number : Nat}
    (member : byte ∈ utf8Bytes (Nat.toDigits 10 number)) : IsVisible byte := by
  obtain ⟨digit, inside, here⟩ := List.mem_flatMap.mp member
  have is := Text.isDigit_of_mem_decimal inside
  simp only [Char.isDigit, Bool.and_eq_true, decide_eq_true_eq, UInt32.le_iff_toNat_le] at is
  have all : ∀ value < 58, 48 ≤ value → ((String.utf8EncodeChar (Char.ofNat value)).all
      fun byte => decide (IsVisible byte)) = true := by decide +kernel
  rw [← Char.ofNat_toNat digit] at here
  exact of_decide_eq_true (List.all_eq_true.mp (all digit.toNat (Nat.lt_succ_of_le is.2) is.1)
    byte here)

theorem isWord_word (keyword : Keyword) : IsWord keyword.word := by
  have behind : ∀ (key : Key) {value : List UInt8}, (∀ byte ∈ value, IsVisible byte) →
      IsWord (key.name ++ 0x3d :: value) := by
    intro key value visible
    refine ⟨List.append_ne_nil_of_left_ne_nil (isWord_name key).1 _, fun byte member => ?_⟩
    rcases List.mem_append.mp member with front | member
    · exact (isWord_name key).2 byte front
    rcases List.mem_cons.mp member with rfl | inside
    · decide
    · exact visible byte inside
  cases keyword with
  | type fileType =>
    have visible : IsWord (ascii fileType.asStr) := by
      cases fileType <;> exact isWord_of_all (by decide) (by decide)
    exact behind .type visible.2
  | size bytes fits => exact behind .size fun byte member => isVisible_of_mem_decimal member
  | link target => exact behind .link fun byte member => (mem_escape member).1

/-! ## Keywords are found again -/

theorem parse_asStr (fileType : FileType) :
    FileType.parse (ascii fileType.asStr) = some fileType := by
  cases fileType <;> decide

theorem splitKeyword_append {key : List UInt8} (plain : ∀ byte ∈ key, byte ≠ 0x3d)
    (value : List UInt8) : splitKeyword (key ++ 0x3d :: value) = (key, some value) := by
  have found : (key ++ 0x3d :: value).findIdx? (· = 0x3d) = some key.length := by
    rw [List.findIdx?_append, List.findIdx?_eq_none_iff.mpr fun byte member => by
      simpa using plain byte member, List.findIdx?_cons]
    simp
  unfold splitKeyword
  rw [found]
  simp

theorem splitKeyword_name (key : Key) : splitKeyword key.name = (key.name, none) := by
  cases key <;> decide

theorem splitKeyword_value (key : Key) (value : List UInt8) :
    splitKeyword (key.name ++ 0x3d :: value) = (key.name, some value) := by
  have plain : (key.name.all fun byte => byte != 0x3d) = true := by
    cases key <;> decide
  exact splitKeyword_append (fun byte member =>
    bne_iff_ne.mp (List.all_eq_true.mp plain byte member)) value

section

variable (number : Nat) (inForce : Attributes)

/-- A written keyword is folded in. -/
theorem applyWord_word (keyword : Keyword) :
    applyWord number inForce.toDefaults keyword.word =
      .ok (inForce.given keyword).toDefaults := by
  unfold applyWord
  cases keyword with
  | type fileType =>
    rw [Keyword.word, splitKeyword_value]
    unfold applyKeyword
    rw [if_pos (by rfl : Key.type.name = ascii "type")]
    simp only [parse_asStr]
    rfl
  | size bytes fits =>
    rw [Keyword.word, splitKeyword_value]
    unfold applyKeyword
    rw [if_neg (by decide : Key.size.name ≠ ascii "type"),
      if_pos (by rfl : Key.size.name = ascii "size")]
    simp only [fromUtf8Lossy_utf8Bytes, u64FromStrRadix_toDigits fits]
    rfl
  | link target =>
    rw [Keyword.word, splitKeyword_value]
    unfold applyKeyword
    rw [if_neg (by decide : Key.link.name ≠ ascii "type"),
      if_neg (by decide : Key.link.name ≠ ascii "size"),
      if_pos (by rfl : Key.link.name = ascii "link")]
    rfl

theorem unsetWord_name (key : Key) :
    unsetWord inForce.toDefaults key.name = (inForce.dropped key).toDefaults := by
  unfold unsetWord
  rw [splitKeyword_name]
  cases key with
  | type => rw [if_pos (by decide)]; rfl
  | size => rw [if_neg (by decide), if_pos (by decide)]; rfl
  | link => rw [if_neg (by decide), if_neg (by decide), if_pos (by decide)]; rfl

theorem foldlM_applyWord (keywords : List Keyword) :
    (keywords.map Keyword.word).foldlM (applyWord number) inForce.toDefaults =
      .ok (keywords.foldl Attributes.given inForce).toDefaults := by
  induction keywords generalizing inForce with
  | nil => rfl
  | cons keyword rest ih =>
    rw [List.map_cons, List.foldlM_cons, applyWord_word]
    exact ih (inForce.given keyword)

theorem foldl_unsetWord (keys : List Key) :
    (keys.map Key.name).foldl unsetWord inForce.toDefaults =
      (keys.foldl Attributes.dropped inForce).toDefaults := by
  induction keys generalizing inForce with
  | nil => rfl
  | cons key rest ih =>
    rw [List.map_cons, List.foldl_cons, unsetWord_name]
    exact ih (inForce.dropped key)

end

/-! ## Lines -/

theorem isWord_of_mem_map {α : Type} {spelled : α → List UInt8} (all : ∀ x, IsWord (spelled x))
    {xs : List α} : ∀ word ∈ xs.map spelled, IsWord word := by
  intro word member
  obtain ⟨x, -, rfl⟩ := List.mem_map.mp member
  exact all x

section

variable {stack : List (List UInt8)} {records : List Record} {inForce : Attributes}

variable {keywords : List Keyword} {attributes : Attributes}

/-- The state with some keywords in force. -/
def stateWith (inForce : Attributes) (stack : List (List UInt8)) (records : List Record) : State :=
  ⟨inForce.toDefaults, stack, records⟩

theorem parseLine_directive (directive : Directive) (number : Nat) :
    parseLine (stateWith inForce stack records) number directive.line =
      .ok (stateWith (directive.apply inForce) stack records) := by
  unfold parseLine
  cases directive with
  | set keywords =>
    rw [Directive.line, words_line (List.forall_mem_cons.mpr
      ⟨isWord_set, isWord_of_mem_map isWord_word⟩)]
    simp only
    rw [if_neg (by decide), if_neg (by decide), if_pos (by decide)]
    unfold parseDirective
    rw [if_pos (by decide)]
    unfold stateWith
    simp only [foldlM_applyWord]
    rfl
  | unset keys =>
    rw [Directive.line, words_line (List.forall_mem_cons.mpr
      ⟨isWord_unset, isWord_of_mem_map isWord_name⟩)]
    simp only
    rw [if_neg (by decide), if_neg (by decide), if_pos (by decide)]
    unfold parseDirective
    rw [if_neg (by decide), if_pos (by decide)]
    unfold stateWith
    simp only [foldl_unsetWord]
    rfl

theorem parseLine_up (number : Nat) :
    parseLine (stateWith inForce stack records) number (ascii "..") =
      .ok (stateWith inForce stack.dropLast records) := by
  have alone : words (ascii "..") = [ascii ".."] := by decide
  unfold parseLine
  rw [alone]
  rfl

/-- Writing a name below the directories of the stack is joining them all. -/
theorem joinStack_eq (above : List (List UInt8)) (name : List UInt8) :
    joinStack above name = [slash].intercalate (above ++ [name]) := by
  unfold joinStack
  induction above with
  | nil => exact (List.intercalate_singleton ..).symm
  | cons first rest ih =>
    rw [List.flatMap_cons, List.append_assoc, ih, List.cons_append,
      List.intercalate_cons_of_ne_nil (by simp), List.append_assoc]

theorem parseRecord_eq {first : List UInt8} (notFull : slash ∉ first)
    (given : keywords.foldl Attributes.given inForce = attributes) (number : Nat) :
    parseRecord (stateWith inForce stack records) number first (keywords.map Keyword.word) =
      .ok (stateWith inForce
        (if attributes.fileType = some .directory ∧ unescape first ≠ ascii "." then
          stack ++ [unescape first] else stack)
        (records ++ [⟨joinStack stack (unescape first), attributes.fileType, attributes.size,
          attributes.link.map asDecoded⟩])) := by
  unfold parseRecord stateWith
  simp only [foldlM_applyWord, given]
  simp only [bind, Except.bind, notFull, not_false_eq_true, true_and, if_false,
    Attributes.toDefaults, Option.map_map]
  rfl

/-- The line of an entry is read, and a directory is entered. -/
theorem parseLine_entry {name : EntryName}
    (given : keywords.foldl Attributes.given inForce = attributes) (number : Nat) :
    parseLine (stateWith inForce stack records) number (entryLine (escape name) keywords) =
      .ok (stateWith inForce
        (if attributes.fileType = some .directory then stack ++ [unescape (escape name)] else stack)
        (records ++ [recordAt asDecoded stack name attributes])) := by
  obtain ⟨name, nonempty, notDot, notUp⟩ := name
  have inside := fun byte member => (@mem_escape name byte member).2
  have spelled : ∀ {other : List UInt8}, other.getLast? ≠ some backslash → name ≠ other →
      unescape (escape name) ≠ other := by
    intro other plain different same
    rw [unescape_escape] at same
    split_ifs at same
    · rw [← same, List.getLast?_concat] at plain
      exact plain rfl
    · exact different same
  have notComment : (escape name).head? ≠ some 0x23 := fun same =>
    (inside _ (List.mem_of_head? same)).2 rfl
  have notFull : slash ∉ escape name := fun member => (inside _ member).1 rfl
  have notDirective : (escape name).head? ≠ some slash := fun same =>
    notFull (List.mem_of_head? same)
  have notDots : escape name ≠ ascii ".." := by
    intro same
    apply spelled (by decide : (ascii "..").getLast? ≠ some backslash) notUp
    rw [same]
    decide
  unfold parseLine
  rw [entryLine, words_line (List.forall_mem_cons.mpr
    ⟨isWord_escape nonempty, isWord_of_mem_map isWord_word⟩)]
  simp only
  rw [if_neg notComment, if_neg notDots, if_neg notDirective, parseRecord_eq notFull given,
    joinStack_eq]
  simp only [spelled (by decide : (ascii ".").getLast? ≠ some backslash) notDot, ne_eq,
    not_false_eq_true, and_true]
  rfl

/-- The line of the root is read, and nothing is entered. -/
theorem parseLine_root (given : keywords.foldl Attributes.given inForce = attributes)
    (number : Nat) :
    parseLine (stateWith inForce [] records) number (entryLine (ascii ".") keywords) =
      .ok (stateWith inForce [] (records ++ [⟨ascii ".", attributes.fileType, attributes.size,
        attributes.link.map asDecoded⟩])) := by
  have alone : unescape (ascii ".") = ascii "." := by decide
  unfold parseLine
  rw [entryLine, words_line (List.forall_mem_cons.mpr
    ⟨isWord_root, isWord_of_mem_map isWord_word⟩)]
  simp only
  rw [if_neg (by decide), if_neg (by decide), if_neg (by decide),
    parseRecord_eq (by decide) given, alone, if_neg fun both => both.2 rfl]
  rfl

end

/-! ## Runs over lines -/

/-- Reading the lines leads from one state to another, wherever they stand. -/
def Reads (state : State) (lines : List (List UInt8)) (after : State) : Prop :=
  ∀ index, (lines.zipIdx index).foldlM
    (fun state (line, index) => parseLine state (index + 1) line) state = .ok after

theorem Reads.nil (state : State) : Reads state [] state := fun _ => rfl

theorem Reads.cons {state between after : State} {first : List UInt8} {lines : List (List UInt8)}
    (step : ∀ number, parseLine state number first = .ok between)
    (rest : Reads between lines after) : Reads state (first :: lines) after := by
  intro index
  rw [List.zipIdx_cons, List.foldlM_cons]
  dsimp only
  rw [step]
  exact rest (index + 1)

theorem Reads.append {state between after : State} {front lines : List (List UInt8)}
    (first : Reads state front between) (rest : Reads between lines after) :
    Reads state (front ++ lines) after := by
  intro index
  rw [List.zipIdx_append, List.foldlM_append, first]
  exact rest (index + front.length)

/-- **The lines of a forest** add its records, with the texts as they are decoded, and lead back
to the directory. -/
theorem Forest.Written.reads {forest : Forest} {inForce after : Attributes}
    (written : forest.Written inForce lines after) (stack : List (List UInt8))
    (records : List Record) :
    Reads (stateWith inForce stack records) lines (stateWith after stack
      (records ++ forest.recordsAs asDecoded stack)) := by
  induction written generalizing stack records with
  | nil =>
    rw [Forest.recordsAs, List.append_nil]
    exact Reads.nil _
  | directive directive _ ih => exact Reads.cons (parseLine_directive directive) (ih stack records)
  | @leaf _ _ attributes _ kind _ _ keywords given _ ih =>
    rw [Forest.recordsAs, List.append_cons records]
    refine Reads.cons (fun number => ?_) (ih stack _)
    rw [parseLine_entry given, if_neg kind]
  | @directory inForce between _ attributes name kind children _ _ _ keywords given _ _ inner ih =>
    have entered : ∀ number, parseLine (stateWith inForce stack records) number
        (entryLine (escape name) keywords) =
          .ok (stateWith inForce (stack ++ [unescape (escape name)])
            (records ++ [recordAt asDecoded stack name attributes])) := by
      intro number
      rw [parseLine_entry given, if_pos kind]
    have left : ∀ records number, parseLine
        (stateWith between (stack ++ [unescape (escape name)]) records) number (ascii "..") =
          .ok (stateWith between stack records) := by
      intro records number
      rw [parseLine_up, List.dropLast_concat]
    rw [Forest.recordsAs, List.append_cons records, ← List.append_assoc]
    exact Reads.cons entered (Reads.append (inner _ _) (Reads.cons (left _) (ih stack _)))

theorem Tree.Written.reads {inForce : Attributes} (written : tree.Written inForce lines) :
    ∃ after, Reads (stateWith inForce [] []) lines (stateWith after []
      (tree.recordsAs asDecoded)) := by
  induction written with
  | directive directive _ ih =>
    obtain ⟨after, reads⟩ := ih
    exact ⟨after, Reads.cons (parseLine_directive directive) reads⟩
  | @root _ after _ keywords closed given written =>
    refine ⟨after, Reads.cons (parseLine_root given)
      (Reads.append (written.reads [] _) ?_)⟩
    cases closed with
    | false => exact Reads.nil _
    | true => exact Reads.cons parseLine_up (Reads.nil _)

/-! ## Line feeds -/

theorem splitOn_text (free : ∀ line ∈ lines, (0x0a : UInt8) ∉ line) :
    (text lines).splitOn 0x0a = lines ++ [[]] := by
  unfold text
  induction lines with
  | nil => rfl
  | cons first rest ih =>
    obtain ⟨here, others⟩ := List.forall_mem_cons.mp free
    rw [List.flatMap_cons, List.append_assoc, List.singleton_append,
      List.splitOn_append_cons_self_of_not_mem here, ih others, List.cons_append]

theorem lineFeed_not_mem_line {ws : List (List UInt8)} (all : ∀ word ∈ ws, IsWord word) :
    (0x0a : UInt8) ∉ line ws := by
  intro member
  rcases Text.mem_intercalate member with space | ⟨word, inside, here⟩
  · exact absurd space (by decide)
  · exact absurd ((all word inside).2 _ here) (by decide)

theorem lineFeed_not_mem_entryLine {name : List UInt8} (word : IsWord name)
    (keywords : List Keyword) : (0x0a : UInt8) ∉ entryLine name keywords :=
  lineFeed_not_mem_line (List.forall_mem_cons.mpr ⟨word, isWord_of_mem_map isWord_word⟩)

theorem lineFeed_not_mem_directive (directive : Directive) :
    (0x0a : UInt8) ∉ directive.line := by
  cases directive with
  | set keywords =>
    exact lineFeed_not_mem_line (List.forall_mem_cons.mpr
      ⟨isWord_set, isWord_of_mem_map isWord_word⟩)
  | unset keys =>
    exact lineFeed_not_mem_line (List.forall_mem_cons.mpr
      ⟨isWord_unset, isWord_of_mem_map isWord_name⟩)

theorem Forest.Written.lineFeed_not_mem {forest : Forest} {inForce after : Attributes}
    (written : forest.Written inForce lines after) :
    ∀ line ∈ lines, (0x0a : UInt8) ∉ line := by
  induction written with
  | nil => exact List.forall_mem_nil _
  | directive directive _ ih => exact List.forall_mem_cons.mpr ⟨lineFeed_not_mem_directive _, ih⟩
  | @leaf _ _ _ name _ _ _ keywords _ _ ih =>
    exact List.forall_mem_cons.mpr
      ⟨lineFeed_not_mem_entryLine (isWord_escape name.2.1) keywords, ih⟩
  | @directory _ _ _ _ name _ _ _ _ _ keywords _ _ _ inner ih =>
    exact List.forall_mem_cons.mpr
      ⟨lineFeed_not_mem_entryLine (isWord_escape name.2.1) keywords,
        List.forall_mem_append.mpr ⟨inner, List.forall_mem_cons.mpr ⟨by decide, ih⟩⟩⟩

theorem Tree.Written.lineFeed_not_mem {inForce : Attributes}
    (written : tree.Written inForce lines) :
    ∀ line ∈ lines, (0x0a : UInt8) ∉ line := by
  induction written with
  | directive directive _ ih => exact List.forall_mem_cons.mpr ⟨lineFeed_not_mem_directive _, ih⟩
  | root keywords closed _ written =>
    refine List.forall_mem_cons.mpr
      ⟨lineFeed_not_mem_entryLine isWord_root keywords,
        List.forall_mem_append.mpr ⟨written.lineFeed_not_mem, ?_⟩⟩
    cases closed with
    | false => exact List.forall_mem_nil _
    | true => decide

/-- What the parser makes of a written tree: its records with the texts as they are decoded. -/
theorem parse_text (written : tree.Written {} lines) :
    parse (text lines) = .ok (tree.recordsAs asDecoded) := by
  obtain ⟨after, reads⟩ := written.reads
  have blank : ∀ (state : State) number, parseLine state number [] = .ok state :=
    fun _ _ => rfl
  have whole := Reads.append reads (Reads.cons (blank _) (Reads.nil _)) 0
  unfold parse
  rw [splitOn_text written.lineFeed_not_mem]
  exact congrArg (fun result => result >>= fun state : State => .ok state.records) whole

/-! ## Which texts are kept -/

section

variable {spelled : List UInt8 → List UInt8} {above : List (List UInt8)}

theorem recordAt_eq_iff {name : List UInt8} {attributes : Attributes} :
    recordAt spelled above name attributes = recordAt id above name attributes ↔
      spelled name = name ∧ ∀ target ∈ attributes.link.toList, spelled target = target := by
  have links : attributes.link.map spelled = attributes.link.map id ↔
      ∀ target ∈ attributes.link.toList, spelled target = target := by
    cases attributes.link with
    | none => simp
    | some target => simp
  unfold recordAt
  rw [Record.mk.injEq, ← joinStack_eq, ← joinStack_eq, links]
  unfold joinStack
  rw [List.append_cancel_left_eq]
  simp

theorem Forest.length_recordsAs (forest : Forest) (above' : List (List UInt8)) :
    (forest.recordsAs spelled above).length = (forest.recordsAs id above').length := by
  induction forest generalizing above above' with
  | nil => rfl
  | leaf name attributes kind rest ih =>
    exact congrArg (· + 1) (ih above')
  | directory name attributes kind children rest inner ih =>
    simp only [Forest.recordsAs, List.length_cons, List.length_append,
      inner (above' ++ [id name.1]), ih above']

/-- The records are those of the tree if and only if every text is spelled as it is. -/
theorem Forest.recordsAs_eq_iff (forest : Forest) :
    forest.recordsAs spelled above = forest.recordsAs id above ↔
      ∀ text ∈ forest.texts, spelled text = text := by
  induction forest generalizing above with
  | nil => simp [Forest.recordsAs, Forest.texts]
  | leaf name attributes kind rest ih =>
    rw [Forest.recordsAs, Forest.recordsAs, List.cons_eq_cons, recordAt_eq_iff, ih,
      Forest.texts, List.forall_mem_cons, List.forall_mem_append, and_assoc]
  | directory name attributes kind children rest inner ih =>
    rw [Forest.recordsAs, Forest.recordsAs, List.cons_eq_cons, recordAt_eq_iff, Forest.texts,
      List.forall_mem_cons, List.forall_mem_append, List.forall_mem_append, and_assoc]
    refine and_congr_right fun kept => and_congr_right fun _ => ?_
    rw [kept, ← @inner (above ++ [name.1]), ← @ih above]
    exact ⟨fun same => List.append_inj same (children.length_recordsAs _),
      fun both => congrArg₂ (· ++ ·) both.1 both.2⟩

theorem Tree.recordsAs_eq_iff (tree : Tree) :
    tree.recordsAs spelled = tree.records ↔ ∀ text ∈ tree.texts, spelled text = text := by
  have links : tree.attributes.link.map spelled = tree.attributes.link.map id ↔
      ∀ target ∈ tree.attributes.link.toList, spelled target = target := by
    cases tree.attributes.link with
    | none => simp
    | some target => simp
  unfold Tree.records Tree.recordsAs Tree.texts
  rw [List.cons_eq_cons, Record.mk.injEq, tree.children.recordsAs_eq_iff, links,
    List.forall_mem_append]
  simp

end

/-- **A written tree** is read as its records if and only if no name and no link target ends in a
backslash. -/
theorem parse_text_iff {tree : Tree} {lines : List (List UInt8)}
    (written : tree.Written {} lines) :
    parse (text lines) = .ok tree.records ↔
      ∀ text ∈ tree.texts, text.getLast? ≠ some backslash := by
  rw [parse_text written, Except.ok.injEq, tree.recordsAs_eq_iff]
  exact forall₂_congr fun text _ => unescape_escape_eq_iff text

/-- A root with one file of a name. -/
def oneFile (name : EntryName) : Tree :=
  ⟨{ fileType := some .directory }, rfl,
    .leaf name { fileType := some .file } (by decide) .nil⟩

theorem oneFile_written (name : EntryName) :
    (oneFile name).Written {} [entryLine (ascii ".") [.type .directory],
      entryLine (escape name) [.type .file]] := by
  have inside : (oneFile name).children.Written {} [entryLine (escape name) [.type .file]] {} :=
    .leaf [.type .file] rfl .nil
  exact .root [.type .directory] false rfl inside

/-- A file, a directory with a link to it, and another file behind the directory. -/
def linkedTree : Tree :=
  ⟨{ fileType := some .directory }, rfl,
    .leaf ⟨ascii "a b", by decide⟩ { fileType := some .file, size := some 3 } (by decide)
      (.directory ⟨ascii "docs", by decide⟩ { fileType := some .directory } rfl
        (.leaf ⟨ascii "c", by decide⟩
          { fileType := some .symbolicLink, link := some (ascii "a b") } (by decide) .nil)
        (.leaf ⟨ascii "d", by decide⟩ { fileType := some .file } (by decide) .nil))⟩

theorem linkedTree_written :
    linkedTree.Written {} [(Directive.set [.type .file]).line,
      entryLine (ascii ".") [.type .directory],
      entryLine (escape (ascii "a b")) [.size 3 (by decide)],
      entryLine (escape (ascii "docs")) [.type .directory],
      entryLine (escape (ascii "c")) [.type .symbolicLink, .link (ascii "a b")],
      ascii "..",
      entryLine (escape (ascii "d")) []] := by
  have written : linkedTree.children.Written { fileType := some .file } _
      { fileType := some .file } :=
    .leaf [.size 3 (by decide)] rfl
      (.directory [.type .directory] rfl
        (.leaf [.type .symbolicLink, .link (ascii "a b")] rfl .nil)
        (.leaf [] rfl .nil))
  exact .directive (.set [.type .file]) (.root [.type .directory] false rfl written)

/-- A name with a space in it is read. -/
theorem parse_text_sample :
    parse (text [(Directive.set [.type .file]).line,
        entryLine (ascii ".") [.type .directory],
        entryLine (escape (ascii "a b")) [.size 3 (by decide)],
        entryLine (escape (ascii "docs")) [.type .directory],
        entryLine (escape (ascii "c")) [.type .symbolicLink, .link (ascii "a b")],
        ascii "..",
        entryLine (escape (ascii "d")) []]) =
      .ok linkedTree.records :=
  (parse_text_iff linkedTree_written).mpr (by decide +kernel)

/-- A name that is a backslash is read as two of them. -/
theorem backslash_name_is_doubled :
    ¬ ∀ (tree : Tree) (lines : List (List UInt8)), tree.Written {} lines →
      parse (text lines) = .ok tree.records := by
  intro kept
  have doubled : parse (text [entryLine (ascii ".") [.type .directory],
      entryLine (escape [backslash]) [.type .file]]) =
        .ok [⟨ascii ".", some .directory, none, none⟩,
          ⟨[backslash, backslash], some .file, none, none⟩] := by decide +kernel
  have same := kept (oneFile ⟨[backslash], by decide⟩) _ (oneFile_written _)
  rw [doubled, Except.ok.injEq] at same
  exact absurd same (by decide +kernel)

end Mtree

end ZManager
