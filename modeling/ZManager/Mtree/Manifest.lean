import Mathlib.Tactic.SplitIfs
import ZManager.Foundation.Utf8

/-! # MTREE manifests

A manifest lists the entries of a directory tree, one on a line, with their keywords. A name
without a slash lies in the directory that the lines before it have entered; `/set` and `/unset`
change the keywords that following lines start with. On Unix a path is its bytes.
-/

namespace ZManager

namespace Mtree

/-- A byte string literal. -/
def ascii (text : String) : List UInt8 := utf8Bytes text.toList

/-- Entry kinds the `type=` keyword can name. -/
inductive FileType where
  | blockDevice
  | characterDevice
  | directory
  | fifo
  | file
  | symbolicLink
  | socket
  deriving DecidableEq

/-- The `type=` keyword spelling. -/
def FileType.asStr : FileType → String
  | blockDevice => "block"
  | characterDevice => "char"
  | directory => "dir"
  | fifo => "fifo"
  | file => "file"
  | symbolicLink => "link"
  | socket => "socket"

def FileType.parse (value : List UInt8) : Option FileType :=
  if value = ascii "block" then some blockDevice
  else if value = ascii "char" then some characterDevice
  else if value = ascii "dir" then some directory
  else if value = ascii "fifo" then some fifo
  else if value = ascii "file" then some file
  else if value = ascii "link" then some symbolicLink
  else if value = ascii "socket" then some socket
  else none

/-- One manifest record, with `/set` defaults already folded in. -/
structure Record where
  path : List UInt8
  fileType : Option FileType
  size : Option Nat
  link : Option (List UInt8)
  deriving DecidableEq

/-- Failures of the parser. -/
inductive ParseError where
  /-- `line {number}: unknown directive /{name}` -/
  | unknownDirective (number : Nat) (name : Text)
  /-- `line {number}: invalid MTREE file type {value:?}` -/
  | invalidFileType (number : Nat) (value : Text)
  /-- `line {number}: invalid MTREE size {text:?}` -/
  | invalidSize (number : Nat) (text : Text)
  deriving DecidableEq

/-! ## Words -/

def backslash : UInt8 := 0x5c

def slash : UInt8 := 0x2f

def isOctalDigit (byte : UInt8) : Bool := 0x30 ≤ byte && byte ≤ 0x37

/-- The loop of `unescape` over what is left of the word, with the bytes still to be skipped. -/
def unescapeFrom : Nat → List UInt8 → List UInt8
  | _, [] => []
  | skip + 1, _ :: rest => unescapeFrom skip rest
  | 0, byte :: rest =>
    -- `i + 3 < word.len() + 1`
    if byte = backslash ∧ 3 < (byte :: rest).length + 1 then
      if rest.head? = some backslash then backslash :: unescapeFrom 1 rest
      else if 3 ≤ rest.length ∧ (rest.take 3).all isOctalDigit then
        -- `u8` arithmetic
        ((rest.getD 0 0 - 0x30) * 64 + (rest.getD 1 0 - 0x30) * 8 + (rest.getD 2 0 - 0x30)) ::
          unescapeFrom 3 rest
      else byte :: unescapeFrom 0 rest
    else byte :: unescapeFrom 0 rest

/-- Decodes the `vis(3)` escaping: octal triples and double backslashes. -/
def unescape (word : List UInt8) : List UInt8 := unescapeFrom 0 word

def isBlank (byte : UInt8) : Bool := byte = 0x20 || byte = 0x09 || byte = 0x0d

/-- The whitespace-delimited words of a line. -/
def words (line : List UInt8) : List (List UInt8) :=
  (line.splitOnP isBlank).filter (· ≠ [])

/-- `key=value`, or a bare keyword. -/
def splitKeyword (word : List UInt8) : List UInt8 × Option (List UInt8) :=
  match word.findIdx? (· = 0x3d) with
  | some index => (word.take index, some (word.drop (index + 1)))
  | none => (word, none)

/-! ## Lines -/

/-- Keywords carried by `/set`; the link target is as it is written. -/
structure Defaults where
  fileType : Option FileType := none
  size : Option Nat := none
  link : Option (List UInt8) := none

/-- Folds one `key=value` pair into a keyword set. -/
def applyKeyword (into : Defaults) (key : List UInt8) (value : Option (List UInt8))
    (number : Nat) : Except ParseError Defaults :=
  if key = ascii "type" then
    match value with
    | none => .ok into
    | some value =>
      match FileType.parse value with
      | some parsed => .ok { into with fileType := some parsed }
      | none => .error (.invalidFileType number (fromUtf8Lossy value))
  else if key = ascii "size" then
    match value with
    | none => .ok into
    | some value =>
      match u64FromStrRadix 10 (fromUtf8Lossy value) with
      | some parsed => .ok { into with size := some parsed }
      | none => .error (.invalidSize number (fromUtf8Lossy value))
  else if key = ascii "link" then
    match value with
    | none => .ok into
    | some value => .ok { into with link := some value }
  else .ok into

def applyWord (number : Nat) (into : Defaults) (word : List UInt8) : Except ParseError Defaults :=
  applyKeyword into (splitKeyword word).1 (splitKeyword word).2 number

/-- The keyword that a word of `/unset` names is dropped. -/
def unsetWord (defaults : Defaults) (word : List UInt8) : Defaults :=
  let key := (splitKeyword word).1
  if key = ascii "type" then { defaults with fileType := none }
  else if key = ascii "size" then { defaults with size := none }
  else if key = ascii "link" then { defaults with link := none }
  else defaults

/-- What `parse` holds between two lines. -/
structure State where
  defaults : Defaults := {}
  stack : List (List UInt8) := []
  records : List Record := []

def parseDirective (state : State) (number : Nat) (name : List UInt8) (rest : List (List UInt8)) :
    Except ParseError State :=
  if name = ascii "set" then do
    let defaults ← rest.foldlM (applyWord number) state.defaults
    .ok { state with defaults := defaults }
  else if name = ascii "unset" then
    .ok { state with defaults := rest.foldl unsetWord state.defaults }
  else .error (.unknownDirective number (fromUtf8Lossy name))

/-- A name below the directories of the stack. -/
def joinStack (stack : List (List UInt8)) (name : List UInt8) : List UInt8 :=
  stack.flatMap (· ++ [slash]) ++ name

/-- The record of a line. -/
def parseRecord (state : State) (number : Nat) (first : List UInt8) (rest : List (List UInt8)) :
    Except ParseError State := do
  let isFull := slash ∈ first
  let record ← rest.foldlM (applyWord number) state.defaults
  let name := unescape first
  let path := if isFull then name else joinStack state.stack name
  .ok { state with
    -- `.` names the tree root, which adds no path component.
    stack := if ¬isFull ∧ record.fileType = some .directory ∧ name ≠ ascii "." then
      state.stack ++ [name] else state.stack
    records := state.records ++
      [⟨path, record.fileType, record.size, record.link.map unescape⟩] }

/-- One line, with the state that it leaves. -/
def parseLine (state : State) (number : Nat) (line : List UInt8) : Except ParseError State :=
  match words line with
  | [] => .ok state
  | first :: rest =>
    if first.head? = some 0x23 then .ok state
    else if first = ascii ".." then .ok { state with stack := state.stack.dropLast }
    else if first.head? = some slash then parseDirective state number first.tail rest
    else parseRecord state number first rest

/-- Reads every record in a manifest. -/
def parse (bytes : List UInt8) : Except ParseError (List Record) := do
  let state ← (bytes.splitOn 0x0a).zipIdx.foldlM
    (fun state (line, index) => parseLine state (index + 1) line) {}
  .ok state.records

end Mtree

end ZManager
