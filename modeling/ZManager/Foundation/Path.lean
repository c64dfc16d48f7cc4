import ZManager.Foundation.Text

/-! # Unix paths as their components

A path is the list `Path::components` yields for it, which is also what two
paths are compared by: the leading separator is a component of its own, empty
segments and inner `.` segments are dropped, and a leading `.` of a relative
path stays. Joining, popping, prefixes, the file name and its stem and
extension follow `std::path` on Unix.
-/

namespace ZManager

/-- One component of a Unix path. -/
inductive Component where
  | rootDir
  | curDir
  | parentDir
  | normal (name : Text)
  deriving DecidableEq, Repr

/-- A path up to the equality of `std::path::Path`. -/
abbrev PathBuf := List Component

/-- A name that a directory can hold an entry under: not empty, not a dot
directory, and without a separator. -/
structure IsEntryName (name : Text) : Prop where
  ne_nil : name ≠ []
  ne_dot : name ≠ ['.']
  ne_dotdot : name ≠ ['.', '.']
  no_slash : '/' ∉ name

namespace PathBuf

/-- The component a separator-free segment stands for; empty and `.` segments
stand for none. -/
def segmentComponent (segment : Text) : Option Component :=
  if segment = [] ∨ segment = ['.'] then none
  else if segment = ['.', '.'] then some .parentDir
  else some (.normal segment)

/-- The components of a text that is appended to a nonempty path. -/
def relativeComponents (text : Text) : PathBuf :=
  (text.splitOn '/').filterMap segmentComponent

/-- `Path::is_absolute` of the path a text spells. -/
def isAbsoluteText (text : Text) : Bool :=
  text.head? == some '/'

/-- The path a text spells. -/
def ofText (text : Text) : PathBuf :=
  if isAbsoluteText text then .rootDir :: relativeComponents text
  else if (text.splitOn '/').head? = some ['.'] then .curDir :: relativeComponents text
  else relativeComponents text

/-- `Path::join`: an absolute text replaces the path. -/
def join (base : PathBuf) (text : Text) : PathBuf :=
  if isAbsoluteText text ∨ base = [] then ofText text else base ++ relativeComponents text

/-- `PathBuf::push` of one component. -/
def push (base : PathBuf) : Component → PathBuf
  | .rootDir => [.rootDir]
  | .curDir => if base = [] then [.curDir] else base
  | .parentDir => base ++ [Component.parentDir]
  | .normal name => base ++ [Component.normal name]

/-- `Path::parent`: the root directory and the empty path have none. -/
def parent (path : PathBuf) : Option PathBuf :=
  match path.getLast? with
  | none | some .rootDir => none
  | some _ => some path.dropLast

/-- `PathBuf::pop`, which leaves a path without parent unchanged. -/
def pop (path : PathBuf) : PathBuf :=
  (parent path).getD path

/-- `Path::strip_prefix`. -/
def stripPrefix (path base : PathBuf) : Option PathBuf :=
  if base <+: path then some (path.drop base.length) else none

/-- `Path::file_name`. -/
def fileName (path : PathBuf) : Option Text :=
  match path.getLast? with
  | some (.normal name) => some name
  | _ => none

/-- The stem and the extension of a file name: the extension follows the last
dot, unless that dot leads the name. -/
def stemAndExtension (name : Text) : Text × Option Text :=
  if name = ['.', '.'] then (name, none)
  else
    match Text.rsplitOnce '.' name with
    | none => (name, none)
    | some (before, after) => if before = [] then (name, none) else (before, some after)

/-- `Path::file_stem`. -/
def fileStem (path : PathBuf) : Option Text :=
  (fileName path).map fun name => (stemAndExtension name).1

/-- `Path::extension`. -/
def extension (path : PathBuf) : Option Text :=
  (fileName path).bind fun name => (stemAndExtension name).2

/-- `PathBuf::set_extension`: the last name with its extension replaced, or
without it when the new one is empty. -/
def setExtension (path : PathBuf) (extension : Text) : PathBuf :=
  match fileName path with
  | none => path
  | some name =>
    join path.dropLast
      (if extension = [] then (stemAndExtension name).1
        else (stemAndExtension name).1 ++ '.' :: extension)

/-- `Path::with_extension`, which copies the path up to the dot of its extension
and sets the extension of the copy. -/
def withExtension (path : PathBuf) (extension : Text) : PathBuf :=
  match (fileName path).map stemAndExtension with
  | some (stem, some _) => setExtension (join path.dropLast (stem ++ ['.'])) extension
  | _ => setExtension path extension

/-- The text of one component. -/
def componentText : Component → Text
  | .rootDir => ['/']
  | .curDir => ['.']
  | .parentDir => ['.', '.']
  | .normal name => name

/-- `Path::to_string_lossy` of a path of valid Unicode. -/
def toText : PathBuf → Text
  | .rootDir :: rest => '/' :: ['/'].intercalate (rest.map componentText)
  | path => ['/'].intercalate (path.map componentText)

/-- `Path::display` of a path of valid Unicode. -/
def display (path : PathBuf) : String :=
  String.ofList (toText path)

/-- The path of a list of names, below an anchor. -/
def ofNames (names : List Text) : PathBuf :=
  names.map .normal

end PathBuf

end ZManager
