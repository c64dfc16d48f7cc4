import ZManager.Foundation.Path
import ZManager.Foundation.Step
import Mathlib.Logic.Function.Basic

/-! # A Unix file tree

A file system maps locations, the lists of names from the root down, to files,
directories and symlinks; every object lies in a directory by construction.
Paths are resolved as the kernel does: component by component, with symlinks
expanded where they are met, under a budget. The operations are the ones of
`std::fs` on Unix.

`follow` is the more permissive walk that only symlinks redirect; a missing
object does not stop it. What the kernel's walk reaches, `follow` reaches too.
-/

namespace ZManager

/-- The kinds of I/O failure callers tell apart. -/
inductive IoErrorKind where
  | notFound
  | notADirectory
  | alreadyExists
  | isADirectory
  | directoryNotEmpty
  | filesystemLoop
  | invalidData
  | permissionDenied
  | invalidInput
  | unexpectedEof
  | other
  deriving DecidableEq, Repr

/-- The type of an existing file-system object. -/
inductive FileType where
  | file
  | directory
  | symlink
  | other
  deriving DecidableEq, Repr

/-- The names from the root directory down to an object. -/
abbrev Location := List Text

/-- A file-system object; a symlink's target is kept as it is spelled. -/
inductive Node (Content : Type) where
  | file (content : Content)
  | directory
  | symlink (target : Text)
  deriving DecidableEq, Repr

def Node.fileType {Content : Type} : Node Content → FileType
  | file _ => .file
  | directory => .directory
  | symlink _ => .symlink

/-- A file tree in which every object lies in a directory. -/
structure FileSystem (Content : Type) where
  node : Location → Option (Node Content)
  root : node [] = some .directory
  parent : ∀ location name, node (location ++ [name]) ≠ none → node location = some .directory

/-- The path of a location. -/
def Location.toPath (location : Location) : PathBuf :=
  .rootDir :: PathBuf.ofNames location

theorem Location.toPath_append (location : Location) (names : List Text) :
    Location.toPath (location ++ names) = location.toPath ++ PathBuf.ofNames names := by
  simp [Location.toPath, PathBuf.ofNames]

theorem Location.toPath_concat (location : Location) (name : Text) :
    Location.toPath (location ++ [name]) = location.toPath ++ [Component.normal name] :=
  location.toPath_append [name]

/-- Where the components lead when no symlink redirects them. -/
def Location.descend (start : Location) (components : List Component) : Location :=
  components.foldl (fun current component =>
    match component with
    | .rootDir => []
    | .curDir => current
    | .parentDir => current.dropLast
    | .normal name => current ++ [name]) start

theorem Location.descend_concat (start : Location) (components : List Component)
    (last : Component) :
    start.descend (components ++ [last]) = (start.descend components).descend [last] := by
  unfold Location.descend
  rw [List.foldl_append]

/-- The components of a link target with nothing dropped: an empty or dot
segment stays as a step that goes nowhere. -/
def linkComponents (target : Text) : List Component :=
  (target.splitOn '/').map fun segment => (PathBuf.segmentComponent segment).getD .curDir

namespace FileSystem

variable {Content : Type}

/-- Objects above an existing object are directories. -/
theorem directory_of_append (fs : FileSystem Content) {location rest : Location}
    (nonempty : rest ≠ []) (present : fs.node (location ++ rest) ≠ none) :
    fs.node location = some .directory := by
  induction rest generalizing location with
  | nil => exact absurd rfl nonempty
  | cons name rest ih =>
    apply fs.parent location name
    cases rest with
    | nil => exact present
    | cons second others =>
      rw [ih (List.cons_ne_nil second others) (by simpa using present)]
      exact Option.some_ne_none _

theorem directory_above (fs : FileSystem Content) {location other : Location}
    (above : location <+: other) (different : location ≠ other)
    (present : fs.node other ≠ none) : fs.node location = some .directory := by
  obtain ⟨rest, rfl⟩ := above
  refine fs.directory_of_append ?_ present
  rintro rfl
  exact different (List.append_nil location).symm

instance (fs : FileSystem Content) (location : Location) :
    Decidable (fs.node location = some .directory) :=
  match fs.node location with
  | some .directory => isTrue rfl
  | some (.file _) => isFalse nofun
  | some (.symlink _) => isFalse nofun
  | none => isFalse nofun

def IsSymlink (fs : FileSystem Content) (location : Location) : Prop :=
  ∃ target, fs.node location = some (.symlink target)

/-- The tree that holds the root directory only. -/
def empty : FileSystem Content where
  node location := if location = [] then some .directory else none
  root := rfl
  parent location name present := by simp at present

/-- Puts an object at a free name of a directory. -/
def add (fs : FileSystem Content) (directory : Location) (name : Text) (object : Node Content)
    (inside : fs.node directory = some .directory)
    (free : fs.node (directory ++ [name]) = none) : FileSystem Content where
  node := Function.update fs.node (directory ++ [name]) (some object)
  root := by
    rw [Function.update_of_ne (by simp)]
    exact fs.root
  parent location child present := by
    by_cases same : location ++ [child] = directory ++ [name]
    · obtain ⟨rfl, -⟩ := List.append_inj' same rfl
      rwa [Function.update_of_ne (by simp)]
    · rw [Function.update_of_ne same] at present
      have above := fs.parent location child present
      rwa [Function.update_of_ne]
      rintro rfl
      rw [free] at above
      cases above

/-- Removes an object other than the root with everything below it. -/
def remove (fs : FileSystem Content) (location : Location) (below : location ≠ []) :
    FileSystem Content where
  node other := if location <+: other then none else fs.node other
  root := by
    rw [if_neg (by simpa using below)]
    exact fs.root
  parent other name present := by
    split_ifs at present with gone
    · exact absurd rfl present
    · have kept : ¬ location <+: other := fun above => gone (above.trans (List.prefix_append _ _))
      rw [if_neg kept]
      exact fs.parent other name present

theorem remove_node (fs : FileSystem Content) {location : Location} (below : location ≠ [])
    (other : Location) :
    (fs.remove location below).node other =
      if location <+: other then none else fs.node other := rfl

/-! ## Path resolution -/

/-- The walk along the components; an expanded symlink goes on with `follow`. -/
def walkWith (fs : FileSystem Content)
    (follow : Location → List Component → Except IoErrorKind Location) :
    Location → List Component → Except IoErrorKind Location
  | current, [] => .ok current
  | current, component :: rest =>
    if fs.node current = some .directory then
      match component with
      | .rootDir => walkWith fs follow [] rest
      | .curDir => walkWith fs follow current rest
      | .parentDir => walkWith fs follow current.dropLast rest
      | .normal name =>
        match fs.node (current ++ [name]) with
        | none => .error .notFound
        | some (.symlink target) =>
          follow (if PathBuf.isAbsoluteText target then [] else current)
            (linkComponents target ++ rest)
        | some _ => walkWith fs follow (current ++ [name]) rest
    else .error .notADirectory

/-- The walk under a budget of symlinks. -/
def walk (fs : FileSystem Content) : Nat → Location → List Component → Except IoErrorKind Location
  | 0 => fs.walkWith fun _ _ => .error .filesystemLoop
  | budget + 1 => fs.walkWith (fs.walk budget)

/-- The number of symlinks one resolution may expand. -/
def symlinkBudget : Nat := 40

/-- The existing object an absolute path leads to. -/
def resolve (fs : FileSystem Content) (path : PathBuf) : Except IoErrorKind Location :=
  fs.walk symlinkBudget [] path

/-- The directory and the name a path denotes, with a final symlink left alone. -/
def locate (fs : FileSystem Content) (path : PathBuf) : Except IoErrorKind (Location × Text) :=
  match path.getLast? with
  | some (.normal name) => do
      let directory ← fs.resolve path.dropLast
      if fs.node directory = some .directory then .ok (directory, name)
      else .error .notADirectory
  | _ => .error .alreadyExists

/-- The permissive walk: whatever is no symlink is passed, and dot segments of a
target do not matter. -/
def followWith (fs : FileSystem Content)
    (redirect : Location → List Component → Option Location) :
    Location → List Component → Option Location
  | current, [] => some current
  | _, .rootDir :: rest => followWith fs redirect [] rest
  | current, .curDir :: rest => followWith fs redirect current rest
  | current, .parentDir :: rest => followWith fs redirect current.dropLast rest
  | current, .normal name :: rest =>
    match fs.node (current ++ [name]) with
    | some (.symlink target) =>
      redirect (if PathBuf.isAbsoluteText target then [] else current)
        (PathBuf.relativeComponents target ++ rest)
    | _ => followWith fs redirect (current ++ [name]) rest

/-- The permissive walk under a budget of symlinks; `none` when that runs out. -/
def follow (fs : FileSystem Content) : Nat → Location → List Component → Option Location
  | 0 => fs.followWith fun _ _ => none
  | budget + 1 => fs.followWith (fs.follow budget)

/-- Along names that are no symlinks the walk stays literal. -/
theorem walkWith_ofNames (fs : FileSystem Content)
    {step : Location → List Component → Except IoErrorKind Location} {names : List Text}
    {current final : Location}
    (plain : ∀ front, front <+: names → ¬ fs.IsSymlink (current ++ front))
    (reached : fs.walkWith step current (PathBuf.ofNames names) = .ok final) :
    final = current ++ names := by
  induction names generalizing current with
  | nil =>
    cases reached
    exact (List.append_nil _).symm
  | cons name rest ih =>
    change fs.walkWith step current (.normal name :: PathBuf.ofNames rest) = _ at reached
    unfold walkWith at reached
    split_ifs at reached
    dsimp only at reached
    have plainRest : ∀ front, front <+: rest → ¬ fs.IsSymlink (current ++ [name] ++ front) := by
      intro front above
      rw [List.append_assoc]
      exact plain (name :: front) (List.cons_prefix_cons.mpr ⟨rfl, above⟩)
    cases object : fs.node (current ++ [name]) with
    | none =>
      rw [object] at reached
      cases reached
    | some found =>
      rw [object] at reached
      cases found with
      | symlink target =>
        exact absurd ⟨target, object⟩ (plain [name] (List.cons_prefix_cons.mpr
          ⟨rfl, List.nil_prefix⟩))
      | file content => rw [ih plainRest reached, List.append_assoc, List.singleton_append]
      | directory => rw [ih plainRest reached, List.append_assoc, List.singleton_append]

/-- A location none of whose proper ancestors is a symlink is denoted by its own
path. -/
theorem locate_toPath (fs : FileSystem Content) {front directory : Location} {last name : Text}
    (plain : ∀ above, above <+: front → ¬ fs.IsSymlink above)
    (located : fs.locate (Location.toPath (front ++ [last])) = .ok (directory, name)) :
    directory = front ∧ name = last := by
  unfold locate at located
  rw [Location.toPath_concat, List.getLast?_concat, List.dropLast_concat] at located
  obtain ⟨found, resolved, located⟩ := Except.bind_eq_ok_iff.mp located
  split_ifs at located
  cases located
  refine ⟨?_, rfl⟩
  have walked : fs.walkWith (fs.walk 39) [] (.rootDir :: PathBuf.ofNames front) =
      .ok directory := resolved
  unfold walkWith at walked
  rw [if_pos fs.root] at walked
  exact fs.walkWith_ofNames plain walked

/-! ## Operations -/

/-- `symlink_metadata`: the type of an object, a final symlink left alone. -/
def lstat (fs : FileSystem Content) (path : PathBuf) : Except IoErrorKind FileType :=
  match path.getLast? with
  | some (.normal _) => do
      let (directory, name) ← fs.locate path
      match fs.node (directory ++ [name]) with
      | some object => .ok object.fileType
      | none => .error .notFound
  | _ => (fs.resolve path).map fun _ => .directory

/-- `Path::exists`. -/
def pathExists (fs : FileSystem Content) (path : PathBuf) : Bool :=
  (fs.resolve path).isOk

/-- `Path::is_dir`. -/
def isDir (fs : FileSystem Content) (path : PathBuf) : Bool :=
  match fs.resolve path with
  | .ok location => fs.node location = some .directory
  | .error _ => false

/-- Puts an object at a path where nothing exists. -/
def create (fs : FileSystem Content) (path : PathBuf) (object : Node Content) :
    Except IoErrorKind (FileSystem Content) := do
  let (directory, name) ← fs.locate path
  if inside : fs.node directory = some .directory then
    if free : fs.node (directory ++ [name]) = none then
      .ok (fs.add directory name object inside free)
    else .error .alreadyExists
  else .error .notADirectory

/-- `create_dir_all` along the reversed components of a path: the deepest
directory is tried first, and a missing parent is created on demand. -/
def createDirAllReversed (fs : FileSystem Content) :
    List Component → Except IoErrorKind (FileSystem Content)
  | [] => .ok fs
  | last :: above =>
    let path := (last :: above).reverse
    match fs.create path .directory with
    | .ok created => .ok created
    | .error .notFound => do
        let prepared ← fs.createDirAllReversed above
        match prepared.create path .directory with
        | .ok created => .ok created
        | .error failure => if prepared.isDir path then .ok prepared else .error failure
    | .error failure => if fs.isDir path then .ok fs else .error failure

/-- `create_dir_all`. -/
def createDirAll (fs : FileSystem Content) (path : PathBuf) :
    Except IoErrorKind (FileSystem Content) :=
  fs.createDirAllReversed path.reverse

/-- `symlink`; an empty target is refused. -/
def createSymlink (fs : FileSystem Content) (target : Text) (path : PathBuf) :
    Except IoErrorKind (FileSystem Content) :=
  if target = [] then .error .notFound else fs.create path (.symlink target)

/-- `hard_link`: the new name shares the object at the source, whose final
symlink is left alone. Directories cannot be linked. -/
def hardLink (fs : FileSystem Content) (source target : PathBuf) :
    Except IoErrorKind (FileSystem Content) := do
  let (directory, name) ← fs.locate source
  match fs.node (directory ++ [name]) with
  | none => .error .notFound
  | some .directory => .error .permissionDenied
  | some object => fs.create target object

/-- `remove_file`. -/
def removeFile (fs : FileSystem Content) (path : PathBuf) :
    Except IoErrorKind (FileSystem Content) := do
  let (directory, name) ← fs.locate path
  match fs.node (directory ++ [name]) with
  | none => .error .notFound
  | some .directory => .error .isADirectory
  | some _ => .ok (fs.remove (directory ++ [name]) (by simp))

/-- `remove_dir_all`, which removes a final symlink itself. -/
def removeDirAll (fs : FileSystem Content) (path : PathBuf) :
    Except IoErrorKind (FileSystem Content) := do
  let (directory, name) ← fs.locate path
  match fs.node (directory ++ [name]) with
  | none => .error .notFound
  | some (.file _) => .error .notADirectory
  | some _ => .ok (fs.remove (directory ++ [name]) (by simp))

/-- A tree with the given objects, each put at its location in order, and the
directories above them. -/
def ofObjects (objects : List (Location × Node Content)) : FileSystem Content :=
  objects.foldl (fun fs object =>
    match fs.createDirAll (Location.toPath object.1.dropLast) with
    | .ok prepared => (prepared.create (Location.toPath object.1) object.2).toOption.getD prepared
    | .error _ => fs) empty

theorem create_ok (fs : FileSystem Content) {path : PathBuf} {object : Node Content}
    {created : FileSystem Content} (finished : fs.create path object = .ok created) :
    ∃ directory name, fs.locate path = .ok (directory, name) ∧
      fs.node directory = some .directory ∧ fs.node (directory ++ [name]) = none ∧
      created.node = Function.update fs.node (directory ++ [name]) (some object) := by
  unfold create at finished
  obtain ⟨⟨directory, name⟩, located, finished⟩ := Except.bind_eq_ok_iff.mp finished
  dsimp only at finished
  split_ifs at finished with inside free
  cases finished
  exact ⟨directory, name, located, inside, free, rfl⟩

/-- Along a plain way `lstat` reports the object at the named location. -/
theorem lstat_toPath (fs : FileSystem Content) {front : Location} {last : Text}
    {fileType : FileType} (plain : ∀ above, above <+: front → ¬ fs.IsSymlink above)
    (found : fs.lstat (Location.toPath (front ++ [last])) = .ok fileType) :
    ∃ object, fs.node (front ++ [last]) = some object ∧ object.fileType = fileType := by
  have ending : (Location.toPath (front ++ [last])).getLast? = some (.normal last) := by
    rw [Location.toPath_concat, List.getLast?_concat]
  unfold lstat at found
  rw [ending] at found
  obtain ⟨⟨directory, name⟩, located, reported⟩ := Except.bind_eq_ok_iff.mp found
  obtain ⟨rfl, rfl⟩ := fs.locate_toPath plain located
  dsimp only at reported
  cases present : fs.node (directory ++ [name]) with
  | none =>
    rw [present] at reported
    cases reported
  | some object =>
    rw [present] at reported
    cases reported
    exact ⟨object, rfl, rfl⟩

/-- In a tree the walk to an existing object's directory finds directories only. -/
theorem walkWith_of_directory (fs : FileSystem Content)
    {step : Location → List Component → Except IoErrorKind Location} {names : List Text}
    {current : Location} (present : fs.node (current ++ names) = some .directory) :
    fs.walkWith step current (PathBuf.ofNames names) = .ok (current ++ names) := by
  induction names generalizing current with
  | nil => rw [List.append_nil]; rfl
  | cons name rest ih =>
    have inside : fs.node current = some .directory :=
      fs.directory_of_append (List.cons_ne_nil name rest) (by rw [present]; simp)
    rw [← List.singleton_append, ← List.append_assoc] at present ⊢
    have next : fs.node (current ++ [name]) = some .directory := by
      by_cases empty : rest = []
      · rwa [empty, List.append_nil] at present
      · exact fs.directory_of_append empty (by rw [present]; simp)
    change fs.walkWith step current (.normal name :: PathBuf.ofNames rest) = _
    unfold walkWith
    rw [if_pos inside]
    dsimp only
    rw [next]
    exact ih present

/-- A name of an existing directory is denoted by its own path. -/
theorem locate_of_node (fs : FileSystem Content) {front : Location} {last : Text}
    (inside : fs.node front = some .directory) :
    fs.locate (Location.toPath (front ++ [last])) = .ok (front, last) := by
  have resolved : fs.resolve front.toPath = .ok front := by
    change fs.walkWith _ [] (.rootDir :: PathBuf.ofNames front) = _
    unfold walkWith
    rw [if_pos fs.root]
    exact fs.walkWith_of_directory inside
  unfold locate
  rw [Location.toPath_concat, List.getLast?_concat, List.dropLast_concat]
  dsimp only
  rw [resolved]
  change (if _ then _ else _) = _
  rw [if_pos inside]

/-- `lstat` of an object's own path reports its type. -/
theorem lstat_of_node (fs : FileSystem Content) {front : Location} {last : Text}
    {object : Node Content} (present : fs.node (front ++ [last]) = some object) :
    fs.lstat (Location.toPath (front ++ [last])) = .ok object.fileType := by
  have located := @locate_of_node _ fs _ last (fs.parent front last (by rw [present]; simp))
  unfold lstat
  rw [located, Location.toPath_concat, List.getLast?_concat]
  change (match fs.node (front ++ [last]) with
    | some found => Except.ok found.fileType
    | none => Except.error IoErrorKind.notFound) = _
  rw [present]

/-- Nothing changes except that directories appear. -/
def OnlyAddsDirectories (fs changed : FileSystem Content) : Prop :=
  ∀ location, changed.node location = fs.node location ∨
    fs.node location = none ∧ changed.node location = some .directory

namespace OnlyAddsDirectories

theorem refl (fs : FileSystem Content) : OnlyAddsDirectories fs fs := fun _ => .inl rfl

theorem trans {first second third : FileSystem Content} (left : OnlyAddsDirectories first second)
    (right : OnlyAddsDirectories second third) : OnlyAddsDirectories first third := by
  intro location
  rcases right location with same | ⟨absent, added⟩
  · rw [same]
    exact left location
  · rcases left location with same | ⟨gone, present⟩
    · exact .inr ⟨same ▸ absent, added⟩
    · exact .inr ⟨gone, added⟩

theorem of_create {fs created : FileSystem Content} {path : PathBuf}
    (finished : fs.create path .directory = .ok created) : OnlyAddsDirectories fs created := by
  obtain ⟨directory, name, -, -, free, updated⟩ := fs.create_ok finished
  intro location
  rw [updated]
  by_cases same : location = directory ++ [name]
  · rw [same, Function.update_self]
    exact .inr ⟨free, rfl⟩
  · exact .inl (Function.update_of_ne same _ _)

end OnlyAddsDirectories

theorem createDirAllReversed_ok (fs : FileSystem Content) {components : List Component}
    {created : FileSystem Content} (finished : fs.createDirAllReversed components = .ok created) :
    OnlyAddsDirectories fs created := by
  induction components generalizing created with
  | nil =>
    cases finished
    exact .refl fs
  | cons last above ih =>
    unfold createDirAllReversed at finished
    dsimp only at finished
    split at finished
    · rename_i made outcome
      cases finished
      exact .of_create outcome
    · obtain ⟨prepared, parents, finished⟩ := Except.bind_eq_ok_iff.mp finished
      split at finished
      · rename_i made outcome
        cases finished
        exact (ih parents).trans (.of_create outcome)
      · split_ifs at finished
        cases finished
        exact ih parents
    · split_ifs at finished
      cases finished
      exact .refl fs

theorem createDirAll_ok (fs : FileSystem Content) {path : PathBuf} {created : FileSystem Content}
    (finished : fs.createDirAll path = .ok created) : OnlyAddsDirectories fs created :=
  fs.createDirAllReversed_ok finished

end FileSystem

section

variable {Content : Type} {fs changed : FileSystem Content}

/-- No directory on the way to the last name is a symlink. -/
def IsPlainBelow (fs : FileSystem Content) (front : Location) : Prop :=
  ∀ above, above <+: front → ¬ fs.IsSymlink above

/-- An object created along a plain way appears at the named location and
nowhere else. -/
theorem create_node {front : Location} {last : Text} {object : Node Content}
    (plain : IsPlainBelow fs front)
    (finished : fs.create (Location.toPath (front ++ [last])) object = .ok changed) :
    changed.node = Function.update fs.node (front ++ [last]) (some object) := by
  obtain ⟨directory, name, located, -, -, updated⟩ := fs.create_ok finished
  obtain ⟨rfl, rfl⟩ := fs.locate_toPath plain located
  exact updated

/-- The object a hardlink shares. -/
theorem hardLink_node {front sourceFront : Location} {last sourceLast : Text}
    (plain : IsPlainBelow fs front) (sourcePlain : IsPlainBelow fs sourceFront)
    (finished : fs.hardLink (Location.toPath (sourceFront ++ [sourceLast]))
      (Location.toPath (front ++ [last])) = .ok changed) :
    ∃ object, fs.node (sourceFront ++ [sourceLast]) = some object ∧
      changed.node = Function.update fs.node (front ++ [last]) (some object) := by
  obtain ⟨⟨directory, name⟩, located, linked⟩ := Except.bind_eq_ok_iff.mp finished
  obtain ⟨rfl, rfl⟩ := fs.locate_toPath sourcePlain located
  dsimp only at linked
  split at linked
  · cases linked
  · cases linked
  · rename_i object _ found
    exact ⟨object, found, create_node plain linked⟩

end

end ZManager
