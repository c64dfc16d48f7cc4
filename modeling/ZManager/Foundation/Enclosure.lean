import ZManager.Foundation.FileSystem

/-! # Directories that symlinks do not leave

A symlink is enclosed in a directory when its target leads back into the
directory as it is spelled, and passes no symlink before its last component. If
all symlinks of a directory are enclosed in it, every walk that starts inside
stays inside or never ends: the last component of a target may be another
enclosed symlink, and a target that passes its own link is expanded forever.
-/

namespace ZManager

namespace FileSystem

variable {Content : Type}

variable {budget : Nat} {current place root location final : Location} {component : Component}
  {target : Text}

/-- The target of a link leads back into the directory, past plain places. -/
structure IsEnclosed (fs : FileSystem Content) (root location : Location) (target : Text) :
    Prop where
  relative : PathBuf.isAbsoluteText target = false
  inside : root <+: Location.descend location.dropLast (PathBuf.relativeComponents target)
  passes : ∀ front, front <+: PathBuf.relativeComponents target → front ≠ [] →
    front ≠ PathBuf.relativeComponents target →
    Location.descend location.dropLast front = location ∨
      ¬ fs.IsSymlink (Location.descend location.dropLast front)

/-! ## Single steps of the walk -/

variable (fs : FileSystem Content)

/-- A component that meets no symlink moves the walk as it is spelled. -/
theorem follow_cons (rest : List Component)
    (plain : ∀ name, component = .normal name → ¬ fs.IsSymlink (current ++ [name])) :
    fs.follow budget current (component :: rest) =
      fs.follow budget (current.descend [component]) rest := by
  have step : ∀ redirect, fs.followWith redirect current (component :: rest) =
      fs.followWith redirect (current.descend [component]) rest := by
    intro redirect
    cases component with
    | rootDir => rfl
    | curDir => rfl
    | parentDir => rfl
    | normal name =>
      have notSymlink := plain name rfl
      conv_lhs => unfold followWith
      cases object : fs.node (current ++ [name]) with
      | none => rfl
      | some found =>
        cases found with
        | symlink target => exact absurd ⟨target, object⟩ notSymlink
        | file content => rfl
        | directory => rfl
  cases budget with
  | zero => exact step _
  | succ budget => exact step _

/-- A name that meets a relative symlink goes on with its target. -/
theorem follow_symlink {name : Text}
    (found : fs.node (current ++ [name]) = some (.symlink target))
    (relative : PathBuf.isAbsoluteText target = false) (rest : List Component) :
    fs.follow budget current (.normal name :: rest) =
      match budget with
      | 0 => none
      | budget + 1 => fs.follow budget current (PathBuf.relativeComponents target ++ rest) := by
  cases budget with
  | zero =>
    change fs.followWith _ current (.normal name :: rest) = none
    unfold followWith
    rw [found]
  | succ budget =>
    change fs.followWith _ current (.normal name :: rest) = _
    unfold followWith
    rw [found]
    dsimp only
    rw [relative]
    rfl

/-! ## Targets that pass their own link -/

/-- Only the name of a place below leads from outside to the place itself. -/
theorem eq_name_of_descend_eq (outside : ¬ place <+: current)
    (arrived : current.descend [component] = place) :
    ∃ name, component = .normal name ∧ current ++ [name] = place := by
  cases component with
  | rootDir =>
    subst arrived
    exact absurd List.nil_prefix outside
  | curDir =>
    subst arrived
    exact absurd (List.prefix_refl _) outside
  | parentDir =>
    subst arrived
    exact absurd (List.dropLast_prefix current) outside
  | normal name => exact ⟨name, rfl, arrived⟩

theorem not_below_descend (outside : ¬ place <+: current)
    (elsewhere : current.descend [component] ≠ place) :
    ¬ place <+: current.descend [component] := by
  intro below
  cases component with
  | rootDir => exact elsewhere (List.prefix_nil.mp below).symm
  | curDir => exact outside below
  | parentDir => exact outside (below.trans (List.dropLast_prefix current))
  | normal name =>
    rcases List.prefix_concat_iff.mp below with same | shorter
    · exact elsewhere same.symm
    · exact outside shorter

section

variable (found : fs.node location = some (.symlink target))
  (enclosed : fs.IsEnclosed root location target)
include found enclosed

/-- The rest of a target that still has its own link ahead is walked forever. -/
theorem follow_loop_rest
    (again : ∀ smaller, smaller < budget → ∀ rest, fs.follow smaller location.dropLast
      (PathBuf.relativeComponents target ++ rest) = none) {done todo : List Component}
    (split : PathBuf.relativeComponents target = done ++ todo)
    (outside : ¬ location <+: Location.descend location.dropLast done)
    (ahead : ∃ front, front <+: todo ∧ front ≠ [] ∧
      Location.descend location.dropLast (done ++ front) = location) (rest : List Component) :
    fs.follow budget (Location.descend location.dropLast done) (todo ++ rest) = none := by
  induction todo generalizing done with
  | nil =>
    obtain ⟨front, above, nonempty, -⟩ := ahead
    exact absurd (List.prefix_nil.mp above) nonempty
  | cons component others ih =>
    by_cases arrived : Location.descend location.dropLast (done ++ [component]) = location
    · rw [Location.descend_concat] at arrived
      obtain ⟨name, rfl, here⟩ := eq_name_of_descend_eq outside arrived
      have start := congrArg List.dropLast here
      rw [List.dropLast_concat] at start
      rw [← here] at found
      rw [List.cons_append, fs.follow_symlink found enclosed.relative, start]
      cases budget with
      | zero => rfl
      | succ budget => exact again budget (Nat.lt_succ_self budget) _
    · obtain ⟨front, above, nonempty, reached⟩ := ahead
      obtain ⟨first, later, rfl⟩ := List.exists_cons_of_ne_nil nonempty
      obtain ⟨rfl, shorter⟩ := List.cons_prefix_cons.mp above
      have laterNonempty : later ≠ [] := by
        rintro rfl
        exact arrived reached
      have place := enclosed.passes (done ++ [first])
        (by rw [split, List.append_cons done first others]; exact List.prefix_append _ _)
        (by simp)
        (by
          rw [split, List.append_cons done first others]
          intro whole
          have empty : others = [] := by simpa using whole.symm
          rw [empty] at shorter
          exact laterNonempty (List.prefix_nil.mp shorter))
      have notSymlink := place.resolve_left arrived
      rw [List.cons_append, fs.follow_cons, ← Location.descend_concat]
      · refine ih (by rw [split, ← List.append_cons]) ?_ ⟨later, shorter, laterNonempty, ?_⟩
        · rw [Location.descend_concat]
          exact not_below_descend outside (by rwa [← Location.descend_concat])
        · rwa [← List.append_cons]
      · rintro name rfl
        rwa [Location.descend_concat] at notSymlink

/-- A target that passes its own link is walked forever. -/
theorem follow_loop (loop : ∃ front, front <+: PathBuf.relativeComponents target ∧ front ≠ [] ∧
      Location.descend location.dropLast front = location) (budget : Nat) (rest : List Component) :
    fs.follow budget location.dropLast (PathBuf.relativeComponents target ++ rest) = none := by
  have proper : ¬ location <+: location.dropLast := by
    intro below
    have shorter := below.length_le
    rw [List.length_dropLast] at shorter
    have empty : location = [] := List.eq_nil_of_length_eq_zero (by omega)
    rw [empty, fs.root] at found
    cases found
  induction budget using Nat.strong_induction_on generalizing rest with
  | _ budget ih => exact fs.follow_loop_rest found enclosed ih (List.nil_append _).symm proper loop rest

end

/-! ## Walks stay inside -/

/-- All links of the directory are enclosed in it. -/
def EnclosesLinks (fs : FileSystem Content) (root : Location) : Prop :=
  ∀ location target, root <+: location → fs.node location = some (.symlink target) →
    fs.IsEnclosed root location target

section

variable (encloses : fs.EnclosesLinks root) (inside : root <+: location)
  (found : fs.node location = some (.symlink target))
include encloses inside found

/-- The rest of a target that does not pass its own link leads inside. -/
theorem follow_target_rest
    (straight : ∀ front, front <+: PathBuf.relativeComponents target → front ≠ [] →
      Location.descend location.dropLast front ≠ location)
    (shorter : ∀ smaller, smaller < budget → ∀ other otherTarget, root <+: other →
      fs.node other = some (.symlink otherTarget) → ∀ rest final,
      fs.follow smaller other.dropLast (PathBuf.relativeComponents otherTarget ++ rest) =
        some final → ∃ budget place, root <+: place ∧ fs.follow budget place rest = some final)
    {done todo : List Component} (split : PathBuf.relativeComponents target = done ++ todo)
    {rest : List Component}
    (reached : fs.follow budget (Location.descend location.dropLast done) (todo ++ rest) =
      some final) :
    ∃ budget place, root <+: place ∧ fs.follow budget place rest = some final := by
  have enclosed := encloses location target inside found
  induction todo generalizing done with
  | nil =>
    rw [List.append_nil] at split
    exact ⟨budget, _, split ▸ enclosed.inside, reached⟩
  | cons component others ih =>
    have split' : PathBuf.relativeComponents target = done ++ [component] ++ others := by
      rw [split, List.append_cons]
    by_cases redirected : ∃ name, component = .normal name ∧
        fs.IsSymlink (Location.descend location.dropLast done ++ [name])
    · obtain ⟨name, rfl, otherTarget, symlink⟩ := redirected
      have place : Location.descend location.dropLast (done ++ [Component.normal name]) =
          Location.descend location.dropLast done ++ [name] := by
        rw [Location.descend_concat]
        rfl
      -- Only the last component may be redirected.
      have last : others = [] := by
        by_contra more
        have passed := enclosed.passes (done ++ [Component.normal name])
          (by rw [split']; exact List.prefix_append _ _) (by simp)
          (by rw [split']; simpa using more)
        rw [place] at passed
        rcases passed with here | plain
        · exact straight (done ++
            [Component.normal name]) (by rw [split']; exact List.prefix_append _ _)
            (by simp) (place.trans here)
        · exact plain ⟨otherTarget, symlink⟩
      subst last
      have target' : root <+: Location.descend location.dropLast done ++ [name] := by
        have final := enclosed.inside
        rwa [split, place] at final
      have relative := (encloses _ otherTarget target' symlink).relative
      rw [List.cons_append, List.nil_append, fs.follow_symlink symlink relative] at reached
      cases budget with
      | zero => cases reached
      | succ budget =>
        refine shorter budget (Nat.lt_succ_self budget) _ otherTarget target' symlink rest
          final ?_
        rwa [List.dropLast_concat]
    · rw [List.cons_append, fs.follow_cons, ← Location.descend_concat] at reached
      · exact ih split' reached
      · intro name same symlink
        exact redirected ⟨name, same, symlink⟩

/-- A walk that expands a link of the directory goes on inside. -/
theorem follow_target {rest : List Component}
    (reached : fs.follow budget location.dropLast (PathBuf.relativeComponents target ++ rest) =
      some final) :
    ∃ budget place, root <+: place ∧ fs.follow budget place rest = some final := by
  induction budget using Nat.strong_induction_on generalizing location target rest final with
  | _ budget ih =>
    by_cases loop : ∃ front, front <+: PathBuf.relativeComponents target ∧ front ≠ [] ∧
        Location.descend location.dropLast front = location
    · rw [fs.follow_loop found (encloses location target inside found) loop] at reached
      cases reached
    · refine fs.follow_target_rest encloses inside found
        (fun front above nonempty here => loop ⟨front, above, nonempty, here⟩)
        (fun smaller less other otherTarget otherInside symlink _ _ => ih smaller less otherInside
          symlink) (List.nil_append _).symm reached

end

/-- A walk along names that starts inside ends inside. -/
theorem follow_ofNames (encloses : fs.EnclosesLinks root) (inside : root <+: place)
    {names : List Text} (reached : fs.follow budget place (PathBuf.ofNames names) = some final) :
    root <+: final := by
  induction names generalizing place budget with
  | nil =>
    have same : fs.follow budget place [] = some place := by
      cases budget <;> rfl
    rw [show PathBuf.ofNames [] = [] from rfl, same] at reached
    cases reached
    exact inside
  | cons name rest ih =>
    change fs.follow budget place (.normal name :: PathBuf.ofNames rest) = some final at reached
    have below : root <+: place ++ [name] := inside.trans (List.prefix_append _ _)
    by_cases redirected : fs.IsSymlink (place ++ [name])
    · obtain ⟨target, found⟩ := redirected
      rw [fs.follow_symlink found (encloses _ target below found).relative] at reached
      cases budget with
      | zero => cases reached
      | succ budget =>
        have start : (place ++ [name]).dropLast = place := List.dropLast_concat
        rw [← start] at reached
        obtain ⟨_, other, otherInside, finished⟩ :=
            fs.follow_target encloses below found reached
        exact ih otherInside finished
    · rw [fs.follow_cons _ fun other same => by cases same; exact redirected] at reached
      exact ih below reached

/-- **Enclosed directories.** From any path below a directory that is reached
along plain directories and encloses its links, the walk ends inside or never. -/
theorem follow_inside (encloses : fs.EnclosesLinks root)
    (plain : ∀ above, above <+: root → ¬ fs.IsSymlink above) {names : List Text}
    (reached : fs.follow budget [] (Location.toPath (root ++ names)) = some final) :
    root <+: final := by
  have walked : ∀ front rest, root = front ++ rest →
      fs.follow budget front (PathBuf.ofNames rest ++ PathBuf.ofNames names) = some final →
      fs.follow budget root (PathBuf.ofNames names) = some final := by
    intro front rest
    induction rest generalizing front with
    | nil =>
      intro split walking
      rw [split, List.append_nil]
      exact walking
    | cons name rest ih =>
      intro split walking
      have next : root = front ++ [name] ++ rest := by
        rw [split, List.append_cons]
      refine ih (front ++ [name]) next ?_
      change fs.follow budget front
        (.normal name :: (PathBuf.ofNames rest ++ PathBuf.ofNames names)) = some final at walking
      rw [fs.follow_cons] at walking
      · exact walking
      · intro other same
        cases same
        exact plain _ (by rw [next]; exact List.prefix_append _ _)
  refine fs.follow_ofNames encloses (List.prefix_refl root) (walked [] root rfl ?_)
  rw [Location.toPath_append] at reached
  rwa [show Location.toPath root ++ PathBuf.ofNames names =
    .rootDir :: (PathBuf.ofNames root ++ PathBuf.ofNames names) from rfl,
    fs.follow_cons _ (fun name same => by cases same)] at reached

end FileSystem

end ZManager
