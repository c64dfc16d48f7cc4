import ZManager.Foundation.FileSystem

/-! # Writing and moving files

`rename` moves an object with everything below it and replaces a file in its
way; `writeFile` opens a file for writing, creating it when it is missing, and
follows symlinks on the way. Along a plain way each of the operations changes
the named locations only.
-/

namespace ZManager

namespace FileSystem

variable {Content : Type}

variable {fs changed : FileSystem Content} {front : Location} {last : Text}

/-! ## Directories along a way -/

/-- Nothing changes except that directories appear on the way to a location. -/
def AddsWay (fs changed : FileSystem Content) (location : Location) : Prop :=
  ∀ other, changed.node other = fs.node other ∨
    fs.node other = none ∧ changed.node other = some .directory ∧ other <+: location

namespace AddsWay

variable {location : Location}

theorem refl (fs : FileSystem Content) (location : Location) : AddsWay fs fs location :=
  fun _ => .inl rfl

theorem trans {middle : FileSystem Content} (first : AddsWay fs middle location)
    (second : AddsWay middle changed location) : AddsWay fs changed location := by
  intro other
  rcases second other with same | ⟨absent, added, above⟩
  · rw [same]
    exact first other
  · rcases first other with same | ⟨gone, -, -⟩
    · exact .inr ⟨same ▸ absent, added, above⟩
    · exact .inr ⟨gone, added, above⟩

theorem mono {longer : Location} (adds : AddsWay fs changed location)
    (above : location <+: longer) : AddsWay fs changed longer := by
  intro other
  rcases adds other with same | ⟨absent, added, inside⟩
  · exact .inl same
  · exact .inr ⟨absent, added, inside.trans above⟩

/-- No symlink appears. -/
theorem not_isSymlink (adds : AddsWay fs changed location) {other : Location}
    (plain : ¬ fs.IsSymlink other) : ¬ changed.IsSymlink other := by
  rintro ⟨target, found⟩
  rcases adds other with same | ⟨-, added, -⟩
  · exact plain ⟨target, same ▸ found⟩
  · rw [added] at found
    cases found

end AddsWay

/-- A path that is a directory along a plain way leads to its own location. -/
theorem node_of_isDir {location : Location} (plain : IsPlainBelow fs location)
    (found : fs.isDir location.toPath = true) : fs.node location = some .directory := by
  unfold isDir at found
  cases resolved : fs.resolve location.toPath with
  | error failure =>
    rw [resolved] at found
    cases found
  | ok reached =>
    rw [resolved] at found
    have walked : fs.walkWith (fs.walk 39) [] (.rootDir :: PathBuf.ofNames location) =
        .ok reached := resolved
    unfold walkWith at walked
    rw [if_pos fs.root] at walked
    have same : reached = [] ++ location := fs.walkWith_ofNames plain walked
    rw [List.nil_append] at same
    subst same
    exact of_decide_eq_true found

theorem createDirAllReversed_way {location : Location} (plain : IsPlainBelow fs location)
    (finished : fs.createDirAllReversed location.toPath.reverse = .ok changed) :
    AddsWay fs changed location ∧ changed.node location = some .directory := by
  induction location using List.reverseRecOn generalizing changed with
  | nil =>
    have top : fs.isDir [.rootDir] = true := by
      have walked : fs.resolve [.rootDir] = .ok [] := by
        change fs.walkWith _ [] [.rootDir] = _
        unfold walkWith
        rw [if_pos fs.root]
        rfl
      unfold isDir
      rw [walked]
      exact decide_eq_true fs.root
    change (if fs.isDir [.rootDir] then Except.ok fs else _) = _ at finished
    rw [if_pos top] at finished
    cases finished
    exact ⟨.refl fs _, fs.root⟩
  | append_singleton front last ih =>
    have upper : IsPlainBelow fs front :=
      fun above inside => plain above (inside.trans (List.prefix_append _ _))
    have reversed : (Location.toPath (front ++ [last])).reverse =
        .normal last :: (Location.toPath front).reverse := by
      rw [Location.toPath_concat, List.reverse_concat]
    have created : ∀ {middle made : FileSystem Content}, IsPlainBelow middle front →
        middle.create (Location.toPath (front ++ [last])) .directory = .ok made →
        AddsWay middle made (front ++ [last]) ∧
          made.node (front ++ [last]) = some .directory := by
      intro middle made plainMiddle outcome
      obtain ⟨directory, name, located, -, free, updated⟩ := middle.create_ok outcome
      obtain ⟨rfl, rfl⟩ := middle.locate_toPath plainMiddle located
      rw [updated]
      refine ⟨fun other => ?_, Function.update_self ..⟩
      by_cases same : other = directory ++ [name]
      · rw [updated, same, Function.update_self]
        exact .inr ⟨free, rfl, List.prefix_rfl⟩
      · rw [updated]
        exact .inl (Function.update_of_ne same _ _)
    rw [reversed] at finished
    unfold createDirAllReversed at finished
    rw [← reversed, List.reverse_reverse] at finished
    dsimp only at finished
    split at finished
    · rename_i made outcome
      cases finished
      exact created upper outcome
    · obtain ⟨prepared, parents, made⟩ := Except.bind_eq_ok_iff.mp finished
      obtain ⟨adds, inside⟩ := ih upper parents
      have plainPrepared : IsPlainBelow prepared (front ++ [last]) :=
        fun above below => adds.not_isSymlink (plain above below)
      split at made
      · rename_i result outcome
        cases made
        obtain ⟨more, present⟩ := created
          (fun above below => plainPrepared above (below.trans (List.prefix_append _ _))) outcome
        exact ⟨(adds.mono (List.prefix_append _ _)).trans more, present⟩
      · split_ifs at made with found
        cases made
        exact ⟨adds.mono (List.prefix_append _ _), node_of_isDir plainPrepared found⟩
    · split_ifs at finished with found
      cases finished
      exact ⟨.refl fs _, node_of_isDir plain found⟩

/-- **`create_dir_all` along a plain way.** Only directories on the way appear,
and the last one is there. -/
theorem createDirAll_way {location : Location} (plain : IsPlainBelow fs location)
    (finished : fs.createDirAll location.toPath = .ok changed) :
    AddsWay fs changed location ∧ changed.node location = some .directory :=
  createDirAllReversed_way plain finished

end FileSystem

end ZManager
