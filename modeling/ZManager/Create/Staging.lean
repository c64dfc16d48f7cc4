import ZManager.Create.Files
import ZManager.Foundation.Step

/-! # Staged outputs beside a directory's content

While an archive is written, the directory holds what it held before and the
temporary files of the outputs. Dropping the outputs gives the old content back;
removing old volumes and committing the outputs acts on that content as if the
temporary files were not there.
-/

namespace ZManager

open Files

variable {path : PathBuf}

/-! ## Temporary names -/

theorem place_concat (directory : PathBuf) (name : Text) :
    place (directory ++ [Component.normal name]) = place directory ++ [Component.normal name] := by
  simp [place]

theorem eq_concat_of_fileName {name : Text} (named : PathBuf.fileName path = some name) :
    path = path.dropLast ++
        [Component.normal name] := by
  unfold PathBuf.fileName at named
  cases last : path.getLast? with
  | none => simp [last] at named
  | some component =>
    rw [last] at named
    cases component with
    | normal found =>
      cases named
      exact (List.dropLast_append_getLast? _ last).symm
    | _ => cases named

/-- Two paths to one place have one name. -/
theorem fileName_eq_of_place_eq {path' : PathBuf} {name name' : Text}
    (named : PathBuf.fileName path = some name) (named' : PathBuf.fileName path' = some name')
    (same : place path = place path') : name = name' := by
  rw [eq_concat_of_fileName named, eq_concat_of_fileName named', place_concat, place_concat] at same
  simpa using (List.append_inj' same rfl).2

/-- A listing order, the one of the map's own keys. -/
noncomputable def ReadOrder.ofKeys : ReadOrder where
  names files directory := files.keys.toList.filterMap fun path =>
    if path.dropLast = place directory then PathBuf.fileName path else none
  nodup files directory := by
    refine List.Nodup.filterMap ?_ files.keys.nodup_toList
    intro path path' name found found'
    simp only [Option.mem_def, Option.ite_none_right_eq_some] at found found'
    rw [eq_concat_of_fileName found.2, eq_concat_of_fileName found'.2, found.1, found'.1]
  mem_names files directory name := by
    simp only [List.mem_filterMap, Finset.mem_toList, Finmap.mem_keys,
      Option.ite_none_right_eq_some]
    constructor
    · rintro ⟨path, present, above, named⟩
      rw [eq_concat_of_fileName named, above] at present
      exact present
    · intro present
      exact ⟨_, present, by simp, by simp [PathBuf.fileName]⟩

namespace AtomicOutputFile

theorem fileName_tempPathAt (names : TempNames) (finalPath : PathBuf) (attempt : Nat) :
    PathBuf.fileName (tempPathAt names finalPath attempt) =
      some (tempName names finalPath attempt) := by
  simp [tempPathAt, PathBuf.fileName]

/-- A temporary name ends in `.tmp`. -/
theorem getLast?_tempName (names : TempNames) (finalPath : PathBuf) (attempt : Nat) :
    (tempName names finalPath attempt).getLast? = some 'p' := by
  have ending : ".tmp".toList = ['.', 't', 'm', 'p'] := by simp
  unfold tempName
  rw [ending, List.getLast?_append]
  rfl

/-- A temporary name is longer than the name it stands for. -/
theorem length_lt_tempName {names : TempNames} {finalPath : PathBuf} {attempt : Nat} {name : Text}
    (named : PathBuf.fileName finalPath = some name) :
    name.length < (tempName names finalPath attempt).length := by
  have marked : 0 < ".zmanager-".toList.length := by decide
  unfold tempName
  rw [named]
  generalize ".zmanager-".toList = lead at marked
  simp only [Option.getD_some, List.length_append]
  omega

end AtomicOutputFile

/-! ## Old content and temporary files -/

/-- The directory holds `base` and, under fresh temporary names, the staged
outputs with the bytes written so far. -/
structure Staged (base files : Files) (staged : List (AtomicOutputFile × List UInt8)) :
    Prop where
  nodup : (staged.map fun output => place output.1.tempPath).Nodup
  fresh : ∀ output ∈ staged, place output.1.tempPath ∉ base
  held : ∀ output ∈ staged, files.lookup (place output.1.tempPath) = some (.file output.2)
  frame : ∀ path, (∀ output ∈ staged, path ≠ place output.1.tempPath) →
    files.lookup path = base.lookup path

/-- The path may be written to: it is no directory, and it is free unless what
stands there may be replaced. -/
def Files.IsAvailable (files : Files) (replaceExisting : Bool) (path : PathBuf) : Prop :=
  files.symlinkMetadata path ≠ some .directory ∧
    (replaceExisting = false → files.symlinkMetadata path = none)

theorem ensureFileDestinationAvailable_ok {files : Files} {replaceExisting : Bool} :
    ensureFileDestinationAvailable files replaceExisting path = .ok () ↔
      files.IsAvailable replaceExisting path := by
  unfold ensureFileDestinationAvailable IsAvailable
  cases files.symlinkMetadata path with
  | none => simp
  | some entry =>
    cases entry with
    | directory => simp
    | file bytes => cases replaceExisting <;> simp

theorem ensureSplitDestinationsAvailable_ok {files : Files} {destination : PathBuf}
    {volumePaths existing : List PathBuf} {replaceExisting : Bool} :
    ensureSplitDestinationsAvailable files destination volumePaths existing replaceExisting =
        .ok () ↔
      ∀ path ∈ destination :: (volumePaths ++ existing),
        files.IsAvailable replaceExisting path := by
  unfold ensureSplitDestinationsAvailable
  rw [Except.forM_eq_ok_iff]
  simp only [List.mem_cons, List.mem_eraseDups]
  refine forall₂_congr fun path _ => ?_
  rw [← ensureFileDestinationAvailable_ok]
  cases ensureFileDestinationAvailable files replaceExisting path with
  | ok value => exact ⟨fun _ => rfl, fun _ => rfl⟩
  | error failure => exact ⟨fun same => (by cases same), fun same => (by cases same)⟩

/-- The content after removing what stands at the paths. -/
def removeAll (paths : List PathBuf) (base : Files) : Files :=
  paths.foldl (fun files path => files.erase (place path)) base

/-- The content after moving the outputs to their destinations. -/
def publish (staged : List (AtomicOutputFile × List UInt8)) (base : Files) : Files :=
  staged.foldl (fun files output => files.insert (place output.1.finalPath) (.file output.2)) base

theorem lookup_removeAll {paths : List PathBuf} {base : Files} :
    (removeAll paths base).lookup path =
      if path ∈ paths.map place then none else base.lookup path := by
  unfold removeAll
  induction paths generalizing base with
  | nil => rfl
  | cons first rest ih =>
    rw [List.foldl_cons, ih, List.map_cons]
    by_cases inside : path ∈ rest.map place
    · rw [if_pos inside, if_pos (List.mem_cons_of_mem _ inside)]
    · rw [if_neg inside]
      by_cases same : path = place first
      · rw [same, Finmap.lookup_erase, if_pos (List.mem_cons_self ..)]
      · rw [Finmap.lookup_erase_ne same, if_neg]
        simp only [List.mem_cons, not_or]
        exact ⟨same, inside⟩

theorem lookup_publish_of_not_mem {staged : List (AtomicOutputFile × List UInt8)} {base : Files}
    (other : ∀ output ∈ staged, path ≠ place output.1.finalPath) :
    (publish staged base).lookup path = base.lookup path := by
  unfold publish
  induction staged generalizing base with
  | nil => rfl
  | cons output rest ih =>
    rw [List.foldl_cons, ih fun output member => other output (List.mem_cons_of_mem _ member),
      Finmap.lookup_insert_of_ne _ (other output (List.mem_cons_self ..))]

theorem lookup_publish_of_mem {staged : List (AtomicOutputFile × List UInt8)} {base : Files}
    (distinct : (staged.map fun output => place output.1.finalPath).Nodup)
    {output : AtomicOutputFile × List UInt8} (member : output ∈ staged) :
    (publish staged base).lookup (place output.1.finalPath) = some (.file output.2) := by
  induction staged generalizing base with
  | nil => cases member
  | cons first rest ih =>
    obtain ⟨notAgain, distinct⟩ := List.nodup_cons.mp distinct
    rcases List.mem_cons.mp member with rfl | inside
    · have other : ∀ later ∈ rest, place output.1.finalPath ≠ place later.1.finalPath := by
        intro later inside same
        exact notAgain (List.mem_map.mpr ⟨later, inside, same.symm⟩)
      exact (lookup_publish_of_not_mem other).trans (Finmap.lookup_insert _)
    · exact ih distinct inside

/-- The bytes of the files at the paths, one after the other. -/
def joinedContent (files : Files) (paths : List PathBuf) : Option (List UInt8) :=
  (paths.mapM fun path =>
    match files.symlinkMetadata path with
    | some (.file bytes) => some bytes
    | _ => none).map List.flatten

/-- Published outputs joined are their bytes joined. -/
theorem joinedContent_publish {staged : List (AtomicOutputFile × List UInt8)} {base : Files}
    (named : ∀ output ∈ staged, PathBuf.fileName output.1.finalPath ≠ none)
    (distinct : (staged.map fun output => place output.1.finalPath).Nodup) :
    joinedContent (publish staged base) (staged.map (·.1.finalPath)) =
      some (staged.map (·.2)).flatten := by
  have contents : ∀ part, part ⊆ staged → (part.map (·.1.finalPath)).mapM (fun path =>
      match (publish staged base).symlinkMetadata path with
      | some (.file bytes) => some bytes
      | _ => none) = some (part.map (·.2)) := by
    intro part inside
    induction part with
    | nil => rfl
    | cons output rest ih =>
      obtain ⟨member, inside⟩ := List.cons_subset.mp inside
      have found : (publish staged base).symlinkMetadata output.1.finalPath =
          some (.file output.2) := by
        rw [symlinkMetadata, if_neg (named output member)]
        exact lookup_publish_of_mem distinct member
      rw [List.map_cons, List.mapM_cons, found, ih inside]
      rfl
  rw [joinedContent, contents staged (List.Subset.refl _), Option.map_some]

namespace Staged

variable {base files : Files} {staged : List (AtomicOutputFile × List UInt8)}

variable {path : PathBuf} {output : AtomicOutputFile} {existing : List PathBuf}

theorem nil (base : Files) : Staged base base [] where
  nodup := List.nodup_nil
  fresh := by simp
  held := by simp
  frame := fun _ _ => rfl

/-- A path that is no temporary one is seen as in the old content. -/
theorem symlinkMetadata_eq (held : Staged base files staged)
    (other : ∀ output ∈ staged, place path ≠ place output.1.tempPath) :
    files.symlinkMetadata path = base.symlinkMetadata path := by
  unfold symlinkMetadata
  by_cases nameless : PathBuf.fileName path = none
  · rw [if_pos nameless, if_pos nameless]
  · rw [if_neg nameless, if_neg nameless]
    exact held.frame _ other

/-- Dropping the outputs gives the old content back. -/
theorem dropAll (held : Staged base files staged) :
    AtomicOutputFile.dropAll (staged.map Prod.fst) files = base := by
  induction staged generalizing files with
  | nil => exact Finmap.ext_lookup fun path => held.frame path (by simp)
  | cons output rest ih =>
    obtain ⟨notAgain, distinct⟩ := List.nodup_cons.mp held.nodup
    have later : ∀ other ∈ rest, place other.1.tempPath ≠ place output.1.tempPath := by
      intro other inside same
      exact notAgain (List.mem_map.mpr ⟨other, inside, same⟩)
    change AtomicOutputFile.dropAll (rest.map Prod.fst) (output.1.drop files) = base
    apply ih
    refine ⟨distinct, fun other inside => held.fresh other (List.mem_cons_of_mem _ inside),
      ?_, ?_⟩
    · intro other inside
      unfold AtomicOutputFile.drop removeFile
      rw [Finmap.lookup_erase_ne (later other inside)]
      exact held.held other (List.mem_cons_of_mem _ inside)
    · intro path other
      unfold AtomicOutputFile.drop removeFile
      by_cases same : path = place output.1.tempPath
      · rw [same, Finmap.lookup_erase]
        exact (Finmap.lookup_eq_none.mpr (held.fresh output (List.mem_cons_self ..))).symm
      · rw [Finmap.lookup_erase_ne same]
        refine held.frame path fun candidate inside => ?_
        rcases List.mem_cons.mp inside with rfl | inside
        · exact same
        · exact other candidate inside

/-- A new output adds its temporary file, which is empty. -/
theorem create (held : Staged base files staged) {names : TempNames} {finalPath : PathBuf}
    {created : Files}
    (done : AtomicOutputFile.create names files finalPath = .ok (output, created)) :
    output.finalPath = finalPath ∧
      (∃ attempt, output.tempPath = AtomicOutputFile.tempPathAt names finalPath attempt) ∧
      Staged base created (staged ++ [(output, [])]) := by
  unfold AtomicOutputFile.create at done
  cases found : (List.range AtomicOutputFile.maxTempAttempts).find? fun attempt =>
      decide (files.symlinkMetadata (AtomicOutputFile.tempPathAt names finalPath attempt) =
        none) with
  | none =>
    rw [found] at done
    cases done
  | some attempt =>
    rw [found] at done
    cases done
    have free := List.find?_some found
    simp only [decide_eq_true_eq] at free
    have named : PathBuf.fileName (AtomicOutputFile.tempPathAt names finalPath attempt) ≠
        none := by
      simp [AtomicOutputFile.tempPathAt, PathBuf.fileName]
    rw [symlinkMetadata, if_neg named] at free
    have apart : ∀ other ∈ staged, place other.1.tempPath ≠
        place (AtomicOutputFile.tempPathAt names finalPath attempt) := by
      intro other inside same
      rw [← same, held.held other inside] at free
      cases free
    refine ⟨rfl, ⟨attempt, rfl⟩, ?_, ?_, ?_, ?_⟩
    · rw [List.map_append, List.nodup_append]
      refine ⟨held.nodup, List.nodup_singleton _, ?_⟩
      intro temp inside temp' inside' same
      obtain ⟨other, member, rfl⟩ := List.mem_map.mp inside
      rw [List.map_singleton, List.mem_singleton] at inside'
      exact apart other member (same.trans inside')
    · intro other inside
      rcases List.mem_append.mp inside with inside | last
      · exact held.fresh other inside
      · rw [List.mem_singleton.mp last, ← Finmap.lookup_eq_none, ← free]
        exact (held.frame _ fun output member => (apart output member).symm).symm
    · intro other inside
      rcases List.mem_append.mp inside with inside | last
      · rw [writeFile, Finmap.lookup_insert_of_ne _ (apart other inside)]
        exact held.held other inside
      · rw [List.mem_singleton.mp last]
        exact Finmap.lookup_insert _
    · intro path other
      rw [writeFile, Finmap.lookup_insert_of_ne]
      · exact held.frame path fun output member =>
          other output (List.mem_append_left _ member)
      · exact other _ (List.mem_append_right _ (List.mem_singleton.mpr rfl))

/-- Writing to the output that was created last. -/
theorem write {before : List UInt8} (held : Staged base files (staged ++ [(output, before)]))
    (bytes : List UInt8) :
    Staged base (files.writeFile output.tempPath bytes) (staged ++ [(output, bytes)]) := by
  have last : (output, before) ∈ staged ++ [(output, before)] :=
    List.mem_append_right _ (List.mem_singleton.mpr rfl)
  have apart : ∀ other ∈ staged, place other.1.tempPath ≠ place output.tempPath := by
    intro other inside same
    have distinct := held.nodup
    rw [List.map_append, List.nodup_append] at distinct
    exact distinct.2.2 _ (List.mem_map.mpr ⟨other, inside, rfl⟩) _
      (List.mem_singleton.mpr rfl) same
  refine ⟨?_, ?_, ?_, ?_⟩
  · simpa using held.nodup
  · intro other inside
    rcases List.mem_append.mp inside with inside | same
    · exact held.fresh other (List.mem_append_left _ inside)
    · rw [List.mem_singleton.mp same]
      exact held.fresh (output, before) last
  · intro other inside
    rcases List.mem_append.mp inside with inside | same
    · rw [writeFile, Finmap.lookup_insert_of_ne _ (apart other inside)]
      exact held.held other (List.mem_append_left _ inside)
    · rw [List.mem_singleton.mp same]
      exact Finmap.lookup_insert _
  · intro path other
    rw [writeFile, Finmap.lookup_insert_of_ne]
    · refine held.frame path fun candidate inside => ?_
      rcases List.mem_append.mp inside with inside | same
      · exact other candidate (List.mem_append_left _ inside)
      · rw [List.mem_singleton.mp same]
        exact other (output, bytes) (List.mem_append_right _ (List.mem_singleton.mpr rfl))
    · exact other (output, bytes) (List.mem_append_right _ (List.mem_singleton.mpr rfl))

/-- The order in which outputs were staged does not matter. -/
theorem perm (held : Staged base files staged) {staged' : List (AtomicOutputFile × List UInt8)}
    (same : staged.Perm staged') : Staged base files staged' where
  nodup := (same.map _).nodup_iff.mp held.nodup
  fresh := fun output member => held.fresh output (same.mem_iff.mpr member)
  held := fun output member => held.held output (same.mem_iff.mpr member)
  frame := fun path apart => held.frame path fun output member =>
    apart output (same.mem_iff.mp member)

/-- Writing behind what the output that was created last holds. -/
theorem append {output : AtomicOutputFile} {before : List UInt8}
    (held : Staged base files (staged ++ [(output, before)])) (bytes : List UInt8) :
    Staged base (files.appendFile output.tempPath bytes) (staged ++ [(output, before ++
        bytes)]) := by
  have found := held.held (output, before) (List.mem_append_right _ (List.mem_singleton.mpr rfl))
  unfold appendFile
  rw [found]
  exact held.write (before ++ bytes)

section

variable (held : Staged base files staged)
include held

/-- Writing behind what one of the outputs holds. -/
theorem appendAt {index : Nat} (found : (staged.map Prod.fst)[index]? = some output)
    (bytes : List UInt8) :
    Staged base (files.appendFile output.tempPath bytes)
      (staged.modify index fun entry => (entry.1, entry.2 ++ bytes)) := by
  rw [List.getElem?_map] at found
  obtain ⟨entry, at_index, rfl⟩ := Option.map_eq_some_iff.mp found
  obtain ⟨output, before⟩ := entry
  obtain ⟨inside, same⟩ := List.getElem?_eq_some_iff.mp at_index
  have parted : staged = staged.take index ++ (output, before) :: staged.drop (index + 1) := by
    rw [← same, List.cons_getElem_drop_succ, List.take_append_drop]
  have modified : staged.modify index (fun entry => (entry.1, entry.2 ++ bytes)) =
      staged.take index ++ (output, before ++ bytes) :: staged.drop (index + 1) := by
    rw [List.modify_eq_take_cons_drop inside, same]
  have toLast : ∀ entry : AtomicOutputFile × List UInt8,
      (staged.take index ++ entry :: staged.drop (index + 1)).Perm
        (staged.take index ++ staged.drop (index + 1) ++ [entry]) := by
    intro entry
    rw [List.append_assoc]
    exact (List.perm_append_singleton _ _).symm.append_left _
  rw [modified]
  rw [parted] at held
  exact ((held.perm (toLast _)).append bytes).perm (toLast _).symm

/-- Removing an old file acts on the old content. -/
theorem erase (other : ∀ output ∈ staged, path ≠ place output.1.tempPath) :
    Staged (base.erase path) (files.erase path) staged where
  nodup := held.nodup
  fresh := fun output member inside => held.fresh output member (Finmap.mem_erase.mp inside).2
  held := fun output member => by
    rw [Finmap.lookup_erase_ne (other output member).symm]
    exact held.held output member
  frame := fun candidate apart => by
    by_cases same : candidate = path
    · rw [same, Finmap.lookup_erase, Finmap.lookup_erase]
    · rw [Finmap.lookup_erase_ne same, Finmap.lookup_erase_ne same]
      exact held.frame candidate apart

/-- Clearing a destination that holds no directory succeeds. -/
theorem removeFileDestination (other : ∀ output ∈ staged, place path ≠ place output.1.tempPath)
    (noDirectory : base.symlinkMetadata path ≠ some .directory) :
    ∃ cleared, removeFileDestinationForReplace files path = (.ok (), cleared) ∧
      Staged (base.erase (place path)) cleared staged := by
  have seen := held.symlinkMetadata_eq other
  unfold removeFileDestinationForReplace
  cases found : base.symlinkMetadata path with
  | none =>
    rw [seen, found]
    refine ⟨files, rfl, ?_⟩
    have absent : base.lookup (place path) = none := by
      unfold symlinkMetadata at found
      by_cases nameless : PathBuf.fileName path = none
      · rw [if_pos nameless] at found
        cases found
      · rwa [if_neg nameless] at found
    have same : base.erase (place path) = base := by
      apply Finmap.ext_lookup
      intro candidate
      by_cases equal : candidate = place path
      · rw [equal, Finmap.lookup_erase, absent]
      · exact Finmap.lookup_erase_ne equal
    rw [same]
    exact held
  | some entry =>
    cases entry with
    | directory => exact absurd found noDirectory
    | file bytes =>
      rw [seen, found]
      exact ⟨_, rfl, held.erase other⟩

/-- Clearing old volumes and the destination succeeds when none is a directory. -/
theorem removeSplitDestinations {destination : PathBuf}
    (other : ∀ path ∈ existing ++ [destination], ∀ output ∈ staged,
      place path ≠ place output.1.tempPath) (noDirectory : ∀ path ∈ existing ++ [destination],
      base.symlinkMetadata path ≠ some .directory) :
    ∃ cleared, removeSplitDestinationsForReplace destination existing files = (.ok (), cleared) ∧
      Staged (removeAll (existing ++ [destination]) base) cleared staged := by
  induction existing generalizing base files with
  | nil =>
    obtain ⟨cleared, done, held⟩ := held.removeFileDestination (other destination (by simp))
      (noDirectory destination (by simp))
    unfold removeSplitDestinationsForReplace
    rw [done]
    exact ⟨cleared, rfl, held⟩
  | cons path rest ih =>
    obtain ⟨cleared, done, held⟩ := held.removeFileDestination (other path (by simp))
      (noDirectory path (by simp))
    unfold removeSplitDestinationsForReplace
    rw [done]
    apply ih held
    · exact fun path member => other path (List.mem_cons_of_mem _ member)
    · intro candidate member found
      refine noDirectory candidate (List.mem_cons_of_mem _ member) ?_
      unfold symlinkMetadata at found ⊢
      by_cases nameless : PathBuf.fileName candidate = none
      · rw [if_pos nameless]
      · rw [if_neg nameless] at found ⊢
        by_cases same : place candidate = place path
        · rw [same, Finmap.lookup_erase] at found
          cases found
        · rwa [Finmap.lookup_erase_ne same] at found

end

/-- Moving an output to its destination, which holds no directory, and nothing at
all unless it may be replaced. -/
theorem commit {output : AtomicOutputFile} {bytes : List UInt8} {replaceExisting : Bool}
    (held : Staged base files ((output, bytes) :: staged))
    (named : PathBuf.fileName output.finalPath ≠ none)
    (other : ∀ candidate ∈ (output, bytes) :: staged,
      place output.finalPath ≠ place candidate.1.tempPath)
    (free : base.lookup (place output.finalPath) = none ∨
      replaceExisting ∧ base.lookup (place output.finalPath) ≠ some .directory) :
    ∃ committed, output.commitWithFileReplace replaceExisting files = (.ok (), committed) ∧
      Staged (base.insert (place output.finalPath) (.file bytes)) committed staged := by
  obtain ⟨notAgain, distinct⟩ := List.nodup_cons.mp held.nodup
  have later : ∀ candidate ∈ staged, place candidate.1.tempPath ≠ place output.tempPath := by
    intro candidate inside same
    exact notAgain (List.mem_map.mpr ⟨candidate, inside, same⟩)
  -- the move itself, from any content that only lacks what stood at the destination
  have moved : ∀ cleared : Files, Staged (base.erase (place output.finalPath)) cleared
      ((output, bytes) :: staged) →
      Staged (base.insert (place output.finalPath) (.file bytes))
        (cleared.rename output.tempPath output.finalPath) staged := by
    intro cleared held'
    have source := held'.held (output, bytes) (List.mem_cons_self ..)
    unfold rename
    rw [source]
    refine ⟨distinct, ?_, ?_, ?_⟩
    · intro candidate inside present
      rcases Finmap.mem_insert.mp present with same | present
      · exact other candidate (List.mem_cons_of_mem _ inside) same.symm
      · exact held.fresh candidate (List.mem_cons_of_mem _ inside) present
    · intro candidate inside
      rw [Finmap.lookup_insert_of_ne _ (other candidate (List.mem_cons_of_mem _ inside)).symm,
        Finmap.lookup_erase_ne (later candidate inside)]
      exact held'.held candidate (List.mem_cons_of_mem _ inside)
    · intro path apart
      by_cases final : path = place output.finalPath
      · rw [final, Finmap.lookup_insert, Finmap.lookup_insert]
      rw [Finmap.lookup_insert_of_ne _ final, Finmap.lookup_insert_of_ne _ final]
      by_cases temp : path = place output.tempPath
      · rw [temp, Finmap.lookup_erase]
        exact (Finmap.lookup_eq_none.mpr (held.fresh (output, bytes)
          (List.mem_cons_self ..))).symm
      · rw [Finmap.lookup_erase_ne temp, held'.frame path, Finmap.lookup_erase_ne final]
        intro candidate inside
        rcases List.mem_cons.mp inside with rfl | inside
        · exact temp
        · exact apart candidate inside
  have seen := held.symlinkMetadata_eq other
  unfold symlinkMetadata at seen
  rw [if_neg named, if_neg named] at seen
  have noDirectory : base.symlinkMetadata output.finalPath ≠ some .directory := by
    unfold symlinkMetadata
    rw [if_neg named]
    rcases free with absent | ⟨_, kept⟩
    · simp [absent]
    · exact kept
  obtain ⟨cleared, done, staged'⟩ := held.removeFileDestination other noDirectory
  unfold AtomicOutputFile.commitWithFileReplace
  cases replaceExisting with
  | true =>
    rw [if_pos rfl, done]
    exact ⟨_, rfl, moved cleared staged'⟩
  | false =>
    have absent : base.lookup (place output.finalPath) = none := by
      rcases free with absent | ⟨impossible, _⟩
      · exact absent
      · cases impossible
    rw [if_neg (by decide), symlinkMetadata, if_neg named, seen, absent]
    refine ⟨_, rfl, moved files ?_⟩
    rw [removeFileDestinationForReplace, symlinkMetadata, if_neg named, seen, absent] at done
    cases done
    exact staged'

/-- **Commit of all outputs.** Their destinations hold the new bytes, and nothing
else changes. -/
theorem commitAll {replaceExisting : Bool} (held : Staged base files staged)
    (named : ∀ output ∈ staged, PathBuf.fileName output.1.finalPath ≠ none)
    (distinct : (staged.map fun output => place output.1.finalPath).Nodup)
    (other : ∀ output ∈ staged, ∀ candidate ∈ staged,
      place output.1.finalPath ≠ place candidate.1.tempPath)
    (free : ∀ output ∈ staged, base.lookup (place output.1.finalPath) = none ∨
      replaceExisting ∧ base.lookup (place output.1.finalPath) ≠ some .directory) :
    AtomicOutputFile.commitAll replaceExisting (staged.map Prod.fst) files =
      (.ok (), publish staged base) := by
  induction staged generalizing base files with
  | nil =>
    have same : files = base := Finmap.ext_lookup fun path => held.frame path (by simp)
    rw [same]
    rfl
  | cons output rest ih =>
    obtain ⟨notAgain, distinct⟩ := List.nodup_cons.mp distinct
    obtain ⟨committed, done, held⟩ := held.commit (named output (List.mem_cons_self ..))
      (other output (List.mem_cons_self ..)) (free output (List.mem_cons_self ..))
    rw [List.map_cons, AtomicOutputFile.commitAll, done]
    apply ih held
    · exact fun later member => named later (List.mem_cons_of_mem _ member)
    · exact distinct
    · intro later member candidate inside
      exact other later (List.mem_cons_of_mem _ member) candidate (List.mem_cons_of_mem _ inside)
    · intro later member
      rw [Finmap.lookup_insert_of_ne]
      · exact free later (List.mem_cons_of_mem _ member)
      · intro same
        exact notAgain (List.mem_map.mpr ⟨later, member, same⟩)

/-- **The last step of a creation succeeds** when every destination is available:
the old volumes are gone, the new ones stand in place, and no temporary file is
left. -/
theorem commitSplitVolumes (blamed : PathBuf → PathBuf) {destination : PathBuf}
    {replaceExisting : Bool} (held : Staged base files staged)
    (available : ∀ path ∈ destination :: (staged.map (·.1.finalPath) ++ existing),
      base.IsAvailable replaceExisting path)
    (distinct : (staged.map fun output => place output.1.finalPath).Nodup)
    (other : ∀ path ∈ destination :: (staged.map (·.1.finalPath) ++ existing),
      ∀ output ∈ staged, place path ≠ place output.1.tempPath) :
    ZManager.commitSplitVolumes blamed destination existing replaceExisting (staged.map Prod.fst)
        files =
      (.ok (), publish staged
        (if replaceExisting then removeAll (existing ++ [destination]) base else base)) := by
  have final : ∀ output ∈ staged,
      output.1.finalPath ∈ destination :: (staged.map (·.1.finalPath) ++ existing) := by
    intro output member
    simp only [List.mem_cons, List.mem_append, List.mem_map]
    exact .inr (.inl ⟨output, member, rfl⟩)
  have named : ∀ output ∈ staged, PathBuf.fileName output.1.finalPath ≠ none := by
    intro output member nameless
    refine (available _ (final output member)).1 ?_
    rw [symlinkMetadata, if_pos nameless]
  have seen : ∀ output ∈ staged, base.symlinkMetadata output.1.finalPath =
      base.lookup (place output.1.finalPath) := by
    intro output member
    rw [symlinkMetadata, if_neg (named output member)]
  unfold ZManager.commitSplitVolumes
  cases replaceExisting with
  | false =>
    simp only [Bool.false_eq_true, ↓reduceIte]
    apply held.commitAll named distinct
    · exact fun output member => other _ (final output member)
    · intro output member
      rw [← seen output member]
      exact .inl ((available _ (final output member)).2 rfl)
  | true =>
    have removed : ∀ path ∈ existing ++ [destination],
        path ∈ destination :: (staged.map (·.1.finalPath) ++ existing) := by
      intro path member
      simp only [List.mem_append, List.mem_cons] at member ⊢
      tauto
    obtain ⟨cleared, done, held⟩ := held.removeSplitDestinations
      (fun path member => other path (removed path member))
      (fun path member => (available path (removed path member)).1)
    simp only [↓reduceIte, done]
    apply held.commitAll named distinct
    · exact fun output member => other _ (final output member)
    · intro output member
      rw [lookup_removeAll]
      by_cases gone : place output.1.finalPath ∈ (existing ++ [destination]).map place
      · exact .inl (if_pos gone)
      · rw [if_neg gone, ← seen output member]
        exact .inr ⟨rfl, (available _ (final output member)).1⟩

end Staged

end ZManager
