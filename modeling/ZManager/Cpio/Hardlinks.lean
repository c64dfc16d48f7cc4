import ZManager.Cpio.Reader

/-! # Further names of a file

The reader goes through the candidates one after another and changes entries in
place. An entry that becomes a link is empty, and the content of a link is looked
for among entries that are not empty, so each decision depends on the entries as
they were read.
-/

namespace ZManager

namespace Cpio

/-- An entry after links are assigned. -/
def withHardlink (entries : List ParsedEntry) (entry : ParsedEntry) : ParsedEntry :=
  if entry.kind = .file ∧ 1 < entry.nlink ∧ entry.size = 0 then
    match linkSource entries entry.inode entry.device with
    | none => entry
    | some target => { entry with kind := .hardlink, linkTarget := some target.path }
  else entry

/-- Every entry knows its place. -/
def Indexed (entries : List ParsedEntry) : Prop :=
  ∀ (position : Nat) (entry : ParsedEntry),
    entries[position]? = some entry → entry.index = position

section

variable {entries : List ParsedEntry}

theorem withHardlink_of_size {entry : ParsedEntry} (filled : entry.size ≠ 0) :
    withHardlink entries entry = entry := by
  unfold withHardlink
  rw [if_neg]
  intro candidate
  exact filled candidate.2.2

/-- What links do not change. -/
theorem withHardlink_keeps (entry : ParsedEntry) :
    (withHardlink entries entry).path = entry.path ∧
      (withHardlink entries entry).mode = entry.mode ∧
        (withHardlink entries entry).modified = entry.modified ∧
          (withHardlink entries entry).size = entry.size ∧
            (withHardlink entries entry).dataOffset = entry.dataOffset ∧
              (withHardlink entries entry).checksum = entry.checksum := by
  unfold withHardlink
  split_ifs
  · cases linkSource entries entry.inode entry.device with
    | none => exact ⟨rfl, rfl, rfl, rfl, rfl, rfl⟩
    | some target => exact ⟨rfl, rfl, rfl, rfl, rfl, rfl⟩
  · exact ⟨rfl, rfl, rfl, rfl, rfl, rfl⟩

/-- Assigned links are never the content of others. -/
theorem linkSource_resolved (before later : List ParsedEntry) (inode : Nat) (device : Nat × Nat) :
    linkSource (before.map (withHardlink entries) ++ later) inode device =
      linkSource (before ++ later) inode device := by
  induction before with
  | nil => rfl
  | cons entry rest ih =>
    unfold linkSource at ih ⊢
    rw [List.map_cons, List.cons_append, List.cons_append, List.find?_cons, List.find?_cons, ih]
    by_cases filled : entry.size = 0
    · have empty : (withHardlink entries entry).size = 0 :=
        (withHardlink_keeps entry).2.2.2.1.trans filled
      simp only [filled, empty, ne_eq, not_true_eq_false, decide_false, Bool.and_false,
        Bool.false_and]
    · rw [withHardlink_of_size filled]

theorem assignHardlinks_resolved {before later : List ParsedEntry}
    (indexed : Indexed (before ++ later)) :
    assignHardlinks (before.map (withHardlink (before ++ later)) ++ later)
        (linkCandidates later) =
      (before ++ later).map (withHardlink (before ++ later)) := by
  -- The entries before are resolved; the candidates are those of the entries behind.
  induction later generalizing before with
  | nil =>
    rw [List.append_nil, List.append_nil]
    rfl
  | cons entry rest ih =>
    have place : entry.index = before.length := indexed before.length entry (by simp)
    have shape : before ++ entry :: rest = (before ++ [entry]) ++ rest := by simp
    have next : before.map (withHardlink (before ++ entry :: rest)) ++
        withHardlink (before ++ entry :: rest) entry :: rest =
        (before ++ [entry]).map (withHardlink ((before ++ [entry]) ++ rest)) ++ rest := by
      rw [← shape, List.map_append, List.map_singleton, List.append_assoc]
      rfl
    have resolved := @ih (before ++ [entry]) (shape ▸ indexed)
    rw [← next, ← shape] at resolved
    by_cases candidate : (entry.kind = .file && 1 < entry.nlink) = true
    · have listed : linkCandidates (entry :: rest) =
          (entry.inode, entry.device, before.length) :: linkCandidates rest := by
        unfold linkCandidates
        rw [List.filter_cons, if_pos candidate, List.map_cons, place]
      have decided : assignHardlink
          (before.map (withHardlink (before ++ entry :: rest)) ++ entry :: rest)
            (entry.inode, entry.device, before.length) =
          before.map (withHardlink (before ++ entry :: rest)) ++
            withHardlink (before ++ entry :: rest) entry :: rest := by
        simp only [Bool.and_eq_true, decide_eq_true_eq] at candidate
        have found : (before.map (withHardlink (before ++ entry :: rest)) ++
            entry :: rest)[before.length]? = some entry := by
          rw [List.getElem?_append_right (by simp)]
          simp
        simp only [assignHardlink, found, linkSource_resolved]
        by_cases filled : entry.size = 0
        · rw [if_neg (not_not.mpr filled)]
          unfold withHardlink
          rw [if_pos ⟨candidate.1, candidate.2, filled⟩]
          cases linkSource (before ++ entry :: rest) entry.inode entry.device with
          | none => rfl
          | some target => simp
        · rw [if_pos filled, withHardlink_of_size filled]
      rw [listed]
      unfold assignHardlinks at resolved ⊢
      rw [List.foldl_cons, decided, resolved]
    · have listed : linkCandidates (entry :: rest) = linkCandidates rest := by
        unfold linkCandidates
        rw [List.filter_cons, if_neg candidate]
      have same : withHardlink (before ++ entry :: rest) entry = entry := by
        unfold withHardlink
        rw [if_neg]
        intro met
        exact candidate (by simp [met.1, met.2.1])
      rw [same] at resolved
      rw [listed, resolved]

/-- **Links are assigned entry by entry.** The order of the candidates does not
matter. -/
theorem assignHardlinks_eq_map (indexed : Indexed entries) :
    assignHardlinks entries (linkCandidates entries) = entries.map (withHardlink entries) :=
  @assignHardlinks_resolved [] entries indexed

end

end Cpio

end ZManager
