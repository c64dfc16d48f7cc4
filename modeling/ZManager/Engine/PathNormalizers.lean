import ZManager.Foundation.Path
import ZManager.Safety.Selection

/-! # One normal form of paths

Paths are normalized for the engine, for selectors and for extraction. The engine scans the bytes
of a path first and leaves it alone when nothing has to be done. All three come to the components
of the path, joined, and a selector selects what has its components in front.
-/

namespace ZManager

/-! ## The canonical name -/

/-- The scan of `normalize_engine_path` for a backslash, a doubled separator or a
`.` component. -/
def needsNormalizationFrom : Text → (component : Text) → (prevSlash : Bool) → Bool
  | [], component, _ => component == ['.']
  | c :: rest, component, prevSlash =>
    if c = '\\' then true
    else if c = '/' then
      if prevSlash then true
      else if component = ['.'] then true
      else needsNormalizationFrom rest [] true
    else needsNormalizationFrom rest (component ++ [c]) false

/-- The components of a name, joined by single slashes. -/
def joinedComponents (rawPath : Text) : Text :=
  ['/'].intercalate (((rawPath.map fun c => if c = '\\' then '/' else c).splitOn '/').filter
    fun component => component ≠ [] ∧ component ≠ ['.'])

/-- Canonicalizes archive names without deciding whether a name is safe to extract. -/
def normalizeEnginePath (rawPath : Text) : Text :=
  if rawPath = [] then []
  else if rawPath.head? = some '/' ∨ rawPath.getLast? = some '/' then joinedComponents rawPath
  else if needsNormalizationFrom rawPath [] false then joinedComponents rawPath
  else rawPath

/-- The components of a path, with backslashes folded. -/
def pathComponents (path : Text) : List Text := keptParts (replaceBackslash path)

namespace EnginePath

/-- The loop of `normalize_engine_path` over the bytes, with the start of the component that it
is in. -/
def scanBytes (bytes : List UInt8) :
    (index compStart : Nat) → (prevSlash : Bool) → List UInt8 → Bool
  | _, compStart, _, [] => bytes.drop compStart == [46]
  | index, compStart, prevSlash, byte :: rest =>
    if byte = 92 then true
    else if byte = 47 then
      if prevSlash then true
      else if (bytes.drop compStart).take (index - compStart) = [46] then true
      else scanBytes bytes (index + 1) (index + 1) true rest
    else scanBytes bytes (index + 1) compStart false rest

/-- `normalize_engine_path`, on the bytes of the path. -/
def normalize (rawPath : Text) : Text :=
  let bytes := utf8Bytes rawPath
  if bytes = [] then []
  else if bytes.head? = some 47 ∨ bytes.getLast? = some 47 then joinedComponents rawPath
  else if scanBytes bytes 0 0 false bytes then joinedComponents rawPath
  else rawPath

end EnginePath

/-- `str::trim_matches('/')`. -/
def trimSlashes (text : Text) : Text := trimEndSlashes (text.dropWhile (· == '/'))

/-- Normalizes a path selector for matching against archive entry paths. -/
def normalizeSelector (path : Text) : Text :=
  ['/'].intercalate (((trimSlashes (replaceBackslash path)).splitOn '/').filter fun segment =>
    segment ≠ [] ∧ segment ≠ ['.'])

def normalizedEntryMatchesNormalizedSelector (normEntry normSelected : Text) : Bool :=
  if normSelected = [] then true
  else if normEntry = normSelected then true
  else if utf8Length normSelected < utf8Length normEntry ∧ normSelected <+: normEntry ∧
      (utf8Bytes normEntry)[utf8Length normSelected]? = some 47 then true
  else false

/-- Whether a path is the selected one or below it. -/
def archiveEntryMatchesSelected (entryPath selectedPath : Text) : Bool :=
  normalizedEntryMatchesNormalizedSelector (normalizeSelector entryPath)
    (normalizeSelector selectedPath)

/-! ## The scan -/

namespace EnginePath

/-- Bytes that are neither separator are passed over. -/
theorem scanBytes_append {bytes plain : List UInt8} {index compStart : Nat} {prevSlash : Bool}
    (rest : List UInt8) (nonempty : plain ≠ [])
    (others : ∀ byte ∈ plain, byte ≠ 92 ∧ byte ≠ 47) :
    scanBytes bytes index compStart prevSlash (plain ++ rest) =
      scanBytes bytes (index + plain.length) compStart false rest := by
  induction plain generalizing index prevSlash with
  | nil => exact absurd rfl nonempty
  | cons byte plain ih =>
    obtain ⟨notBackslash, notSlash⟩ := others byte List.mem_cons_self
    rw [List.cons_append, scanBytes, if_neg notBackslash, if_neg notSlash, List.length_cons]
    cases plain with
    | nil => rfl
    | cons next plain =>
      rw [ih (List.cons_ne_nil _ _) fun other member => others other
        (List.mem_cons_of_mem _ member), Nat.add_assoc, Nat.add_comm 1]

theorem utf8Bytes_append (front back : Text) :
    utf8Bytes (front ++ back) = utf8Bytes front ++ utf8Bytes back := List.flatMap_append

/-- **The scan of the bytes** sees what a scan of the characters sees. -/
theorem scanBytes_eq {bytes : List UInt8} {done component rest : Text} {prevSlash : Bool}
    (whole : bytes = utf8Bytes (done ++ component ++ rest)) :
    scanBytes bytes (utf8Bytes (done ++ component)).length (utf8Bytes done).length prevSlash
      (utf8Bytes rest) = needsNormalizationFrom rest component prevSlash := by
  have isDot (text : Text) : utf8Bytes text = [46] ↔ text = ['.'] :=
    ⟨fun same => utf8Bytes_injective same, fun same => same ▸ rfl⟩
  induction rest generalizing done component prevSlash with
  | nil =>
    have dropped : bytes.drop (utf8Bytes done).length = utf8Bytes component := by
      rw [whole, List.append_nil, utf8Bytes_append, List.drop_left]
    change (bytes.drop (utf8Bytes done).length == [46]) = (component == ['.'])
    rw [dropped, Bool.eq_iff_iff, beq_iff_eq, beq_iff_eq, isDot]
  | cons char rest ih =>
    rw [needsNormalizationFrom]
    by_cases backslash : char = '\\'
    · subst backslash
      rfl
    by_cases slash : char = '/'
    · subst slash
      rw [if_neg (by decide), if_pos rfl]
      have piece : (bytes.drop (utf8Bytes done).length).take
          ((utf8Bytes (done ++ component)).length - (utf8Bytes done).length) =
            utf8Bytes component := by
        rw [whole]
        simp only [utf8Bytes_append, List.append_assoc, List.drop_left, List.length_append,
          Nat.add_sub_cancel_left, List.take_left]
      change scanBytes bytes _ _ prevSlash (47 :: utf8Bytes rest) = _
      rw [scanBytes, if_neg (by decide), if_pos rfl, piece]
      simp only [isDot]
      have next := @ih (done ++ component ++ ['/']) [] true (by simp [whole])
      rw [List.append_nil, utf8Bytes_append (done ++ component) ['/'], List.length_append]
        at next
      change scanBytes bytes ((utf8Bytes (done ++ component)).length + 1)
        ((utf8Bytes (done ++ component)).length + 1) true _ = _ at next
      rw [next]
    · rw [if_neg backslash, if_neg slash]
      have others : ∀ byte ∈ String.utf8EncodeChar char, byte ≠ 92 ∧ byte ≠ 47 := by
        refine fun byte member => ⟨?_, ?_⟩
        · rintro rfl
          exact backslash (Char.toNat_inj.mp (eq_of_mem_utf8EncodeChar (by decide) member))
        · rintro rfl
          exact slash (Char.toNat_inj.mp (eq_of_mem_utf8EncodeChar (by decide) member))
      have next := @ih done (component ++ [char]) false (by simp [whole])
      rw [← List.append_assoc, utf8Bytes_append (done ++ component) [char], List.length_append]
        at next
      rw [utf8Bytes_cons, scanBytes_append _ String.utf8EncodeChar_ne_nil others, ← next]
      simp [utf8Bytes]

/-- The bytes and the characters of a path are normalized alike. -/
theorem normalize_eq (rawPath : Text) : normalize rawPath = normalizeEnginePath rawPath := by
  have first : (utf8Bytes rawPath).head? = some 47 ↔ rawPath.head? = some '/' := by
    cases rawPath with
    | nil => exact iff_of_false nofun nofun
    | cons char rest =>
      rw [utf8Bytes_cons, List.head?_append_of_ne_nil _ String.utf8EncodeChar_ne_nil,
        List.head?_cons, Option.some.injEq]
      constructor
      · intro here
        exact Char.toNat_inj.mp (eq_of_mem_utf8EncodeChar (by decide) (List.mem_of_head? here))
      · rintro rfl
        rfl
  have last : (utf8Bytes rawPath).getLast? = some 47 ↔ rawPath.getLast? = some '/' := by
    cases rawPath using List.reverseRecOn with
    | nil => exact iff_of_false nofun nofun
    | append_singleton front char =>
      rw [utf8Bytes_append, List.getLast?_concat, Option.some.injEq]
      have single : utf8Bytes [char] = String.utf8EncodeChar char := List.append_nil _
      rw [single, List.getLast?_append_of_ne_nil _ String.utf8EncodeChar_ne_nil]
      constructor
      · intro here
        exact Char.toNat_inj.mp (eq_of_mem_utf8EncodeChar (by decide) (List.mem_of_getLast? here))
      · rintro rfl
        rfl
  have scanned := @scanBytes_eq (utf8Bytes rawPath) [] [] rawPath false rfl
  have empty : utf8Bytes rawPath = [] ↔ rawPath = [] :=
    ⟨fun same => utf8Bytes_injective same, fun same => same ▸ rfl⟩
  change scanBytes (utf8Bytes rawPath) 0 0 false (utf8Bytes rawPath) = _ at scanned
  unfold normalize normalizeEnginePath
  dsimp only
  rw [scanned]
  simp only [empty, first, last]

/-- A path that the scan lets pass has plain parts and no backslash. -/
theorem plainParts_of_scan {rest component : Text} {prevSlash : Bool}
    (passed : needsNormalizationFrom rest component prevSlash = false)
    (inside : '/' ∉ component) (fresh : prevSlash = true → component = [])
    (started : prevSlash = false → component = [] → rest.head? ≠ some '/')
    (some : component ++ rest ≠ []) (ends : rest.getLast? ≠ .some '/') :
    '\\' ∉ rest ∧ PlainParts (component ++ rest) := by
  induction rest generalizing component prevSlash with
  | nil =>
    refine ⟨List.not_mem_nil, fun part member => ?_⟩
    rw [List.append_nil] at some member
    rw [List.splitOn_eq_singleton inside] at member
    cases List.mem_singleton.mp member
    exact ⟨some, fun dot => by
      rw [needsNormalizationFrom, dot] at passed
      cases passed⟩
  | cons char rest ih =>
    rw [needsNormalizationFrom] at passed
    split at passed
    next => cases passed
    next notBackslash =>
    split at passed
    next slash =>
      subst slash
      split at passed
      next => cases passed
      next notAgain =>
      split at passed
      next => cases passed
      next notDot =>
      have named : component ≠ [] := fun none =>
        started (Bool.eq_false_iff.mpr notAgain) none rfl
      have more : rest ≠ [] := by
        rintro rfl
        exact ends rfl
      have rested : rest.getLast? ≠ .some '/' := by
        rwa [List.getLast?_cons_of_ne_nil more] at ends
      have single : rest.head? ≠ .some '/' := by
        rintro double
        obtain ⟨others, rfl⟩ := List.head?_eq_some_iff.mp double
        rw [needsNormalizationFrom, if_neg (by decide), if_pos rfl, if_pos rfl] at passed
        cases passed
      obtain ⟨clean, plain⟩ := ih passed List.not_mem_nil (fun _ => rfl) (fun _ _ => single) more
        rested
      refine ⟨fun member => ?_, fun part member => ?_⟩
      · rcases List.mem_cons.mp member with same | member
        · exact notBackslash same.symm
        · exact clean member
      · rw [List.splitOn_append_cons_self, List.splitOn_eq_singleton inside] at member
        rcases List.mem_append.mp member with here | behind
        · cases List.mem_singleton.mp here
          exact ⟨named, notDot⟩
        · exact plain part behind
    next notSlash =>
      have rested : rest.getLast? ≠ .some '/' := by
        cases rest with
        | nil => nofun
        | cons next rest => rwa [List.getLast?_cons_cons] at ends
      obtain ⟨clean, plain⟩ := ih passed
        (fun member => (List.mem_append.mp member).elim inside fun last =>
          notSlash (List.mem_singleton.mp last).symm)
        nofun (fun _ none => absurd none (by simp)) (by simp) rested
      refine ⟨fun member => ?_, by rwa [List.append_assoc] at plain⟩
      rcases List.mem_cons.mp member with same | member
      · exact notBackslash same.symm
      · exact clean member

end EnginePath

/-! ## Components -/

theorem mem_pathComponents {path part : Text} (member : part ∈ pathComponents path) :
    part ≠ [] ∧ part ≠ ['.'] ∧ '/' ∉ part ∧ '\\' ∉ part := by
  obtain ⟨inside, kept⟩ := List.mem_filter.mp member
  obtain ⟨some, notDot⟩ := of_decide_eq_true kept
  refine ⟨some, notDot, Text.separator_not_mem_of_mem_splitOn '/' _ part inside, fun char => ?_⟩
  obtain ⟨other, -, folded⟩ := List.mem_map.mp (Text.mem_of_mem_splitOn '/' _ part inside _ char)
  split at folded
  next => cases folded
  next other => exact other folded

/-- Joined components have those components. -/
theorem pathComponents_joined {parts : List Text}
    (names : ∀ part ∈ parts, part ≠ [] ∧ part ≠ ['.'] ∧ '/' ∉ part ∧ '\\' ∉ part) :
    pathComponents (['/'].intercalate parts) = parts := by
  have clean : '\\' ∉ ['/'].intercalate parts := by
    intro member
    rcases Text.mem_intercalate member with slash | ⟨part, inside, within⟩
    · cases slash
    · exact (names part inside).2.2.2 within
  unfold pathComponents
  rw [replaceBackslash_of_plain clean]
  by_cases none : parts = []
  · rw [none]
    rfl
  · unfold keptParts
    rw [List.splitOn_intercalate '/' (fun part member => (names part member).2.2.1) none]
    refine List.filter_eq_self.mpr fun part member => decide_eq_true ?_
    exact ⟨(names part member).1, (names part member).2.1⟩

theorem joinedComponents_eq (path : Text) :
    joinedComponents path = ['/'].intercalate (pathComponents path) := rfl

/-- **The engine's normal form** is that of the components, on the fast path as well. -/
theorem normalizeEnginePath_eq (path : Text) :
    normalizeEnginePath path = ['/'].intercalate (pathComponents path) := by
  unfold normalizeEnginePath
  rw [← joinedComponents_eq]
  by_cases empty : path = []
  · rw [if_pos empty, empty]
    rfl
  rw [if_neg empty]
  split
  next => rfl
  next ends =>
    obtain ⟨notFirst, notLast⟩ := not_or.mp ends
    split
    next => rfl
    next passed =>
      obtain ⟨clean, plain⟩ := EnginePath.plainParts_of_scan (Bool.eq_false_iff.mpr passed)
        List.not_mem_nil nofun (fun _ _ => notFirst) empty notLast
      rw [joinedComponents_eq]
      unfold pathComponents
      rw [replaceBackslash_of_plain clean, show path = [] ++ path from rfl,
        keptParts_of_plain plain, List.intercalate_splitOn]

theorem keptParts_dropWhile (text : Text) :
    keptParts (text.dropWhile (· == '/')) = keptParts text := by
  induction text with
  | nil => rfl
  | cons char rest ih =>
    by_cases slash : char = '/'
    · subst slash
      rw [List.dropWhile_cons_of_pos (by decide), ih]
      unfold keptParts
      rw [show '/' :: rest = [] ++ '/' :: rest from rfl, List.splitOn_append_cons_self,
        List.splitOn_nil]
      rfl
    · rw [List.dropWhile_cons_of_neg (by simpa using slash)]

/-- **The normal form of selectors** is the same. -/
theorem normalizeSelector_eq (path : Text) :
    normalizeSelector path = ['/'].intercalate (pathComponents path) := by
  change ['/'].intercalate (keptParts (trimSlashes (replaceBackslash path))) = _
  unfold trimSlashes
  rw [keptParts_trimEndSlashes, keptParts_dropWhile]
  rfl

/-! ## What a selector selects -/

theorem utf8Length_eq (text : Text) : (utf8Bytes text).length = utf8Length text := by
  unfold utf8Bytes utf8Length
  rw [List.length_flatMap]
  simp only [String.length_utf8EncodeChar]

theorem normalizedEntryMatches_iff {normEntry normSelected : Text} :
    normalizedEntryMatchesNormalizedSelector normEntry normSelected = true ↔
      normSelected = [] ∨ normEntry = normSelected ∨ normSelected ++ ['/'] <+: normEntry := by
  unfold normalizedEntryMatchesNormalizedSelector
  by_cases all : normSelected = []
  · simp [all]
  by_cases same : normEntry = normSelected
  · simp [same]
  rw [if_neg all, if_neg same]
  simp only [all, same, false_or, Bool.if_false_right, Bool.and_true, decide_eq_true_eq]
  constructor
  · rintro ⟨-, ⟨rest, rfl⟩, separator⟩
    rw [EnginePath.utf8Bytes_append, ← utf8Length_eq, List.getElem?_append_right (Nat.le_refl _),
      Nat.sub_self] at separator
    cases rest with
    | nil => cases separator
    | cons char rest =>
      have first : (utf8Bytes (char :: rest)).head? = some 47 := by
        rwa [List.head?_eq_getElem?]
      rw [utf8Bytes_cons, List.head?_append_of_ne_nil _ String.utf8EncodeChar_ne_nil] at first
      cases (Char.toNat_inj.mp (eq_of_mem_utf8EncodeChar (by decide)
        (List.mem_of_head? first)) : char = '/')
      exact ⟨rest, by simp⟩
  · rintro ⟨rest, rfl⟩
    rw [List.append_assoc, ← utf8Length_eq, ← utf8Length_eq, EnginePath.utf8Bytes_append]
    refine ⟨?_, List.prefix_append _ _, ?_⟩
    · rw [List.length_append]
      exact Nat.lt_add_of_pos_right (Nat.succ_pos _)
    · rw [List.getElem?_append_right (Nat.le_refl _), Nat.sub_self]
      rfl

/-- A selector selects the path with its components and what is below. -/
theorem selects_iff {entry selected : List Text}
    (names : ∀ part ∈ entry, part ≠ [] ∧ '/' ∉ part)
    (names' : ∀ part ∈ selected, part ≠ [] ∧ '/' ∉ part) :
    ['/'].intercalate selected = [] ∨ ['/'].intercalate entry = ['/'].intercalate selected ∨
        ['/'].intercalate selected ++ ['/'] <+: ['/'].intercalate entry ↔
      selected <+: entry := by
  have split {parts : List Text} (names : ∀ part ∈ parts, part ≠ [] ∧ '/' ∉ part)
      (some : parts ≠ []) : (['/'].intercalate parts).splitOn '/' = parts :=
    List.splitOn_intercalate '/' (fun part member => (names part member).2) some
  have joined {parts : List Text} (names : ∀ part ∈ parts, part ≠ [] ∧ '/' ∉ part)
      (some : parts ≠ []) : ['/'].intercalate parts ≠ [] := by
    intro empty
    have whole := split names some
    rw [empty, List.splitOn_nil] at whole
    subst whole
    exact (names [] List.mem_cons_self).1 rfl
  by_cases all : selected = []
  · subst all
    exact iff_of_true (.inl rfl) List.nil_prefix
  by_cases nothing : entry = []
  · subst nothing
    refine iff_of_false ?_ fun front => all (List.prefix_nil.mp front)
    rintro (empty | same | below)
    · exact joined names' all empty
    · exact joined names' all same.symm
    · exact absurd (List.prefix_nil.mp below) (by simp)
  constructor
  · rintro (empty | same | ⟨rest, below⟩)
    · exact absurd empty (joined names' all)
    · rw [← split names nothing, same, split names' all]
    · rw [← split names nothing, ← below, List.append_assoc, List.singleton_append,
        List.splitOn_append_cons_self, split names' all]
      exact List.prefix_append _ _
  · rintro ⟨more, rfl⟩
    by_cases none : more = []
    · rw [none, List.append_nil]
      exact .inr (.inl rfl)
    · refine .inr (.inr ⟨['/'].intercalate more, ?_⟩)
      rw [Text.intercalate_append '/' all none, List.append_assoc, List.singleton_append]

/-- An entry is selected with the components of the selector, and below them. -/
theorem archiveEntryMatchesSelected_iff {path selected : Text} :
    archiveEntryMatchesSelected path selected = true ↔
      pathComponents selected <+: pathComponents path := by
  unfold archiveEntryMatchesSelected
  rw [normalizedEntryMatches_iff, normalizeSelector_eq, normalizeSelector_eq]
  have names (path : Text) : ∀ part ∈ pathComponents path, part ≠ [] ∧ '/' ∉ part :=
    fun part member => ⟨(mem_pathComponents member).1, (mem_pathComponents member).2.2.1⟩
  exact selects_iff (names path) (names selected)

/-- **The path normalizers agree**, for every path and selector. -/
theorem path_normalizers_agree (path : Text) :
    EnginePath.normalize path =
      ['/'].intercalate (((replaceBackslash path).splitOn '/').filter fun component =>
        component ≠ [] ∧ component ≠ ['.']) ∧
    normalizeSelector path = EnginePath.normalize path ∧
    EnginePath.normalize (EnginePath.normalize path) = EnginePath.normalize path ∧
    normalizeSelector (normalizeSelector path) = normalizeSelector path ∧
    (∀ normalized, normalizeArchivePath path = .ok normalized →
      normalized = EnginePath.normalize path) ∧
    ∀ selected, archiveEntryMatchesSelected path selected = true ↔
      pathComponents selected <+: pathComponents path := by
  have idempotent : pathComponents (['/'].intercalate (pathComponents path)) =
      pathComponents path :=
    pathComponents_joined fun part member => mem_pathComponents member
  simp only [EnginePath.normalize_eq, normalizeEnginePath_eq, normalizeSelector_eq, idempotent,
    true_and]
  exact ⟨rfl, fun normalized accepted => normalizeArchivePath_eq accepted,
    fun selected => archiveEntryMatchesSelected_iff⟩

end ZManager
