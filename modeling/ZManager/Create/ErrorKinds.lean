import ZManager.Foundation.Keyword
import ZManager.Safety.Planner

/-! # Kinds of creation errors

The engine's creation adapters recover the kind of a backend's error from its displayed text. The
errors below are those that creation can return, displayed piece by piece, so that it is visible
which pieces are the program's own words and which come from paths and from elsewhere.
-/

namespace ZManager

namespace CreationErrors

/-- A stretch of what another library or the operating system says: its own words, or a
path that it repeats. -/
inductive Saying where
  | words (text : Text)
  | path (text : Text)

abbrev Message := List Saying

/-- The text of a message, for a choice of what the paths are called. -/
def Message.text (called : Text → Text) (message : Message) : Text :=
  message.flatMap fun
    | .words text => text
    | .path text => called text

/-- A piece of a displayed error. -/
inductive Part where
  | fixed (text : Text)
  | path (text : Text)
  /-- What another library or the operating system says, or the program in words that are
  not listed here and name no path. -/
  | message (said : Message)
  | number (value : Int)

def Part.text (called : Text → Text) : Part → Text
  | fixed text => text
  | path text => called text
  | message said => said.text called
  | number value => (toString value).toList

/-- Words of the program itself. -/
def words (said : String) : Part := .fixed said.toList

/-! ## The errors -/

/-- The texts of `io::Error`s: those that the program writes with a path in them, and all
others. -/
inductive IoSource where
  | message (said : Message)
  | cannotReplaceDirectory (path : Text)
  | destinationExists (path : Text)
  | noTemporaryOutput (path : Text)
  | outputFinalized (path : Text)
  | openSource (path : Text) (source : IoSource)
  | createVolume (path : Text) (source : IoSource)
  | accessVolume (path : Text) (source : IoSource)
  | writeVolume (path : Text) (source : IoSource)

/-- A text in front of a path, and what is said of it. -/
def saidOf (lead : String) (path : Text) (source : List Part) : List Part :=
  words lead :: .path path :: words ": " :: source

def IoSource.parts : IoSource → List Part
  | message said => [.message said]
  | cannotReplaceDirectory path => [words "cannot replace directory ", .path path]
  | destinationExists path => [words "destination already exists: ", .path path]
  | noTemporaryOutput path =>
    [words "could not allocate temporary output path for ", .path path]
  | outputFinalized path => [words "temporary output already finalized for ", .path path]
  | openSource path source => saidOf "failed to open TZAP source file " path source.parts
  | createVolume path source => saidOf "failed to create TZAP output volume " path source.parts
  | accessVolume path source => saidOf "failed to access TZAP output volume " path source.parts
  | writeVolume path source => saidOf "failed to write TZAP output volume " path source.parts

/-- Failures of the manifest planner. -/
inductive PlanError where
  | missingFileName (path : Text)
  | metadata (path : Text) (source : IoSource)
  | readDir (path : Text) (source : IoSource)

def PlanError.parts : PlanError → List Part
  | missingFileName path => [words "source path has no archive name: ", .path path]
  | metadata path source => saidOf "failed to read metadata for " path source.parts
  | readDir path source => saidOf "failed to read directory " path source.parts

/-- `Io { path, source }` of every backend. -/
def ioParts (path : Text) (source : IoSource) : List Part :=
  saidOf "I/O failed for " path source.parts

/-- `VolumeSizeTooSmall { size, minimum }` of a backend. -/
def volumeSizeParts (lead : String) (size minimum : Nat) : List Part :=
  [words lead, .number size, words " bytes is smaller than the minimum ", .number minimum,
    words " bytes"]

/-- Failures of ZIP creation. -/
inductive ZipBackendError where
  | plan (source : PlanError)
  | zip (source : Message)
  | passwordRequired
  | invalidPassword
  | io (path : Text) (source : IoSource)
  | volumeSizeTooSmall (size minimum : Nat)
  | unsupportedSplitZip (reason : Text)
  | invalidSymlinkTarget (archivePath : Text)
  | cancelled

def ZipBackendError.parts : ZipBackendError → List Part
  | plan source => words "manifest planning failed: " :: source.parts
  | zip source => [words "zip operation failed: ", .message source]
  | passwordRequired => [words "password required to decrypt ZIP entry data"]
  | invalidPassword => [words "provided ZIP password is incorrect"]
  | io path source => ioParts path source
  | volumeSizeTooSmall size minimum => volumeSizeParts "ZIP volume size " size minimum
  | unsupportedSplitZip reason =>
    [words "split ZIP creation is not supported for this archive: ", .message [.words reason]]
  | invalidSymlinkTarget archivePath =>
    [words "symlink target is invalid or too large for ", .path archivePath]
  | cancelled => [words "job cancelled"]

/-- Failures of 7z creation. -/
inductive SevenZError where
  | plan (source : PlanError)
  | sevenZ (source : Message)
  | volumeSizeTooSmall (size minimum : Nat)
  | passwordRequired
  | invalidPassword
  | io (path : Text) (source : IoSource)
  | cancelled

def SevenZError.parts : SevenZError → List Part
  | plan source => words "manifest planning failed: " :: source.parts
  | sevenZ source => [words "7z operation failed: ", .message source]
  | volumeSizeTooSmall size minimum => volumeSizeParts "7z volume size " size minimum
  | passwordRequired => [words "password required to decrypt 7z data"]
  | invalidPassword => [words "provided 7z password is incorrect"]
  | io path source => ioParts path source
  | cancelled => [words "job cancelled"]

/-- Failures of TGZ creation. -/
inductive TarGzError where
  | plan (source : PlanError)
  | invalidLevel (level : Int)
  | io (path : Text) (source : IoSource)
  | cancelled

def TarGzError.parts : TarGzError → List Part
  | plan source => words "planning failed: " :: source.parts
  | invalidLevel level =>
    [words "invalid gzip compression level ", .number level, words ": expected 0-9"]
  | io path source => ioParts path source
  | cancelled => [words "job cancelled"]

/-- Failures of TAR.ZST creation. -/
inductive TarZstdError where
  | plan (source : PlanError)
  | io (path : Text) (source : IoSource)
  | cancelled

def TarZstdError.parts : TarZstdError → List Part
  | plan source => words "manifest planning failed: " :: source.parts
  | io path source => ioParts path source
  | cancelled => [words "job cancelled"]

/-- The steps that make a certificate of a recipient's public key. -/
inductive SyntheticCertificateStep where
  | publicKey
  | key
  | name
  | certificate
  | serial
  | signing
  | der

def SyntheticCertificateStep.parts (source : Message) : SyntheticCertificateStep → List Part
  | publicKey => [words "recipient public key is invalid: ", .message source]
  | key => [words "recipient certificate key failed: ", .message source]
  | name => [words "recipient certificate name failed: ", .message source]
  | certificate => [words "recipient certificate failed: ", .message source]
  | serial => [words "recipient certificate serial failed: ", .message source]
  | signing => [words "recipient certificate signing failed: ", .message source]
  | der => [words "recipient certificate DER failed: ", .message source]

/-- The texts of `TzapError::KeyWrap` in creation. -/
inductive KeyWrapFailure where
  | noCertificates
  | noPublicKeys
  | parse (path : Text) (source : Message)
  | notOneCertificate
  | synthetic (step : SyntheticCertificateStep) (source : Message)
  | message (source : Message)
  | noMatchingKey

def KeyWrapFailure.parts : KeyWrapFailure → List Part
  | noCertificates => [words "at least one recipient certificate is required"]
  | noPublicKeys => [words "at least one recipient public key is required"]
  | parse path source =>
    saidOf "failed to parse recipient certificate " path [.message source]
  | notOneCertificate =>
    [words "recipient certificate must contain exactly one X.509 certificate"]
  | synthetic step source => step.parts source
  | message source => [.message source]
  | noMatchingKey => [words "no matching recipient private key for archive"]

/-- The texts of `TzapError::X509RootAuth` in creation. -/
inductive X509Failure where
  | message (source : Message)
  | noCertificate
  | noPrivateKey
  | timeExceeded

def X509Failure.parts : X509Failure → List Part
  | message source => [.message source]
  | noCertificate => [words "PKCS#12 identity has no certificate"]
  | noPrivateKey => [words "PKCS#12 identity has no private key"]
  | timeExceeded => [words "current Unix time exceeds i64"]

/-- Failures of TZAP creation. -/
inductive TzapError where
  | plan (source : PlanError)
  | io (path : Text) (source : IoSource)
  | format (source : Message)
  | x509RootAuth (failure : X509Failure)
  | keyWrap (failure : KeyWrapFailure)
  | passwordRequired
  | recipientKeyRequired
  | cancelled

def TzapError.parts : TzapError → List Part
  | plan source => source.parts
  | io path source => ioParts path source
  | format source => [.message source]
  | x509RootAuth failure => failure.parts
  | keyWrap failure => failure.parts
  | passwordRequired => [words "tzap password required"]
  | recipientKeyRequired => [words "tzap recipient private key required"]
  | cancelled => [words "job cancelled"]

/-- What the five creation backends return. -/
inductive BackendError where
  | zip (error : ZipBackendError)
  | sevenZ (error : SevenZError)
  | tarGz (error : TarGzError)
  | tarZstd (error : TarZstdError)
  | tzap (error : TzapError)

namespace BackendError

/-- The text of the error, part by part. -/
def parts : BackendError → List Part
  | zip error => error.parts
  | sevenZ error => error.parts
  | tarGz error => error.parts
  | tarZstd error => error.parts
  | tzap error => error.parts

/-- The `Display` text, for a choice of what the paths that it mentions are called. -/
def display (called : Text → Text) (error : BackendError) : Text :=
  error.parts.flatMap (Part.text called)

/-- The backend reports cancellation. -/
def IsCancelled : BackendError → Prop
  | zip .cancelled => True
  | sevenZ .cancelled => True
  | tarGz .cancelled => True
  | tarZstd .cancelled => True
  | tzap .cancelled => True
  | _ => False

end BackendError

/-! ## Their kinds -/

/-- The kind of error that a caller sees. -/
inductive ErrorKind where
  | cancelled
  | unsupportedOperation
  | io
  | invalidFormat
  deriving Repr, DecidableEq

/-- The error that a caller sees. -/
structure ArchiveError where
  kind : ErrorKind
  message : Text
  path : Text

/-- `str::to_lowercase`. -/
def toLowercase (fold : CaseFolding) (text : Text) : Text := text.flatMap fold.lower

/-- The kind that a text in lower case is taken for. -/
def kindOf (lower : Text) : ErrorKind :=
  if "cancel".toList <:+: lower then .cancelled
  else if "unsupported".toList <:+: lower then .unsupportedOperation
  else if "permission".toList <:+: lower ∨ "i/o".toList <:+: lower ∨ "io failed".toList <:+: lower
  then .io
  else .invalidFormat

/-- The engine's error for a destination and what the backend displays. -/
def creationError (fold : CaseFolding) (path : Text) (called : Text → Text)
    (error : BackendError) : ArchiveError :=
  { kind := kindOf (toLowercase fold (error.display called))
    message := error.display called
    path := path }

/-! ## What the words of the errors contain -/

/-- A part in lower case. -/
def Part.lowered (fold : CaseFolding) (called : Text → Text) : Part → Piece Char
  | fixed text => .fixed (text.map Char.toLower)
  | part => .hole (toLowercase fold (part.text called))

/-- The program's own words are ASCII. -/
def Part.IsPlain : Part → Bool
  | fixed text => text.all fun char => decide (char.toNat < 128)
  | _ => true

theorem toLowercase_of_ascii (fold : CaseFolding) {text : Text}
    (ascii : text.all fun char => decide (char.toNat < 128)) :
    toLowercase fold text = text.map Char.toLower := by
  induction text with
  | nil => rfl
  | cons char rest ih =>
    obtain ⟨first, others⟩ := Bool.and_eq_true_iff.mp ascii
    show fold.lower char ++ toLowercase fold rest = _
    rw [fold.lower_ascii char (of_decide_eq_true first), ih others]
    rfl

theorem Part.text_lowered (fold : CaseFolding) (called : Text → Text) {part : Part}
    (plain : part.IsPlain) : (part.lowered fold called).text = toLowercase fold (part.text called) := by
  cases part with
  | fixed text => exact (toLowercase_of_ascii fold plain).symm
  | _ => rfl

def keywords : List Text :=
  ["cancel".toList, "unsupported".toList, "permission".toList, "i/o".toList, "io failed".toList]

/-- The program's own words are plain and keep the keywords within a part. -/
def KeepsApart (parts : List Part) : Prop :=
  parts.all Part.IsPlain ∧ ∀ (fold : CaseFolding) (called : Text → Text),
    keywords.all fun keyword => Separated keyword (parts.map (Part.lowered fold called))

/-- Words in front that no keyword begins in at their end. -/
theorem KeepsApart.cons {said : String} {parts : List Part} (keeps : KeepsApart parts)
    (plain : (words said).IsPlain)
    (clear : keywords.all fun keyword => endsClear keyword (said.toList.map Char.toLower)) :
    KeepsApart (words said :: parts) := by
  refine ⟨Bool.and_eq_true_iff.mpr ⟨plain, keeps.1⟩, fun fold called => ?_⟩
  refine List.all_eq_true.mpr fun keyword member => ?_
  exact Bool.and_eq_true_iff.mpr ⟨List.all_eq_true.mp clear keyword member,
    List.all_eq_true.mp (keeps.2 fold called) keyword member⟩

/-- Words, a path and what is said of it. -/
theorem KeepsApart.saidOf {lead : String} {parts : List Part} (keeps : KeepsApart parts)
    (plain : (words lead).IsPlain)
    (clear : keywords.all fun keyword => endsClear keyword (lead.toList.map Char.toLower))
    (path : Text) : KeepsApart (CreationErrors.saidOf lead path parts) := by
  refine KeepsApart.cons ?_ plain clear
  have behind : KeepsApart (words ": " :: parts) := keeps.cons rfl rfl
  refine ⟨behind.1, fun fold called => List.all_eq_true.mpr fun keyword member => ?_⟩
  refine Bool.and_eq_true_iff.mpr ⟨?_, List.all_eq_true.mp (behind.2 fold called) keyword member⟩
  exact (by decide : ∀ keyword ∈ keywords, startsClear keyword (": ".toList.map Char.toLower))
    keyword member

theorem IoSource.keepsApart (source : IoSource) : KeepsApart source.parts := by
  induction source with
  | openSource path source ih => exact ih.saidOf rfl rfl path
  | createVolume path source ih => exact ih.saidOf rfl rfl path
  | accessVolume path source ih => exact ih.saidOf rfl rfl path
  | writeVolume path source ih => exact ih.saidOf rfl rfl path
  | _ => exact ⟨rfl, fun _ _ => rfl⟩

theorem keepsApart_io (path : Text) (source : IoSource) : KeepsApart (ioParts path source) :=
  source.keepsApart.saidOf rfl rfl path

theorem keepsApart_volumeSize (size minimum : Nat) :
    KeepsApart (volumeSizeParts "ZIP volume size " size minimum) ∧
      KeepsApart (volumeSizeParts "7z volume size " size minimum) :=
  ⟨⟨rfl, fun _ _ => rfl⟩, ⟨rfl, fun _ _ => rfl⟩⟩

theorem PlanError.keepsApart (error : PlanError) : KeepsApart error.parts := by
  cases error with
  | missingFileName path => exact ⟨rfl, fun _ _ => rfl⟩
  | metadata path source => exact source.keepsApart.saidOf rfl rfl path
  | readDir path source => exact source.keepsApart.saidOf rfl rfl path

theorem ZipBackendError.keepsApart (error : ZipBackendError) : KeepsApart error.parts := by
  cases error with
  | plan source => exact source.keepsApart.cons rfl rfl
  | io path source => exact keepsApart_io path source
  | volumeSizeTooSmall size minimum => exact (keepsApart_volumeSize size minimum).1
  | _ => exact ⟨rfl, fun _ _ => rfl⟩

theorem SevenZError.keepsApart (error : SevenZError) : KeepsApart error.parts := by
  cases error with
  | plan source => exact source.keepsApart.cons rfl rfl
  | io path source => exact keepsApart_io path source
  | volumeSizeTooSmall size minimum => exact (keepsApart_volumeSize size minimum).2
  | _ => exact ⟨rfl, fun _ _ => rfl⟩

theorem TarGzError.keepsApart (error : TarGzError) : KeepsApart error.parts := by
  cases error with
  | plan source => exact source.keepsApart.cons rfl rfl
  | io path source => exact keepsApart_io path source
  | _ => exact ⟨rfl, fun _ _ => rfl⟩

theorem TarZstdError.keepsApart (error : TarZstdError) : KeepsApart error.parts := by
  cases error with
  | plan source => exact source.keepsApart.cons rfl rfl
  | io path source => exact keepsApart_io path source
  | cancelled => exact ⟨rfl, fun _ _ => rfl⟩

theorem KeyWrapFailure.keepsApart (failure : KeyWrapFailure) : KeepsApart failure.parts := by
  cases failure with
  | synthetic step source => cases step <;> exact ⟨rfl, fun _ _ => rfl⟩
  | parse path source =>
    have message : KeepsApart [.message source] := ⟨rfl, fun _ _ => rfl⟩
    exact message.saidOf rfl rfl path
  | _ => exact ⟨rfl, fun _ _ => rfl⟩

theorem TzapError.keepsApart (error : TzapError) : KeepsApart error.parts := by
  cases error with
  | plan source => exact source.keepsApart
  | io path source => exact keepsApart_io path source
  | keyWrap failure => exact failure.keepsApart
  | x509RootAuth failure => cases failure <;> exact ⟨rfl, fun _ _ => rfl⟩
  | _ => exact ⟨rfl, fun _ _ => rfl⟩

theorem BackendError.keepsApart (error : BackendError) : KeepsApart error.parts := by
  cases error with
  | zip error => exact error.keepsApart
  | sevenZ error => exact error.keepsApart
  | tarGz error => exact error.keepsApart
  | tarZstd error => exact error.keepsApart
  | tzap error => exact error.keepsApart

/-- **A keyword is displayed** iff a part of the error contains it. -/
theorem keyword_displayed_iff (fold : CaseFolding) (called : Text → Text) (error : BackendError)
    {keyword : Text} (member : keyword ∈ keywords) :
    keyword <:+: toLowercase fold (error.display called) ↔
      ∃ part ∈ error.parts, keyword <:+: toLowercase fold (part.text called) := by
  obtain ⟨plain, separated⟩ := error.keepsApart
  have lowered (part : Part) (source : part ∈ error.parts) :
      (part.lowered fold called).text = toLowercase fold (part.text called) :=
    Part.text_lowered fold called (List.all_eq_true.mp plain part source)
  have some_ : keyword ≠ [] := by
    intro empty
    subst empty
    exact absurd member (by decide)
  have pieces : toLowercase fold (error.display called) =
      joinPieces (error.parts.map (Part.lowered fold called)) := by
    unfold BackendError.display joinPieces toLowercase
    rw [List.flatMap_assoc, List.flatMap_map]
    exact List.flatMap_congr fun part inside => (lowered part inside).symm
  rw [pieces,
    infix_joinPieces_iff some_ (List.all_eq_true.mp (separated fold called) keyword member)]
  constructor
  · rintro ⟨piece, found, inside⟩
    obtain ⟨part, source, rfl⟩ := List.mem_map.mp found
    rw [lowered part source] at inside
    exact ⟨part, source, inside⟩
  · rintro ⟨part, source, inside⟩
    refine ⟨part.lowered fold called, List.mem_map_of_mem source, ?_⟩
    rw [lowered part source]
    exact inside

/-! ## Names and kinds -/

/-- The part is a path, or a message that repeats one. -/
def Part.MentionsPath : Part → Prop
  | path _ => True
  | message said => ∃ text, .path text ∈ said
  | _ => False

/-- Only the texts of parts that mention a path depend on what the paths are called. -/
theorem Part.text_of_not_mentionsPath {part : Part} (plain : ¬part.MentionsPath)
    (called called' : Text → Text) : part.text called = part.text called' := by
  cases part with
  | path text => exact absurd trivial plain
  | message said =>
    refine List.flatMap_congr fun saying inside => ?_
    cases saying with
    | words text => rfl
    | path text => exact absurd ⟨text, inside⟩ plain
  | _ => rfl

/-- One of the words occurs in a text in any letter case. -/
def Within (fold : CaseFolding) (sought : List Text) (text : Text) : Prop :=
  ∃ word ∈ sought, word <:+: toLowercase fold text

/-- One of the words occurs in a part of an error that mentions no path. -/
def SaysElsewhere (fold : CaseFolding) (sought : List Text) (error : BackendError) : Prop :=
  ∃ part ∈ error.parts, ¬part.MentionsPath ∧ Within fold sought (part.text id)

/-- One of the words occurs in a part that mentions a path, as the paths are called. -/
def NamesSay (fold : CaseFolding) (sought : List Text) (error : BackendError)
    (called : Text → Text) : Prop :=
  ∃ part ∈ error.parts, part.MentionsPath ∧ Within fold sought (part.text called)

def cancelWords : List Text := ["cancel".toList]

def unsupportedWords : List Text := ["unsupported".toList]

def ioWords : List Text := ["permission".toList, "i/o".toList, "io failed".toList]

/-- The texts in an error do not decide its kind: it is a cancellation, or nothing in it says so
and both choices of names say the same of what counts next. -/
def NamesHarmless (fold : CaseFolding) (error : BackendError) (one two : Text → Text) : Prop :=
  error.IsCancelled ∨
    (¬SaysElsewhere fold cancelWords error ∧ ¬NamesSay fold cancelWords error one ∧
      ¬NamesSay fold cancelWords error two ∧
        (SaysElsewhere fold unsupportedWords error ∨
          ((NamesSay fold unsupportedWords error one ↔ NamesSay fold unsupportedWords error two) ∧
            (NamesSay fold unsupportedWords error one ∨ SaysElsewhere fold ioWords error ∨
              (NamesSay fold ioWords error one ↔ NamesSay fold ioWords error two)))))

/-- What the display of an error contains. -/
theorem within_display_iff (fold : CaseFolding) (error : BackendError) (called : Text → Text)
    {sought : List Text} (known : ∀ word ∈ sought, word ∈ keywords) :
    Within fold sought (error.display called) ↔
      SaysElsewhere fold sought error ∨ NamesSay fold sought error called := by
  have shown {word : Text} (member : word ∈ sought) :=
    keyword_displayed_iff fold called error (known word member)
  constructor
  · rintro ⟨word, member, displayed⟩
    obtain ⟨part, source, inside⟩ := (shown member).mp displayed
    by_cases mentions : part.MentionsPath
    · exact .inr ⟨part, source, mentions, word, member, inside⟩
    · rw [Part.text_of_not_mentionsPath mentions called id] at inside
      exact .inl ⟨part, source, mentions, word, member, inside⟩
  · rintro (⟨part, source, plain, word, member, inside⟩ | ⟨part, source, -, word, member, inside⟩)
    · rw [Part.text_of_not_mentionsPath plain id called] at inside
      exact ⟨word, member, (shown member).mpr ⟨part, source, inside⟩⟩
    · exact ⟨word, member, (shown member).mpr ⟨part, source, inside⟩⟩

theorem BackendError.IsCancelled.parts {error : BackendError} (is : error.IsCancelled) :
    error.parts = [words "job cancelled"] := by
  cases error with
  | zip error =>
    cases error with
    | cancelled => rfl
    | _ => exact is.elim
  | sevenZ error =>
    cases error with
    | cancelled => rfl
    | _ => exact is.elim
  | tarGz error =>
    cases error with
    | cancelled => rfl
    | _ => exact is.elim
  | tarZstd error =>
    cases error with
    | cancelled => rfl
    | _ => exact is.elim
  | tzap error =>
    cases error with
    | cancelled => rfl
    | _ => exact is.elim

/-- A reported cancellation says so and mentions no path. -/
theorem BackendError.IsCancelled.spec {error : BackendError} (is : error.IsCancelled)
    (fold : CaseFolding) : SaysElsewhere fold cancelWords error ∧
      ∀ sought called, ¬NamesSay fold sought error called := by
  unfold SaysElsewhere NamesSay
  rw [is.parts]
  constructor
  · refine ⟨words "job cancelled", .head _, id, "cancel".toList, .head _, ?_⟩
    have plain : toLowercase fold ((words "job cancelled").text id) =
        ((words "job cancelled").text id).map Char.toLower := toLowercase_of_ascii fold rfl
    rw [plain]
    decide
  · rintro sought called ⟨part, found, mentions, -⟩
    rw [List.mem_singleton.mp found] at mentions
    exact mentions

/-- The kind by what a text contains. -/
def kindFrom (cancel unsupported io : Prop) [Decidable cancel] [Decidable unsupported]
    [Decidable io] : ErrorKind :=
  if cancel then .cancelled
  else if unsupported then .unsupportedOperation
  else if io then .io
  else .invalidFormat

section

variable {cancel unsupported io unsupported' io' : Prop} [Decidable cancel] [Decidable unsupported]
  [Decidable io] [Decidable unsupported'] [Decidable io']

theorem kindFrom_eq_cancelled_iff : kindFrom cancel unsupported io = .cancelled ↔ cancel := by
  unfold kindFrom
  split_ifs <;> simp_all

/-- Without cancellation. -/
theorem kindFrom_eq_iff :
    kindFrom False unsupported io = kindFrom False unsupported' io' ↔
      (unsupported ↔ unsupported') ∧ (unsupported ∨ (io ↔ io')) := by
  unfold kindFrom
  split_ifs <;> simp_all

end

/-- What both paths say beside what the rest says. -/
theorem agree_iff {unsupported io one two one' two' : Prop} :
    ((unsupported ∨ one ↔ unsupported ∨ two) ∧
        ((unsupported ∨ one) ∨ (io ∨ one' ↔ io ∨ two'))) ↔
      unsupported ∨ ((one ↔ two) ∧ (one ∨ io ∨ (one' ↔ two'))) := by
  by_cases said : unsupported
  · simp [said]
  · by_cases saidToo : io
    · simp [said, saidToo]
    · simp [said, saidToo]

open Classical in
theorem kindOf_eq (fold : CaseFolding) (text : Text) :
    kindOf (toLowercase fold text) =
      kindFrom (Within fold cancelWords text) (Within fold unsupportedWords text)
        (Within fold ioWords text) := by
  unfold kindOf kindFrom Within cancelWords unsupportedWords ioWords
  simp only [List.mem_cons, List.not_mem_nil, or_false, exists_eq_left, exists_eq_or_imp]

open Classical in
/-- The kind of an error, by what the names and the rest of it say. -/
theorem kind_called (fold : CaseFolding) (destination : Text) (error : BackendError)
    (called : Text → Text) :
    (creationError fold destination called error).kind =
      kindFrom
        (SaysElsewhere fold cancelWords error ∨ NamesSay fold cancelWords error called)
        (SaysElsewhere fold unsupportedWords error ∨ NamesSay fold unsupportedWords error called)
        (SaysElsewhere fold ioWords error ∨ NamesSay fold ioWords error called) := by
  have cancel := within_display_iff fold error called (by decide : ∀ word ∈ cancelWords, _)
  have unsupported :=
    within_display_iff fold error called (by decide : ∀ word ∈ unsupportedWords, _)
  have io := within_display_iff fold error called (by decide : ∀ word ∈ ioWords, _)
  refine (kindOf_eq fold _).trans ?_
  unfold kindFrom
  rw [if_congr cancel rfl rfl, if_congr unsupported rfl rfl, if_congr io rfl rfl]

/-- **The kind of a creation error** does not depend on what the paths that it mentions are
called, and is cancellation only where the backend reports it, exactly where no text in the
error decides. -/
theorem creation_kind_iff (fold : CaseFolding) (destination : Text) (error : BackendError)
    (one two : Text → Text) :
    ((creationError fold destination one error).kind =
        (creationError fold destination two error).kind ∧
      ((creationError fold destination one error).kind = .cancelled ↔ error.IsCancelled) ∧
      ((creationError fold destination two error).kind = .cancelled ↔ error.IsCancelled)) ↔
      NamesHarmless fold error one two := by
  classical
  unfold NamesHarmless
  rw [kind_called, kind_called, kindFrom_eq_cancelled_iff, kindFrom_eq_cancelled_iff]
  by_cases is : error.IsCancelled
  · obtain ⟨said, noName⟩ := is.spec fold
    simp [is, said, noName]
  · by_cases unsaid : SaysElsewhere fold cancelWords error
    · simp [is, unsaid]
    · by_cases first : NamesSay fold cancelWords error one
      · simp [is, first]
      · by_cases second : NamesSay fold cancelWords error two
        · simp [is, second]
        · simp only [is, unsaid, first, second, or_self, false_or, and_self, and_true,
            not_false_eq_true, true_and, kindFrom_eq_iff, agree_iff]

/-- A file of the cancelled orders that cannot be read looks like a cancellation, and the
name of a recipient's certificate makes an unsupported operation of a broken one. -/
theorem named_cancelled_looks_cancelled :
    (∃ error : BackendError, ¬error.IsCancelled ∧
      (creationError .ascii "out.tar.zst".toList (fun _ => "cancelled-orders.txt".toList)
        error).kind = .cancelled ∧
      (creationError .ascii "out.tar.zst".toList (fun _ => "orders.txt".toList) error).kind =
        .io) ∧
    ∃ error : BackendError,
      (creationError .ascii "out.tzap".toList (fun _ => "unsupported.pem".toList) error).kind =
        .unsupportedOperation ∧
      (creationError .ascii "out.tzap".toList (fun _ => "other.pem".toList) error).kind =
        .invalidFormat := by
  refine ⟨⟨.tarZstd (.io [] (.message [.words "No such file or directory".toList])), id, ?_, ?_⟩,
    .tzap (.keyWrap (.parse [] [.words "bad PEM".toList])), ?_, ?_⟩
  · decide
  · decide
  · decide
  · decide

end CreationErrors

end ZManager
