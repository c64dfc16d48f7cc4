import ZManager.Foundation.Run
import ZManager.Identity.IntermediateResolver

/-! # Runs of the intermediate resolver

What a call returns comes from a file of the cache or from the platform, and only the first is
compared with the identifier. `resolver_returns_what_was_asked` says what the platform and the
directory must do for every call of a run to return, keep and find the right certificates.
-/

namespace ZManager.Identity

variable {X509 : Type} (services : IntermediateServices X509) (serviceBaseUrl : Option Text)

variable {listing : List CacheEntry} {directory : CacheDirectory} {identifier : List UInt8}

/-! ## The cache -/

/-- A readable certificate file with this key identifier. -/
structure IsCached (files : CacheFiles) (aki : List UInt8) (name : Text) : Prop where
  named : isDerName name
  readable : ∃ content, files.read name = .ok content ∧ services.ski content = some aki

/-- The cache holds a readable certificate with this key identifier. -/
def Holds (files : CacheFiles) (aki : List UInt8) : Prop :=
  ∃ name, IsCached services files aki name

/-- An entry at which the scan stops with an error. -/
def IsFaulty (files : CacheFiles) : CacheEntry → Prop
  | .failed _ => True
  | .file name => isDerName name ∧ ∃ error, files.read name = .error error

/-- Reading the directory gives its files, in any order, and all of them if it never fails. -/
def CacheDirectory.Shows (files : CacheFiles) : CacheDirectory → Prop
  | .missing => ∀ name, files name = none
  | .failed _ => True
  | .entries listing =>
    (∀ name, .file name ∈ listing → (files name).isSome) ∧
      ((∀ error, .failed error ∉ listing) → ∀ name, (files name).isSome → .file name ∈ listing)

/-- No entry at which the scan stops with an error stands before every certificate with this
key identifier. -/
def Clear (files : CacheFiles) (aki : List UInt8) (listing : List CacheEntry) : Prop :=
  ∀ front entry back, listing = front ++ entry :: back → IsFaulty files entry →
    ∃ name, .file name ∈ front ∧ IsCached services files aki name

variable {services serviceBaseUrl} {files : CacheFiles} {aki der : List UInt8}

theorem isSome_of_read {name : Text} {content : List UInt8} (read : files.read name = .ok content) :
    (files name).isSome := by
  unfold CacheFiles.read at read
  cases file : files name with
  | none => rw [file] at read; cases read
  | some found => rfl

/-- What the scan finds is a cached certificate with the identifier. -/
theorem scanCache_eq_ok_some (found : scanCache services files aki listing = .ok (some der)) :
    services.ski der = some aki ∧ Holds services files aki := by
  induction listing with
  | nil => cases found
  | cons entry rest ih =>
    cases entry with
    | failed error => cases found
    | file name =>
      unfold scanCache at found
      split at found
      next named =>
        split at found
        next => cases found
        next content read =>
          split at found
          next same =>
            cases found
            exact ⟨same, name, named, _, read, same⟩
          next => exact ih found
      next => exact ih found

/-- The scan finds a certificate behind which the faults stand. -/
theorem scanCache_of_clear (clear : Clear services files aki listing)
    (listed : ∃ name, .file name ∈ listing ∧ IsCached services files aki name) :
    ∃ der, scanCache services files aki listing = .ok (some der) := by
  induction listing with
  | nil =>
    obtain ⟨name, member, -⟩ := listed
    exact absurd member List.not_mem_nil
  | cons entry rest ih =>
    have sound : ¬ IsFaulty files entry := by
      intro faulty
      obtain ⟨name, member, -⟩ := clear [] entry rest rfl faulty
      exact absurd member List.not_mem_nil
    -- Once the first entry is not what is looked for, the rest is a shorter directory.
    have later (other : ∀ name, entry = .file name → ¬ IsCached services files aki name) :
        ∃ der, scanCache services files aki rest = .ok (some der) := by
      have behind {front : List CacheEntry}
          (found : ∃ name, .file name ∈ entry :: front ∧ IsCached services files aki name) :
          ∃ name, .file name ∈ front ∧ IsCached services files aki name := by
        obtain ⟨name, member, cached⟩ := found
        rcases List.mem_cons.mp member with same | member
        · exact absurd cached (other name same.symm)
        · exact ⟨name, member, cached⟩
      apply ih
      · intro front fault back split faulty
        exact behind (clear (entry :: front) fault back (by rw [split]; rfl) faulty)
      · exact behind listed
    cases entry with
    | failed error => exact absurd trivial sound
    | file name =>
      unfold scanCache
      split
      next named =>
        split
        next error read => exact absurd ⟨named, error, read⟩ sound
        next content read =>
          split
          next same => exact ⟨content, rfl⟩
          next different =>
            apply later
            rintro _ ⟨rfl⟩ ⟨-, _, read', same⟩
            rw [read] at read'
            cases read'
            exact different same
      next other =>
        apply later
        rintro _ ⟨rfl⟩ ⟨named, -⟩
        exact other named

theorem getByAki_eq_ok_some (found : getByAki services files directory aki = .ok (some der)) :
    services.ski der = some aki ∧ Holds services files aki := by
  cases directory with
  | missing => cases found
  | failed error => cases found
  | entries listing => exact scanCache_eq_ok_some found

/-- A directory without a fault in front of a certificate gives one. -/
theorem getByAki_of_clear (shows : (CacheDirectory.entries listing).Shows files)
    (holds : Holds services files aki) (clear : Clear services files aki listing) :
    ∃ der, getByAki services files (.entries listing) aki = .ok (some der) := by
  apply scanCache_of_clear clear
  by_cases complete : ∀ error, .failed error ∉ listing
  · obtain ⟨name, cached⟩ := holds
    obtain ⟨content, read, -⟩ := cached.readable
    exact ⟨name, shows.2 complete name (isSome_of_read read), cached⟩
  · obtain ⟨error, member⟩ := not_forall_not.mp complete
    obtain ⟨front, back, split⟩ := List.append_of_mem member
    obtain ⟨name, earlier, cached⟩ := clear front _ back split trivial
    exact ⟨name, split ▸ List.mem_append_left _ earlier, cached⟩

/-! ## The platform -/

variable (services serviceBaseUrl)

/-- The request for the list of intermediates. -/
abbrev listRequest (serviceUrl : Text) : HttpRequest :=
  ⟨.get, serviceUrl.rdropWhile (· == '/') ++ "/v1/trust/intermediates".toList⟩

/-- The answers of the platform that lead to a certificate: the list, asked for again where the
client asks again, the first summary with the identifier, and what its URL gives. -/
structure Download (call : IntermediateCall) where
  serviceUrl : Text
  configured : serviceBaseUrl.filter (Text.trim · ≠ []) = some serviceUrl
  attempts : Nat
  within : attempts < maxAttempts
  retried : ∀ earlier < attempts, isRetried (call.send earlier (listRequest serviceUrl))
  response : HttpResponse
  listed : requireSuccess call.identifier (call.send attempts (listRequest serviceUrl)) =
    .ok response
  summary : Json
  named : matchingSummary services call.identifier response.body = .ok (some summary)
  pemUrl : Text
  located : summaryPemUrl summary = .ok pemUrl
  pemResponse : HttpResponse
  sent : requireSuccess call.identifier (call.send (attempts + 1)
    ⟨.get, fullPemUrl serviceUrl pemUrl⟩) = .ok pemResponse
  der : List UInt8
  certificate : pemToDer services pemResponse.body = .ok der

/-- What a call can do. -/
inductive Resolves (call : IntermediateCall) (session : ResolveSession) :
    Except IntermediateResolveError (Option (List UInt8)) → ResolveSession → Prop
  | cached {der : List UInt8}
      (found : getByAki services session.files call.directory call.identifier = .ok (some der)) :
      Resolves call session (.ok (some der)) session
  | nothing {result : Except IntermediateResolveError (Option (List UInt8))}
      (missed : ∀ der, getByAki services session.files call.directory call.identifier ≠
        .ok (some der))
      (none : ∀ der, result ≠ .ok (some der)) (requests : List HttpRequest) :
      Resolves call session result { session with requests := requests }
  | stored
      (missed : ∀ der, getByAki services session.files call.directory call.identifier ≠
        .ok (some der))
      (download : Download services serviceBaseUrl call) {key : List UInt8}
      (keyed : services.ski download.der = some key) (requests : List HttpRequest) (name : Text) :
      Resolves call session (.ok (some download.der))
        (({ session with requests := requests } : ResolveSession).put name download.der)
  | torn {failure : IntermediateResolveError} {error : Text} {left : List UInt8}
      (missed : ∀ der, getByAki services session.files call.directory call.identifier ≠
        .ok (some der))
      (failed : call.write = .failed error (some left)) (requests : List HttpRequest)
      (name : Text) :
      Resolves call session (.error failure)
        (({ session with requests := requests } : ResolveSession).put name left)

variable {services serviceBaseUrl} {call : IntermediateCall} {session : ResolveSession}

/-- A request changes nothing but the list of requests. -/
theorem exec_sendRequest (request : HttpRequest) :
    (sendRequest call request).exec session =
      (.ok (call.send session.requests.length request),
        { session with requests := session.requests ++ [request] }) := rfl

/-- The attempts end with the first answer that is not asked for again, or with the last one. -/
theorem exec_sendAttempts (request : HttpRequest) (left : Nat) :
    ∃ count ≤ left,
      (∀ earlier < count, isRetried (call.send (session.requests.length + earlier) request)) ∧
      (sendAttempts call request left).exec session =
        (.ok (call.send (session.requests.length + count) request),
          { session with requests := session.requests ++ List.replicate (count + 1) request }) := by
  induction left generalizing session with
  | zero => exact ⟨0, Nat.le_refl 0, fun _ none => absurd none (Nat.not_lt_zero _), rfl⟩
  | succ left ih =>
    by_cases again : isRetried (call.send session.requests.length request)
    · obtain ⟨count, bound, retried, rest⟩ :=
        @ih { session with requests := session.requests ++ [request] }
      have length : (session.requests ++ [request]).length = session.requests.length + 1 :=
        List.length_append
      refine ⟨count + 1, Nat.succ_le_succ bound, ?_, ?_⟩
      · intro earlier before
        cases earlier with
        | zero => exact again
        | succ earlier =>
          have later := retried earlier (Nat.lt_of_succ_lt_succ before)
          rwa [length, Nat.add_assoc, Nat.add_comm 1] at later
      · unfold sendAttempts
        rw [StepM.exec_bind, exec_sendRequest]
        dsimp only
        rw [if_pos again, rest, length, Nat.add_assoc, Nat.add_comm 1, List.append_assoc]
        rfl
    · refine ⟨0, Nat.zero_le _, fun _ none => absurd none (Nat.not_lt_zero _), ?_⟩
      unfold sendAttempts
      rw [StepM.exec_bind, exec_sendRequest]
      dsimp only
      rw [if_neg again]
      rfl

/-- Storing writes one file at most: the certificate, or what a failing write leaves. -/
theorem storeIntermediate_cases {result : Except IntermediateCacheError Text}
    {last : ResolveSession}
    (stored : storeIntermediate services call der session = (result, last)) :
    (∃ failure, result = .error failure ∧ last = session) ∨
      (∃ failure error left name, result = .error failure ∧
        call.write = .failed error (some left) ∧ last = session.put name left) ∨
      ∃ fingerprint key name, result = .ok fingerprint ∧ services.ski der = some key ∧
        last = session.put name der := by
  unfold storeIntermediate at stored
  split at stored
  next => cases stored; exact .inl ⟨_, rfl, rfl⟩
  next => cases stored; exact .inl ⟨_, rfl, rfl⟩
  next key parsed =>
    have keyed : services.ski der = some key := by
      unfold IntermediateServices.ski
      rw [parsed]
    dsimp only at stored
    split at stored
    next => cases stored; exact .inl ⟨_, rfl, rfl⟩
    next =>
      split at stored
      next => cases stored; exact .inr (.inr ⟨_, key, _, rfl, keyed, rfl⟩)
      next => cases stored; exact .inl ⟨_, rfl, rfl⟩
      next error left failed =>
        cases stored
        exact .inr (.inl ⟨_, error, left, _, rfl, failed, rfl⟩)

/-- A check that reads nothing fails, or the rest runs from the same state. -/
theorem exec_lift_bind {ε σ α β : Type} {check : Except ε α} {next : α → StepM ε σ β}
    {state last : σ} {result : Except ε β}
    (run : ((liftM check : StepM ε σ α) >>= next).exec state = (result, last)) :
    (∃ failure, result = .error failure ∧ last = state) ∨
      ∃ value, check = .ok value ∧ (next value).exec state = (result, last) := by
  rw [StepM.exec_bind, StepM.exec_lift] at run
  cases check with
  | error failure =>
    cases run
    exact .inl ⟨failure, rfl, rfl⟩
  | ok value => exact .inr ⟨value, rfl, run⟩

/-- A call does one of these things. -/
theorem resolves_of_exec {last : ResolveSession}
    {result : Except IntermediateResolveError (Option (List UInt8))}
    (run : (resolveIntermediate services serviceBaseUrl call).exec ⟨files, [], []⟩ =
      (result, last)) :
    Resolves services serviceBaseUrl call ⟨files, [], []⟩ result last := by
  unfold resolveIntermediate at run
  rw [StepM.exec_bind, StepM.exec_get] at run
  dsimp only at run
  split at run
  next der found =>
    cases run
    exact .cached found
  next missed =>
    split at run
    next => cases run; exact .nothing missed (by rintro _ ⟨⟩) []
    next serviceUrl configured =>
      unfold fetchIntermediate sendJsonRequest at run
      obtain ⟨attempts, within, retried, listing⟩ := @exec_sendAttempts call ⟨files, [], []⟩
        (listRequest serviceUrl) (maxAttempts - 1)
      rw [StepM.exec_bind, listing] at run
      simp only [List.length_nil, Nat.zero_add, List.nil_append] at retried run
      obtain ⟨failure, rfl, rfl⟩ | ⟨response, listed, run⟩ := exec_lift_bind run
      · exact .nothing missed (by rintro _ ⟨⟩) _
      obtain ⟨failure, rfl, rfl⟩ | ⟨summary, named, run⟩ := exec_lift_bind run
      · exact .nothing missed (by rintro _ ⟨⟩) _
      cases summary with
      | none => cases run; exact .nothing missed (by rintro _ ⟨⟩) _
      | some summary =>
        obtain ⟨failure, rfl, rfl⟩ | ⟨pemUrl, located, run⟩ := exec_lift_bind run
        · exact .nothing missed (by rintro _ ⟨⟩) _
        rw [StepM.exec_bind, exec_sendRequest] at run
        obtain ⟨failure, rfl, rfl⟩ | ⟨pemResponse, sent, run⟩ := exec_lift_bind run
        · exact .nothing missed (by rintro _ ⟨⟩) _
        obtain ⟨failure, rfl, rfl⟩ | ⟨der, certificate, run⟩ := exec_lift_bind run
        · exact .nothing missed (by rintro _ ⟨⟩) _
        rw [List.length_replicate] at sent
        let download : Download services serviceBaseUrl call :=
          ⟨serviceUrl, configured, attempts, Nat.lt_of_le_of_lt within (by decide), retried,
            response, listed, summary, named, pemUrl, located, pemResponse, sent, der,
            certificate⟩
        rw [StepM.exec_bind, StepM.exec_get] at run
        dsimp only at run
        rw [StepM.exec_bind, StepM.exec_set] at run
        dsimp only at run
        rcases outcome : storeIntermediate services call der
          ⟨files, [], List.replicate (attempts + 1) (listRequest serviceUrl) ++
            [⟨.get, fullPemUrl serviceUrl pemUrl⟩]⟩ with ⟨stored, session⟩
        rw [outcome] at run
        rcases storeIntermediate_cases outcome with ⟨failure, rfl, rfl⟩ |
          ⟨failure, error, left, name, rfl, failed, rfl⟩ |
          ⟨fingerprint, key, name, rfl, keyed, rfl⟩
        · cases run
          exact .nothing missed (by rintro _ ⟨⟩) _
        · cases run
          exact .torn missed failed _ name
        · cases run
          exact .stored missed download keyed _ name

/-! ## Runs -/

/-- A call that has returned, with the files as it found them. -/
structure ReturnedCall where
  identifier : List UInt8
  before : CacheFiles
  requests : List HttpRequest
  result : Except IntermediateResolveError (Option (List UInt8))

/-- The cache, the files that calls have written into it, and the calls. -/
structure ResolverState where
  files : CacheFiles
  written : List (Text × List UInt8)
  calls : List ReturnedCall

/-- Any files, before the first call. -/
def ResolverState.Fresh (state : ResolverState) : Prop := state.written = [] ∧ state.calls = []

variable (services serviceBaseUrl) in
/-- One call on the files that there are. -/
def resolverStep (state : ResolverState) (call : IntermediateCall) : Option ResolverState :=
  let outcome := (resolveIntermediate services serviceBaseUrl call).exec ⟨state.files, [], []⟩
  some
    { files := outcome.2.files
      written := state.written ++ outcome.2.written
      calls := ⟨call.identifier, state.files, outcome.2.requests, outcome.1⟩ :: state.calls }

variable (services serviceBaseUrl) in
/-- The directory and the platform as the resolver needs them in a call. -/
structure Favourable (files : CacheFiles) (call : IntermediateCall) : Prop where
  clear : Holds services files call.identifier → ∃ listing,
    call.directory = .entries listing ∧ Clear services files call.identifier listing
  honest : ¬ Holds services files call.identifier →
    ∀ download : Download services serviceBaseUrl call, ∀ key,
      services.ski download.der = some key → key = call.identifier
  whole : ¬ Holds services files call.identifier → ∀ error left,
    call.write = .failed error left → left = none

variable (services) in
/-- The resolver returns, keeps and finds what was asked for. -/
structure Guaranteed (state : ResolverState) : Prop where
  returned : ∀ call ∈ state.calls, ∀ der, call.result = .ok (some der) →
    services.ski der = some call.identifier
  added : ∀ file ∈ state.written, ∃ call ∈ state.calls, call.result = .ok (some file.2) ∧
    services.ski file.2 = some call.identifier
  offline : ∀ call ∈ state.calls, Holds services call.before call.identifier →
    (∃ der, call.result = .ok (some der)) ∧ call.requests = []

theorem Guaranteed.of_fresh {state : ResolverState} (fresh : state.Fresh) :
    Guaranteed services state where
  returned _ member := absurd (fresh.2 ▸ member) List.not_mem_nil
  added _ member := absurd (fresh.1 ▸ member) List.not_mem_nil
  offline _ member := absurd (fresh.2 ▸ member) List.not_mem_nil

/-- A call that keeps to the three guarantees, with what it wrote. -/
theorem Guaranteed.add {state : ResolverState} (guaranteed : Guaranteed services state)
    {written : List (Text × List UInt8)} {call : ReturnedCall}
    (returned : ∀ der, call.result = .ok (some der) → services.ski der = some call.identifier)
    (added : ∀ file ∈ written, call.result = .ok (some file.2) ∧
      services.ski file.2 = some call.identifier)
    (offline : Holds services call.before call.identifier →
      (∃ der, call.result = .ok (some der)) ∧ call.requests = []) :
    Guaranteed services ⟨files, state.written ++ written, call :: state.calls⟩ where
  returned := List.forall_mem_cons.mpr ⟨returned, guaranteed.returned⟩
  added file member := by
    rcases List.mem_append.mp member with old | new
    · obtain ⟨earlier, made, same⟩ := guaranteed.added file old
      exact ⟨earlier, List.mem_cons_of_mem _ made, same⟩
    · exact ⟨call, List.mem_cons_self, added file new⟩
  offline := List.forall_mem_cons.mpr ⟨offline, guaranteed.offline⟩

/-- A favourable call keeps the guarantees. -/
theorem Guaranteed.step {state next : ResolverState} {call : IntermediateCall}
    (guaranteed : Guaranteed services state) (shows : call.directory.Shows state.files)
    (favourable : Favourable services serviceBaseUrl state.files call)
    (taken : resolverStep services serviceBaseUrl state call = some next) :
    Guaranteed services next := by
  have hit (holds : Holds services state.files call.identifier) :
      ∃ der, getByAki services state.files call.directory call.identifier = .ok (some der) := by
    obtain ⟨listing, same, clear⟩ := favourable.clear holds
    rw [same] at shows ⊢
    exact getByAki_of_clear shows holds clear
  unfold resolverStep at taken
  rcases outcome : (resolveIntermediate services serviceBaseUrl call).exec ⟨state.files, [], []⟩
    with ⟨result, last⟩
  have resolves := resolves_of_exec outcome
  rw [outcome] at taken
  cases taken
  -- A call that has not found a certificate was not to find one.
  have lacking (missed : ∀ der, getByAki services state.files call.directory call.identifier ≠
      .ok (some der)) : ¬ Holds services state.files call.identifier := fun holds =>
    have ⟨der, found⟩ := hit holds
    missed der found
  cases resolves with
  | @cached der found =>
    obtain ⟨same, -⟩ := getByAki_eq_ok_some found
    apply guaranteed.add
    · rintro _ ⟨⟩
      exact same
    · exact fun file member => absurd member List.not_mem_nil
    · exact fun _ => ⟨⟨der, rfl⟩, rfl⟩
  | nothing missed none requests =>
    apply guaranteed.add
    · exact fun der same => absurd same (none der)
    · exact fun file member => absurd member List.not_mem_nil
    · exact fun holds => absurd holds (lacking missed)
  | @stored missed download key keyed requests name =>
    obtain rfl := favourable.honest (lacking missed) download key keyed
    apply guaranteed.add
    · rintro _ ⟨⟩
      exact keyed
    · intro file member
      obtain rfl := List.mem_singleton.mp member
      exact ⟨rfl, keyed⟩
    · exact fun holds => absurd holds (lacking missed)
  | torn missed failed =>
    exact absurd (favourable.whole (lacking missed) _ _ failed) nofun

/-- **The intermediate resolver returns what was asked for while the platform is honest.** In every
run from any cache directory in which every call is favourable — no unreadable certificate file
and no failure of reading the directory stands before every cached certificate with the
identifier; the certificate that the platform sends for the identifier carries it; a failing write
leaves the file as it was — what is returned has the identifier of its call, what is added to the
cache was returned for its identifier, and what the cache holds is found without the network. -/
theorem resolver_returns_what_was_asked {state : ResolverState}
    (reached : Reaches (resolverStep services serviceBaseUrl)
      (fun state call => call.directory.Shows state.files ∧
        Favourable services serviceBaseUrl state.files call)
      ResolverState.Fresh state) :
    Guaranteed services state := by
  refine Reaches.invariant ?_ ?_ reached
  · exact fun _ fresh => .of_fresh fresh
  · exact fun _ _ _ guaranteed may taken => guaranteed.step may.1 may.2 taken

/-- The list of a platform with one certificate, which it gives for `1` and for `2`. -/
def listBody : List UInt8 :=
  utf8Bytes ("[\x7b\"keyIdentifier\":\"AQ\",\"certificatePemUrl\":\"/1\"\x7d,".toList ++
    "\x7b\"keyIdentifier\":\"Ag\",\"certificatePemUrl\":\"/1\"\x7d]".toList)

def pemBody : List UInt8 :=
  utf8Bytes "-----BEGIN CERTIFICATE-----\nMAE=\n-----END CERTIFICATE-----\n".toList

/-- Libraries that know these answers; the certificate's key identifier is `1`. -/
def sampleServices : IntermediateServices (List UInt8) where
  parseJson body :=
    if body = listBody then
      .ok (.array [.object [("keyIdentifier".toList, .string "AQ".toList),
        ("certificatePemUrl".toList, .string "/1".toList)],
        .object [("keyIdentifier".toList, .string "Ag".toList),
          ("certificatePemUrl".toList, .string "/1".toList)]])
    else .error "expected value at line 1 column 1".toList
  fromPem body := if body = pemBody then .ok [0x30, 1] else .error "no start line".toList
  toDer := .ok
  subjectKeyIdentifier
    | 0x30 :: key => .ok (some key)
    | _ => .error "Parsing Error: InvalidTag".toList
  sha256 der := der
  utf8Error _ := []

def sampleUrl : Text := "https://tzap".toList

/-- A call with the platform's answers. -/
def sampleCall (identifier : List UInt8) (directory : CacheDirectory) : IntermediateCall where
  identifier := identifier
  directory := directory
  send _ request := .ok ⟨200, if request = listRequest sampleUrl then listBody else pemBody⟩
  createDir := .ok ()
  write := .done

/-- The file of the certificate. -/
def sampleFile : Text := "3001.der".toList

theorem pemToDer_sample : pemToDer sampleServices pemBody = .ok [0x30, 1] := by
  have text : fromUtf8 pemBody = some _ := fromUtf8_utf8Bytes _
  unfold pemToDer
  rw [text]
  rfl

/-- The platform is asked where the directory gives nothing. -/
theorem exec_sampleCall {identifier : List UInt8} {directory : CacheDirectory} {files : CacheFiles}
    {summary : Json}
    (missed : ∀ der, getByAki sampleServices files directory identifier ≠ .ok (some der))
    (named : matchingSummary sampleServices identifier listBody = .ok (some summary))
    (located : summaryPemUrl summary = .ok "/1".toList) :
    (resolveIntermediate sampleServices (some sampleUrl) (sampleCall identifier directory)).exec
        ⟨files, [], []⟩ =
      (.ok (some [0x30, 1]), (⟨files, [], [listRequest sampleUrl,
        ⟨.get, fullPemUrl sampleUrl "/1".toList⟩]⟩ : ResolveSession).put sampleFile [0x30, 1]) := by
  unfold resolveIntermediate
  rw [StepM.exec_bind, StepM.exec_get]
  dsimp only
  split
  next der found => exact absurd found (missed der)
  next =>
    have configured : (some sampleUrl).filter (Text.trim · ≠ []) = some sampleUrl := by decide
    rw [configured]
    dsimp only
    unfold fetchIntermediate
    have first : (sendJsonRequest (sampleCall identifier directory) sampleUrl
        "/v1/trust/intermediates".toList).exec ⟨files, [], []⟩ =
        (.ok (.ok ⟨200, listBody⟩), ⟨files, [], [listRequest sampleUrl]⟩) := rfl
    have accepted (body : List UInt8) :
        requireSuccess identifier (.ok ⟨200, body⟩) = .ok ⟨200, body⟩ := rfl
    rw [StepM.exec_bind, first, show (sampleCall identifier directory).identifier = identifier
      from rfl]
    simp only [StepM.exec_bind, StepM.exec_lift, accepted, named]
    simp only [located, exec_sendRequest]
    have second : (sampleCall identifier directory).send [listRequest sampleUrl].length
        ⟨.get, fullPemUrl sampleUrl "/1".toList⟩ = .ok ⟨200, pemBody⟩ := rfl
    rw [second, accepted]
    dsimp only
    rw [pemToDer_sample]
    rfl

/-- The sample's platform gives its one certificate. -/
theorem download_sample
    (download : Download sampleServices (some sampleUrl) (sampleCall identifier directory)) :
    download.der = [0x30, 1] := by
  have certificate := download.certificate
  unfold pemToDer at certificate
  split at certificate
  next => cases certificate
  next =>
    split at certificate
    next => cases certificate
    next x509 parsed =>
      change Except.ok x509 = _ at certificate
      change (if _ then _ else _) = _ at parsed
      split at parsed
      next => rw [← Except.ok.inj certificate, ← Except.ok.inj parsed]
      next => cases parsed

/-- The cache with the certificate. -/
def sampleFiles : CacheFiles :=
  Function.update (fun _ => none) sampleFile (some ⟨[0x30, 1], none⟩)

/-- A call for the platform's certificate that finds no fault is favourable. -/
theorem favourable_sample (clear : Holds sampleServices files [1] → ∃ listing,
      directory = .entries listing ∧ Clear sampleServices files [1] listing) :
    Favourable sampleServices (some sampleUrl) files (sampleCall [1] directory) where
  clear := clear
  honest _ download key keyed := by
    rw [download_sample download] at keyed
    exact (Option.some.inj keyed).symm
  whole _ _ _ failed := nomatch failed

/-- The state behind a first call that asks the platform. -/
def sampleState (identifier : List UInt8) : ResolverState :=
  ⟨sampleFiles, [(sampleFile, [0x30, 1])],
    [⟨identifier, fun _ => none, [listRequest sampleUrl, ⟨.get, fullPemUrl sampleUrl "/1".toList⟩],
      .ok (some [0x30, 1])⟩]⟩

/-- A first call for an identifier of the platform's list, without a directory. -/
theorem resolverStep_sample {summary : Json}
    (named : matchingSummary sampleServices identifier listBody = .ok (some summary))
    (located : summaryPemUrl summary = .ok "/1".toList) :
    resolverStep sampleServices (some sampleUrl) ⟨fun _ => none, [], []⟩
      (sampleCall identifier .missing) = some (sampleState identifier) := by
  have outcome := @exec_sampleCall identifier .missing (fun _ => none) _ (fun _ => nofun) named
    located
  unfold resolverStep
  dsimp only
  rw [outcome]
  rfl

/-- Two calls for `1` from an empty directory: the first stores the certificate, the second finds
it. -/
theorem resolver_returns_sample :
    Guaranteed sampleServices
      ⟨sampleFiles, (sampleState [1]).written,
        ⟨[1], sampleFiles, [], .ok (some [0x30, 1])⟩ :: (sampleState [1]).calls⟩ := by
  have empty : ¬ Holds sampleServices (fun _ => none) [1] := by
    rintro ⟨name, -, content, read, -⟩
    exact nomatch read
  have named : matchingSummary sampleServices [1] listBody = .ok (some _) := rfl
  have second : resolverStep sampleServices (some sampleUrl) (sampleState [1])
      (sampleCall [1] (.entries [.file sampleFile])) =
        some ⟨sampleFiles, (sampleState [1]).written,
          ⟨[1], sampleFiles, [], .ok (some [0x30, 1])⟩ :: (sampleState [1]).calls⟩ := rfl
  have shows : (CacheDirectory.entries [.file sampleFile]).Shows sampleFiles := by
    constructor
    · intro name member
      cases List.mem_singleton.mp member
      rfl
    · intro _ name found
      by_cases same : name = sampleFile
      · rw [same]
        exact List.mem_singleton_self _
      · rw [sampleFiles, Function.update_of_ne same] at found
        exact nomatch found
  have clear : Clear sampleServices sampleFiles [1] [.file sampleFile] := by
    intro front entry back split faulty
    have member : entry ∈ [CacheEntry.file sampleFile] := split ▸ by simp
    rw [List.mem_singleton.mp member] at faulty
    obtain ⟨-, error, read⟩ := faulty
    exact nomatch read
  have may : (sampleCall [1] .missing).directory.Shows (fun _ => none) ∧
      Favourable sampleServices (some sampleUrl) (fun _ => none) (sampleCall [1] .missing) :=
    ⟨fun _ => rfl, favourable_sample fun holds => absurd holds empty⟩
  have may' : (sampleCall [1] (.entries [.file sampleFile])).directory.Shows sampleFiles ∧
      Favourable sampleServices (some sampleUrl) sampleFiles
        (sampleCall [1] (.entries [.file sampleFile])) :=
    ⟨shows, favourable_sample fun _ => ⟨_, rfl, clear⟩⟩
  have start : Reaches (resolverStep sampleServices (some sampleUrl))
      (fun state call => call.directory.Shows state.files ∧
        Favourable sampleServices (some sampleUrl) state.files call)
      ResolverState.Fresh ⟨fun _ => none, [], []⟩ := .start ⟨rfl, rfl⟩
  have reached := (start.take _ may (resolverStep_sample named rfl)).take _ may' second
  exact resolver_returns_what_was_asked reached

/-- The certificate of another identifier is returned, and an unreadable file hides the
certificate behind it. -/
theorem wrong_certificate_is_returned :
    (∃ state, Reaches (resolverStep sampleServices (some sampleUrl))
        (fun state call => call.directory.Shows state.files) ResolverState.Fresh state ∧
      ∃ call ∈ state.calls, ∃ der, call.result = .ok (some der) ∧
        sampleServices.ski der ≠ some call.identifier) ∧
      ∃ state, Reaches (resolverStep sampleServices none)
          (fun state call => call.directory.Shows state.files) ResolverState.Fresh state ∧
        ∃ call ∈ state.calls, Holds sampleServices call.before call.identifier ∧
          ∀ der, call.result ≠ .ok (some der) := by
  constructor
  · have named : matchingSummary sampleServices [2] listBody = .ok (some _) := rfl
    have start : Reaches (resolverStep sampleServices (some sampleUrl))
        (fun state call => call.directory.Shows state.files) ResolverState.Fresh
        ⟨fun _ => none, [], []⟩ := .start ⟨rfl, rfl⟩
    refine ⟨_, start.take (sampleCall [2] .missing) (fun _ => rfl)
      (resolverStep_sample named rfl), _, List.mem_singleton_self _, _, rfl, by decide⟩
  · let files : CacheFiles := Function.update sampleFiles "0.der".toList
      (some ⟨[], some "Permission denied (os error 13)".toList⟩)
    let call := sampleCall [1] (.entries [.file "0.der".toList, .file sampleFile])
    have start : Reaches (resolverStep sampleServices none)
        (fun state call => call.directory.Shows state.files) ResolverState.Fresh
        ⟨files, [], []⟩ := .start ⟨rfl, rfl⟩
    have shows : call.directory.Shows files := by
      constructor
      · intro name member
        rcases List.mem_cons.mp member with same | member
        · cases same
          rfl
        · cases List.mem_singleton.mp member
          rfl
      · intro _ name found
        by_cases first : name = "0.der".toList
        · rw [first]
          exact List.mem_cons_self
        · by_cases second : name = sampleFile
          · rw [second]
            exact List.mem_cons_of_mem _ (List.mem_singleton_self _)
          · have absent : files name = none := by
              change Function.update _ _ _ _ = _
              rw [Function.update_of_ne first, sampleFiles, Function.update_of_ne second]
            rw [absent] at found
            exact nomatch found
    have failed : resolverStep sampleServices none ⟨files, [], []⟩ call =
        some ⟨files, [], [⟨[1], files, [], .error (.offlineMiss "AQ".toList
          "no service URL configured".toList)⟩]⟩ := rfl
    have holds : Holds sampleServices files [1] := ⟨sampleFile, by decide, [0x30, 1], rfl, rfl⟩
    exact ⟨_, start.take call shows failed, _, List.mem_singleton_self _, holds, fun _ => nofun⟩

end ZManager.Identity
