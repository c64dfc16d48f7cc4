import ZManager.Foundation.Base64Url
import ZManager.Foundation.Path
import ZManager.Foundation.Step
import ZManager.Identity.Inventory
import Mathlib.Data.List.DropRight
import Mathlib.Logic.Function.Basic

/-! # Intermediates from the cache and from the platform

`resolve_intermediate` looks for a certificate with a key identifier in the files of a cache
directory. Where none is found it asks the platform for its list of intermediates, downloads the
one that the list names for the identifier, stores it and returns it.
-/

namespace ZManager.Identity

/-! ## The cache directory -/

/-- Failures of the certificate cache. -/
inductive IntermediateCacheError where
  | io (error : Text)
  | certificateParse (error : Text)
  | invalidFingerprint (fingerprint : Text)

def IntermediateCacheError.text : IntermediateCacheError → Text
  | io error => "cache I/O error: ".toList ++ error
  | certificateParse error => "invalid cached certificate: ".toList ++ error
  | invalidFingerprint fingerprint => "invalid certificate fingerprint: ".toList ++ fingerprint

/-- A file of the cache directory, with the error that reading it gives if it cannot be read. -/
structure CacheFile where
  content : List UInt8
  refusal : Option Text

/-- The files of the cache directory by their names. -/
abbrev CacheFiles := Text → Option CacheFile

/-- `fs::read`. -/
def CacheFiles.read (files : CacheFiles) (name : Text) : Except Text (List UInt8) :=
  match files name with
  | none => .error "No such file or directory (os error 2)".toList
  | some file =>
    match file.refusal with
    | some error => .error error
    | none => .ok file.content

/-- One step of `fs::read_dir`. -/
inductive CacheEntry where
  | failed (error : Text)
  | file (name : Text)

/-- The directory as one call finds it. -/
inductive CacheDirectory where
  /-- Not a directory, or gone before it is read. -/
  | missing
  | failed (error : Text)
  | entries (listing : List CacheEntry)

/-- What the resolver takes from other libraries. -/
structure IntermediateServices (X509 : Type) where
  /-- `serde_json::from_slice`. -/
  parseJson : List UInt8 → Except Text Json
  /-- `X509::from_pem`. -/
  fromPem : List UInt8 → Except Text X509
  /-- `X509::to_der`. -/
  toDer : X509 → Except Text (List UInt8)
  /-- `X509Certificate::from_der` and `subject_key_identifier`. -/
  subjectKeyIdentifier : List UInt8 → Except Text (Option (List UInt8))
  sha256 : List UInt8 → List UInt8
  /-- The text of a `Utf8Error`. -/
  utf8Error : List UInt8 → Text

section

variable {X509 : Type} (services : IntermediateServices X509)

/-- The key identifier of a certificate that has one. -/
def IntermediateServices.ski (der : List UInt8) : Option (List UInt8) :=
  match services.subjectKeyIdentifier der with
  | .ok key => key
  | .error _ => none

def isDerName (name : Text) : Bool := (PathBuf.stemAndExtension name).2 = some "der".toList

/-- The entries in their order, up to the first certificate or failure. -/
def scanCache (files : CacheFiles) (aki : List UInt8) :
    List CacheEntry → Except IntermediateCacheError (Option (List UInt8))
  | [] => .ok none
  | .failed error :: _ => .error (.io error)
  | .file name :: rest =>
    if isDerName name then
      match files.read name with
      | .error error => .error (.io error)
      | .ok bytes =>
        if services.ski bytes = some aki then .ok (some bytes) else scanCache files aki rest
    else scanCache files aki rest

/-- Looks a certificate up in the cache. -/
def getByAki (files : CacheFiles) (directory : CacheDirectory) (aki : List UInt8) :
    Except IntermediateCacheError (Option (List UInt8)) :=
  match directory with
  | .missing => .ok none
  | .failed error => .error (.io error)
  | .entries listing => scanCache services files aki listing

/-! ## The platform -/

/-- The method of a request. -/
inductive HttpMethod where
  | get
  | post
  | put
  | delete
  deriving DecidableEq

/-- A request to the service. -/
structure HttpRequest where
  method : HttpMethod
  url : Text
  deriving DecidableEq

/-- The answer of the service. -/
structure HttpResponse where
  statusCode : Nat
  body : List UInt8

/-- The errors of a transport; those that nothing here looks at by their texts. -/
inductive HttpError where
  | transport (message : Text)
  | httpStatus (statusCode : Nat)
  | other (text : Text)

def HttpError.text : HttpError → Text
  | transport message => "hosted auth HTTP transport failed: ".toList ++ message
  | httpStatus statusCode =>
    "hosted auth HTTP request failed with status ".toList ++ Nat.toDigits 10 statusCode
  | other text => text

/-- Failures of the resolver. -/
inductive IntermediateResolveError where
  | offlineMiss (issuerKeyIdentifier reason : Text)
  | notFound (issuerKeyIdentifier : Text)
  | invalidCertificate (reason : Text)
  | storage (reason : Text)
  | transport (reason : Text)

/-- What `fs::write` does: all of the file, or an error and what it leaves in the file if it got
as far as opening it. -/
inductive WriteOutcome where
  | done
  | failed (error : Text) (left : Option (List UInt8))

/-- One call with what its surroundings answer; the transport's answers go by the number of the
request. -/
structure IntermediateCall where
  identifier : List UInt8
  directory : CacheDirectory
  send : Nat → HttpRequest → Except HttpError HttpResponse
  createDir : Except Text Unit
  write : WriteOutcome

/-- The files, and what a call has written and asked for so far. -/
structure ResolveSession where
  files : CacheFiles
  written : List (Text × List UInt8)
  requests : List HttpRequest

/-- A write; what makes an old file unreadable stays. -/
def ResolveSession.put (session : ResolveSession) (name : Text) (content : List UInt8) :
    ResolveSession :=
  { session with
    files := Function.update session.files name
      (some ⟨content, (session.files name).bind CacheFile.refusal⟩)
    written := session.written ++ [(name, content)] }

abbrev ResolveM := StepM IntermediateResolveError ResolveSession

/-- `store` of the cache. -/
def storeIntermediate (call : IntermediateCall) (der : List UInt8) (session : ResolveSession) :
    Except IntermediateCacheError Text × ResolveSession :=
  match services.subjectKeyIdentifier der with
  | .error error => (.error (.certificateParse error), session)
  | .ok none =>
    (.error (.certificateParse
      "intermediate certificate is missing SubjectKeyIdentifier extension".toList), session)
  | .ok (some _) =>
    let hexName := hexLower (services.sha256 der)
    match call.createDir with
    | .error error => (.error (.io error), session)
    | .ok () =>
      match call.write with
      | .done => (.ok ("sha256:".toList ++ hexName), session.put (hexName ++ ".der".toList) der)
      | .failed error none => (.error (.io error), session)
      | .failed error (some left) =>
        (.error (.io error), session.put (hexName ++ ".der".toList) left)

/-- `transport.send`. -/
def sendRequest (call : IntermediateCall) (request : HttpRequest) :
    ResolveM (Except HttpError HttpResponse) := do
  let session ← get
  set { session with requests := session.requests ++ [request] }
  pure (call.send session.requests.length request)

def maxAttempts : Nat := 3

/-- Whether an answer to a GET is asked for again while attempts are left. -/
def isRetried : Except HttpError HttpResponse → Bool
  | .ok response =>
    response.statusCode == 429 || (500 ≤ response.statusCode && response.statusCode ≤ 599)
  | .error (.transport _) => true
  | .error _ => false

/-- The attempts of `send_json_request`, with some more left behind this one. -/
def sendAttempts (call : IntermediateCall) (request : HttpRequest) :
    Nat → ResolveM (Except HttpError HttpResponse)
  | 0 => sendRequest call request
  | left + 1 => do
      let answer ← sendRequest call request
      if isRetried answer then sendAttempts call request left else pure answer

/-- Sends a request, again after a failure. -/
def sendJsonRequest (call : IntermediateCall) (baseUrl path : Text) :
    ResolveM (Except HttpError HttpResponse) :=
  sendAttempts call ⟨.get, baseUrl.rdropWhile (· == '/') ++ path⟩ (maxAttempts - 1)

/-- An answer with a 2xx status. -/
def requireSuccess (aki : List UInt8) (answer : Except HttpError HttpResponse) :
    Except IntermediateResolveError HttpResponse :=
  match answer with
  | .error error => .error (.offlineMiss (Base64Url.encode aki) error.text)
  | .ok response =>
    if 200 ≤ response.statusCode ∧ response.statusCode ≤ 299 then .ok response
    else
      .error (.offlineMiss (Base64Url.encode aki) (HttpError.httpStatus response.statusCode).text)

/-- A text field in either spelling. -/
def summaryField (item : Json) (camelCase snakeCase : String) : Option Text :=
  ((item.get camelCase.toList).or (item.get snakeCase.toList)).bind Json.asStr

/-- The first summary that names the identifier. -/
def matchingSummary (aki body : List UInt8) :
    Except IntermediateResolveError (Option Json) :=
  match services.parseJson body with
  | .error error => .error (.transport ("invalid intermediate summaries JSON: ".toList ++ error))
  | .ok (.array items) =>
    .ok (items.find? fun item =>
      summaryField item "keyIdentifier" "key_identifier" == some (Base64Url.encode aki))
  | .ok _ => .error (.transport "server returned non-array intermediates".toList)

def summaryPemUrl (summary : Json) : Except IntermediateResolveError Text :=
  match (summaryField summary "certificatePemUrl" "certificate_pem_url").filter (· ≠ []) with
  | some url => .ok url
  | none =>
    match summaryField summary "certificateFingerprint" "certificate_fingerprint" with
    | some fingerprint =>
      .ok ("/v1/trust/intermediates/".toList ++ fingerprint ++ "/pem".toList)
    | none => .error (.transport "missing certificatePemUrl".toList)

def fullPemUrl (serviceUrl pemUrl : Text) : Text :=
  if "http://".toList <+: pemUrl ∨ "https://".toList <+: pemUrl then pemUrl
  else serviceUrl.rdropWhile (· == '/') ++ '/' :: pemUrl.dropWhile (· == '/')

/-- The certificate in a PEM answer. -/
def pemToDer (body : List UInt8) : Except IntermediateResolveError (List UInt8) :=
  match fromUtf8 body with
  | none =>
    .error (.invalidCertificate ("PEM is not valid UTF-8: ".toList ++ services.utf8Error body))
  | some _ =>
    match services.fromPem body with
    | .error error =>
      .error (.invalidCertificate ("failed to parse certificate PEM: ".toList ++ error))
    | .ok x509 =>
      match services.toDer x509 with
      | .error error =>
        .error (.invalidCertificate ("failed to encode certificate DER: ".toList ++ error))
      | .ok der => .ok der

/-- The online part of `resolve_intermediate` for a service. -/
def fetchIntermediate (call : IntermediateCall) (serviceUrl : Text) :
    ResolveM (Option (List UInt8)) := do
  let listed ← sendJsonRequest call serviceUrl "/v1/trust/intermediates".toList
  let response ← liftM (requireSuccess call.identifier listed)
  match ← liftM (matchingSummary services call.identifier response.body) with
  | none => pure none
  | some summary =>
    let pemUrl ← liftM (summaryPemUrl summary)
    let sent ← sendRequest call ⟨.get, fullPemUrl serviceUrl pemUrl⟩
    let pemResponse ← liftM (requireSuccess call.identifier sent)
    let der ← liftM (pemToDer services pemResponse.body)
    let session ← get
    let (stored, session) := storeIntermediate services call der session
    set session
    match stored with
    | .error error =>
      throw (.storage ("failed to store certificate in cache: ".toList ++ error.text))
    | .ok _ => pure (some der)

/-- `resolve_intermediate` of a resolver with this service URL. -/
def resolveIntermediate (serviceBaseUrl : Option Text) (call : IntermediateCall) :
    ResolveM (Option (List UInt8)) := do
  let session ← get
  match getByAki services session.files call.directory call.identifier with
  | .ok (some der) => pure (some der)
  | _ =>
    match serviceBaseUrl.filter (Text.trim · ≠ []) with
    | none =>
      throw (.offlineMiss (Base64Url.encode call.identifier)
        "no service URL configured".toList)
    | some serviceUrl => fetchIntermediate services call serviceUrl

end

end ZManager.Identity
